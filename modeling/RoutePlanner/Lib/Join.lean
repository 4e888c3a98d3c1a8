import RoutePlanner.Lib.Along

/-!
# Pieces joined to a line

A line is built of pieces, each appended without its first vertex where that repeats the end of the
line (`join`).

* `join_take_prefix`: what the first pieces make is a stretch of the line from its start.
* `tiles_join`: pieces that share their joints tile the line.
-/

namespace RoutePlanner.Lib

variable {P : Type*} [DecidableEq P]

/-- What a piece adds to a line: a joint is not repeated. -/
def newPoints (line piece : List P) : List P :=
  if line.getLast? = piece.head? then piece.tail else piece

/-- The pieces one after the other, no joint repeated. -/
def join (pieces : List (List P)) : List P :=
  pieces.foldl (fun line piece => line ++ newPoints line piece) []

theorem join_concat (pieces : List (List P)) (piece : List P) :
    join (pieces ++ [piece]) = join pieces ++ newPoints (join pieces) piece :=
  List.foldl_concat _ _ _ _

theorem join_prefix_append (pieces more : List (List P)) :
    join pieces <+: join (pieces ++ more) := by
  induction more using List.reverseRecOn with
  | nil => simp
  | append_singleton more piece ih =>
    rw [← List.append_assoc, join_concat]
    exact ih.trans (List.prefix_append _ _)

/-- **The first pieces** make the line up to where the last of them ends. -/
theorem join_take_prefix (pieces : List (List P)) (n : ℕ) :
    join (pieces.take n) <+: join pieces := by
  have h := join_prefix_append (pieces.take n) (pieces.drop n)
  rwa [List.take_append_drop] at h

/-- A line ends where its last piece does. -/
theorem getLast?_join_concat (pieces : List (List P)) {piece : List P} (hne : piece ≠ []) :
    (join (pieces ++ [piece])).getLast? = piece.getLast? := by
  obtain ⟨c, post, rfl⟩ := List.exists_cons_of_ne_nil hne
  rw [join_concat, newPoints]
  split
  · next hjoint =>
    cases post with
    | nil =>
      rw [List.tail_cons, List.append_nil, hjoint]
      rfl
    | cons d post =>
      rw [List.tail_cons, List.getLast?_append_of_ne_nil _ (List.cons_ne_nil d post),
        List.getLast?_cons_cons]
  · rw [List.getLast?_append_of_ne_nil _ (List.cons_ne_nil c post)]

/-- What is appended depends on the end of the line alone. -/
theorem foldl_newPoints_append (line tail : List P) (hne : tail ≠ []) (pieces : List (List P)) :
    pieces.foldl (fun line piece => line ++ newPoints line piece) (line ++ tail) =
      line ++ pieces.foldl (fun line piece => line ++ newPoints line piece) tail := by
  induction pieces generalizing tail with
  | nil => rfl
  | cons piece pieces ih =>
    have hlast : newPoints (line ++ tail) piece = newPoints tail piece := by
      rw [newPoints, newPoints, List.getLast?_append_of_ne_nil _ hne]
    rw [List.foldl_cons, List.foldl_cons, hlast, List.append_assoc]
    exact ih _ (List.append_ne_nil_of_left_ne_nil hne _)

theorem join_cons {piece : List P} (hne : piece ≠ []) (pieces : List (List P)) :
    join (piece :: pieces) =
      pieces.foldl (fun line piece => line ++ newPoints line piece) piece := by
  obtain ⟨c, post, rfl⟩ := List.exists_cons_of_ne_nil hne
  rw [join, List.foldl_cons]
  rfl

/-- Two pieces that share a joint, and what follows. -/
theorem join_cons_joint (pre post : List P) (c : P) (pieces : List (List P)) :
    join ((pre ++ [c]) :: (c :: post) :: pieces) = pre ++ join ((c :: post) :: pieces) := by
  have hjoint : newPoints (pre ++ [c]) (c :: post) = post := by
    rw [newPoints, List.getLast?_concat, List.head?_cons, if_pos rfl, List.tail_cons]
  rw [join_cons (List.concat_ne_nil c pre), join_cons (List.cons_ne_nil c post), List.foldl_cons,
    hjoint, List.append_assoc, List.singleton_append]
  exact foldl_newPoints_append pre (c :: post) (List.cons_ne_nil c post) pieces

/-- **Pieces that share their joints** tile the line. -/
theorem tiles_join {pieces : List (List P)} (hpieces : pieces ≠ [])
    (hne : ∀ piece ∈ pieces, piece ≠ [])
    (hjoints : pieces.IsChain fun l l' => l.getLast? = l'.head?) : Tiles pieces (join pieces) := by
  induction pieces with
  | nil => exact absurd rfl hpieces
  | cons piece pieces ih =>
    have hpiece := hne piece List.mem_cons_self
    cases pieces with
    | nil =>
      rw [join_cons hpiece]
      exact Tiles.one piece hpiece
    | cons next pieces =>
      obtain ⟨hjoint, hrest⟩ := List.isChain_cons_cons.mp hjoints
      have htail := ih (List.cons_ne_nil next pieces)
        (fun l hl => hne l (List.mem_cons_of_mem piece hl)) hrest
      obtain ⟨c, post, rfl⟩ := List.exists_cons_of_ne_nil
        (hne next (List.mem_cons_of_mem piece List.mem_cons_self))
      obtain ⟨pre, rfl⟩ := List.getLast?_eq_some_iff.mp (hjoint.trans List.head?_cons)
      obtain ⟨more, hmore⟩ : ∃ more, join ((c :: post) :: pieces) = c :: more := by
        obtain ⟨more, hmore⟩ := join_prefix_append [c :: post] pieces
        rw [join_cons (List.cons_ne_nil c post)] at hmore
        exact ⟨post ++ more, hmore.symm⟩
      rw [join_cons_joint, hmore]
      rw [hmore] at htail
      exact Tiles.cons pre c more htail

end RoutePlanner.Lib
