import Mathlib.Data.List.Chain
import Mathlib.Order.Lattice

/-!
# Lines, pieces of lines, and cuts

A line is a list of vertices. It is tiled by pieces when each piece starts at the vertex the one
before ended with (`Tiles`). With its vertices placed along it (`stations`), it can be cut to the
stretch between two places (`cut`).

* `tiles_cutPieces`: the pieces that reach into a stretch, each cut to it, tile the line cut to it.
-/

namespace RoutePlanner.Lib

variable {P K : Type*}

/-! ## Pieces -/

/-- `pieces` tile the line: each starts at the vertex the one before ended with. -/
inductive Tiles : List (List P) → List P → Prop
  | one (line : List P) (hne : line ≠ []) : Tiles [line] line
  | cons (pre : List P) (c : P) (post : List P) {rest : List (List P)}
      (hrest : Tiles rest (c :: post)) : Tiles ((pre ++ [c]) :: rest) (pre ++ c :: post)

namespace Tiles

variable {pieces : List (List P)} {line : List P}

theorem piece_ne_nil (h : Tiles pieces line) {piece : List P} (hp : piece ∈ pieces) :
    piece ≠ [] := by
  induction h with
  | one line hne =>
    rw [List.mem_singleton.mp hp]
    exact hne
  | cons pre c post _ ih =>
    rcases List.mem_cons.mp hp with rfl | hp
    · simp
    · exact ih hp

/-- Every piece is a stretch of the line. -/
theorem infix_of_mem (h : Tiles pieces line) {piece : List P} (hp : piece ∈ pieces) :
    piece <:+: line := by
  induction h with
  | one line _ =>
    obtain rfl := List.mem_singleton.mp hp
    exact List.infix_refl _
  | cons pre c post _ ih =>
    rcases List.mem_cons.mp hp with rfl | hp
    · exact ⟨[], post, by simp⟩
    · exact (ih hp).trans (List.suffix_append pre (c :: post)).isInfix

/-- The first piece starts where the line does. -/
theorem head? (h : Tiles pieces line) : pieces.head?.bind List.head? = line.head? := by
  cases h with
  | one => rfl
  | cons pre c post _ => cases pre <;> rfl

/-- The last piece ends where the line does. -/
theorem getLast? (h : Tiles pieces line) : pieces.getLast?.bind List.getLast? = line.getLast? := by
  induction h with
  | one => rfl
  | cons pre c post hrest ih =>
    have hne : ∀ rest : List (List P), Tiles rest (c :: post) → rest ≠ [] := by
      rintro _ hrest rfl
      cases hrest
    obtain ⟨piece, rest', rfl⟩ := List.exists_cons_of_ne_nil (hne _ hrest)
    rw [List.getLast?_cons_cons, ih, List.getLast?_append_of_ne_nil _ (by simp)]

/-- Pieces that follow each other share a vertex. -/
theorem isChain (h : Tiles pieces line) :
    pieces.IsChain fun l l' => l.getLast? = l'.head? := by
  induction h with
  | one => exact List.IsChain.singleton _
  | @cons pre c post rest hrest ih =>
    cases rest with
    | nil => exact List.IsChain.singleton _
    | cons piece rest =>
      refine List.IsChain.cons_cons ?_ ih
      have hhead := hrest.head?
      rw [List.head?_cons, Option.bind_some] at hhead
      rw [hhead, List.getLast?_concat, List.head?_cons]

end Tiles

/-! ## Cuts -/

section Cut

variable [LinearOrder K] (a b : K) (A B : P)

/-- A line cut to the stretch from `A` at `a` to `B` at `b`: vertices strictly between, and at each
end the cut or, where the line starts or stops within the stretch, its own vertex. -/
def cut : List (P × K) → List P
  | [] => []
  | v :: l =>
    let w := l.getLast?.getD v
    (if v.2 < a then A else v.1) ::
      (l.dropLast.filter fun x => decide (a < x.2 ∧ x.2 < b)).map Prod.fst ++
      [if b < w.2 then B else w.1]

/-- A piece that reaches into the stretch. -/
def meets : List (P × K) → Bool
  | [] => false
  | v :: l => decide (l ≠ [] ∧ a < (l.getLast?.getD v).2 ∧ v.2 < b)

/-- The pieces that reach into the stretch, each cut to it. -/
def cutPieces (pieces : List (List (P × K))) : List (List P) :=
  (pieces.filter (meets a b)).map (cut a b A B)

theorem cut_concat (v w : P × K) (l : List (P × K)) :
    cut a b A B (v :: l ++ [w]) = (if v.2 < a then A else v.1) ::
      (l.filter fun x => decide (a < x.2 ∧ x.2 < b)).map Prod.fst ++
        [if b < w.2 then B else w.1] := by
  rw [List.cons_append, cut, List.getLast?_concat, List.dropLast_concat, Option.getD_some]

theorem meets_concat (v w : P × K) (l : List (P × K)) :
    meets a b (v :: l ++ [w]) = decide (a < w.2 ∧ v.2 < b) := by
  rw [List.cons_append, meets, List.getLast?_concat, Option.getD_some]
  simp

variable {a b A B}

theorem cutPieces_cons_of_pos {piece : List (P × K)} {rest : List (List (P × K))}
    (h : meets a b piece = true) :
    cutPieces a b A B (piece :: rest) = cut a b A B piece :: cutPieces a b A B rest := by
  rw [cutPieces, List.filter_cons_of_pos h, List.map_cons, cutPieces]

theorem cutPieces_cons_of_neg {piece : List (P × K)} {rest : List (List (P × K))}
    (h : ¬ meets a b piece = true) :
    cutPieces a b A B (piece :: rest) = cutPieces a b A B rest := by
  rw [cutPieces, List.filter_cons_of_neg h, cutPieces]

/-- Nothing that starts behind the stretch is kept. -/
theorem cutPieces_of_le {pieces : List (List (P × K))}
    (h : ∀ piece ∈ pieces, ∀ v ∈ piece.head?, b ≤ v.2) : cutPieces a b A B pieces = [] := by
  refine List.map_eq_nil_iff.mpr (List.filter_eq_nil_iff.mpr fun piece hp hmeets => ?_)
  cases piece with
  | nil => exact absurd hmeets (by simp [meets])
  | cons v l => exact absurd (of_decide_eq_true hmeets).2.2 (not_lt.mpr (h _ hp v rfl))

theorem inside_eq_nil_of_le {l : List (P × K)} (h : ∀ x ∈ l, x.2 ≤ a) :
    (l.filter fun x => decide (a < x.2 ∧ x.2 < b)) = [] :=
  List.filter_eq_nil_iff.mpr fun x hx hin => not_lt.mpr (h x hx) (of_decide_eq_true hin).1

theorem inside_eq_nil_of_ge {l : List (P × K)} (h : ∀ x ∈ l, b ≤ x.2) :
    (l.filter fun x => decide (a < x.2 ∧ x.2 < b)) = [] :=
  List.filter_eq_nil_iff.mpr fun x hx hin => not_lt.mpr (h x hx) (of_decide_eq_true hin).2

/-- A line that reaches beyond the stretch at both ends is cut to its vertices between them. -/
theorem cut_eq {line : List (P × K)} (hne : line ≠ []) (hab : a < b)
    (hA : ∀ v ∈ line, v.2 = a → v.1 = A) (hB : ∀ v ∈ line, v.2 = b → v.1 = B)
    (hstart : ∀ v ∈ line.head?, v.2 ≤ a) (hend : ∀ v ∈ line.getLast?, b ≤ v.2) :
    cut a b A B line =
      A :: (line.filter fun x => decide (a < x.2 ∧ x.2 < b)).map Prod.fst ++ [B] := by
  obtain ⟨v, l, rfl⟩ := List.exists_cons_of_ne_nil hne
  have hv : v.2 ≤ a := hstart v rfl
  have hvA : (if v.2 < a then A else v.1) = A := by
    rcases hv.lt_or_eq with hlt | heq
    · rw [if_pos hlt]
    · rw [if_neg heq.not_lt, hA v List.mem_cons_self heq]
  rcases List.eq_nil_or_concat' l with rfl | ⟨l, w, rfl⟩
  · exact absurd (hab.trans_le (hend v rfl)) (not_lt.mpr hv)
  · rw [← List.cons_append] at hB hend ⊢
    have hw : b ≤ w.2 := hend w (by rw [List.getLast?_concat]; rfl)
    have hwB : (if b < w.2 then B else w.1) = B := by
      rcases hw.lt_or_eq with hlt | heq
      · rw [if_pos hlt]
      · rw [if_neg heq.not_lt, hB w (List.mem_append_right _ List.mem_cons_self) heq.symm]
    have hfst : ∀ x ∈ [v], x.2 ≤ a := fun x hx => by rwa [List.mem_singleton.mp hx]
    have hlast : ∀ x ∈ [w], b ≤ x.2 := fun x hx => by rwa [List.mem_singleton.mp hx]
    have hline : v :: l ++ [w] = [v] ++ (l ++ [w]) := rfl
    rw [cut_concat, hvA, hwB, hline, List.filter_append, List.filter_append,
      inside_eq_nil_of_le hfst, inside_eq_nil_of_ge hlast, List.nil_append, List.append_nil]

/-- A line that goes on behind the stretch is cut where it leaves it. -/
theorem cut_append_of_le {v c : P × K} {pre post : List (P × K)} (hb : b ≤ c.2)
    (hpost : ∀ x ∈ post, c.2 < x.2) (hB : c.2 = b → c.1 = B) :
    cut a b A B (v :: pre ++ c :: post) = cut a b A B (v :: pre ++ [c]) := by
  rcases List.eq_nil_or_concat' post with rfl | ⟨l, w, rfl⟩
  · rfl
  · have hw : b < w.2 := hb.trans_lt (hpost w (by simp))
    have hl : ∀ x ∈ c :: l, b ≤ x.2 := by
      intro x hx
      rcases List.mem_cons.mp hx with rfl | hx
      · exact hb
      · exact hb.trans (hpost x (by simp [hx])).le
    have hc : (if b < c.2 then B else c.1) = B := by
      rcases hb.lt_or_eq with hlt | heq
      · rw [if_pos hlt]
      · rw [if_neg heq.not_lt, hB heq.symm]
    have hline : v :: pre ++ c :: (l ++ [w]) = v :: (pre ++ c :: l) ++ [w] := by simp
    rw [hline, cut_concat, cut_concat, List.filter_append, inside_eq_nil_of_ge hl, if_pos hw, hc,
      List.append_nil]

/-- A line that starts before the stretch is cut where it enters it. -/
theorem cut_append_of_ge {v c w : P × K} {pre post : List (P × K)} (ha : c.2 ≤ a)
    (hv : v.2 < c.2) (hpre : ∀ x ∈ pre, x.2 < c.2) (hA : c.2 = a → c.1 = A) :
    cut a b A B (v :: pre ++ (c :: post ++ [w])) = cut a b A B (c :: post ++ [w]) := by
  have hl : ∀ x ∈ pre ++ [c], x.2 ≤ a := by
    intro x hx
    rcases List.mem_append.mp hx with hx | hx
    · exact ((hpre x hx).trans_le ha).le
    · rw [List.mem_singleton.mp hx]
      exact ha
  have hc : (if c.2 < a then A else c.1) = A := by
    rcases ha.lt_or_eq with hlt | heq
    · rw [if_pos hlt]
    · rw [if_neg heq.not_lt, hA heq]
  have hline : v :: pre ++ (c :: post ++ [w]) = v :: (pre ++ [c] ++ post) ++ [w] := by simp
  rw [hline, cut_concat, cut_concat, List.filter_append, inside_eq_nil_of_le hl,
    if_pos (hv.trans_le ha), hc, List.nil_append]

/-- A line is cut at a vertex within the stretch. -/
theorem cut_append_of_mem (A B : P) (v w : P × K) (pre post : List (P × K)) {c : P × K}
    (ha : a < c.2) (hb : c.2 < b) : ∃ hd tl, cut a b A B (v :: pre ++ [c]) = hd ++ [c.1] ∧
      cut a b A B (c :: post ++ [w]) = c.1 :: tl ∧
      cut a b A B (v :: pre ++ (c :: post ++ [w])) = hd ++ c.1 :: tl := by
  have hline : v :: pre ++ (c :: post ++ [w]) = v :: (pre ++ c :: post) ++ [w] := by simp
  have hin : (c :: post).filter (fun x => decide (a < x.2 ∧ x.2 < b)) =
      c :: post.filter fun x => decide (a < x.2 ∧ x.2 < b) :=
    List.filter_cons_of_pos (decide_eq_true ⟨ha, hb⟩)
  refine ⟨(if v.2 < a then A else v.1) ::
      (pre.filter fun x => decide (a < x.2 ∧ x.2 < b)).map Prod.fst,
    (post.filter fun x => decide (a < x.2 ∧ x.2 < b)).map Prod.fst ++
      [if b < w.2 then B else w.1], ?_, ?_, ?_⟩
  · rw [cut_concat, if_neg hb.not_gt]
  · rw [cut_concat, if_neg ha.not_gt, List.cons_append]
  · rw [hline, cut_concat, List.filter_append, hin]
    simp

/-- One piece more, in front of pieces whose cuts tile the rest of the line. -/
theorem tiles_cutPieces_cons {v c : P × K} {pre post : List (P × K)}
    {rest : List (List (P × K))} (hrest : Tiles rest (c :: post))
    (hs : (v :: pre ++ c :: post).Pairwise fun v w => v.2 < w.2) (hA : c.2 = a → c.1 = A)
    (hB : c.2 = b → c.1 = B) (hab : a < b) (hv : v.2 < b)
    (hend : ∀ w ∈ (c :: post).getLast?, b ≤ w.2)
    (ih : c.2 < b → Tiles (cutPieces a b A B rest) (cut a b A B (c :: post))) :
    Tiles (cutPieces a b A B ((v :: pre ++ [c]) :: rest))
      (cut a b A B (v :: pre ++ c :: post)) := by
  obtain ⟨-, hspost, hcross⟩ := List.pairwise_append.mp hs
  have hbefore : ∀ x ∈ v :: pre, x.2 < c.2 := fun x hx => hcross x hx c List.mem_cons_self
  have hafter : ∀ x ∈ post, c.2 < x.2 := (List.pairwise_cons.mp hspost).1
  have hmeets : meets a b (v :: pre ++ [c]) = decide (a < c.2 ∧ v.2 < b) :=
    meets_concat a b v c pre
  by_cases hb : b ≤ c.2
  · -- the piece leaves the stretch, and nothing follows
    have hnone : cutPieces a b A B rest = [] := by
      refine cutPieces_of_le fun piece hp x hx => ?_
      have hmem := (hrest.infix_of_mem hp).subset (List.mem_of_mem_head? hx)
      rcases List.mem_cons.mp hmem with rfl | hmem
      · exact hb
      · exact hb.trans (hafter x hmem).le
    have hkeep : meets a b (v :: pre ++ [c]) = true := by
      rw [hmeets]
      exact decide_eq_true ⟨hab.trans_le hb, hv⟩
    rw [cutPieces_cons_of_pos hkeep, hnone, cut_append_of_le hb hafter hB]
    exact Tiles.one _ (by simp [cut])
  · -- the line goes on behind `c`
    have hcb : c.2 < b := not_le.mp hb
    obtain ⟨l, w, rfl⟩ : ∃ l w, post = l ++ [w] := by
      rcases List.eq_nil_or_concat' post with rfl | ⟨l, w, rfl⟩
      · exact absurd (hend c rfl) hb
      · exact ⟨l, w, rfl⟩
    have htail := ih hcb
    rw [← List.cons_append] at htail ⊢
    by_cases ha : a < c.2
    · have hkeep : meets a b (v :: pre ++ [c]) = true := by
        rw [hmeets]
        exact decide_eq_true ⟨ha, hv⟩
      obtain ⟨hd, tl, hpiece, hcut, hwhole⟩ := cut_append_of_mem A B v w pre l ha hcb
      rw [hcut] at htail
      rw [cutPieces_cons_of_pos hkeep, hpiece, hwhole]
      exact Tiles.cons hd c.1 tl htail
    · have hdrop : ¬ meets a b (v :: pre ++ [c]) = true := by
        rw [hmeets, decide_eq_true_eq]
        exact fun h => ha h.1
      rw [cutPieces_cons_of_neg hdrop, cut_append_of_ge (not_lt.mp ha)
        (hbefore v List.mem_cons_self) (fun x hx => hbefore x (List.mem_cons_of_mem v hx)) hA]
      exact htail

/-- **The cut pieces tile the cut line.** -/
theorem tiles_cutPieces {pieces : List (List (P × K))} {line : List (P × K)}
    (htiles : Tiles pieces line) (hs : line.Pairwise fun v w => v.2 < w.2)
    (hA : ∀ v ∈ line, v.2 = a → v.1 = A) (hB : ∀ v ∈ line, v.2 = b → v.1 = B) (hab : a < b)
    (hstart : ∀ v ∈ line.head?, v.2 < b) (hend : ∀ v ∈ line.getLast?, b ≤ v.2) :
    Tiles (cutPieces a b A B pieces) (cut a b A B line) := by
  induction htiles with
  | one line hne =>
    obtain ⟨v, l, rfl⟩ := List.exists_cons_of_ne_nil hne
    have hv : v.2 < b := hstart v rfl
    rcases List.eq_nil_or_concat' l with rfl | ⟨l, w, rfl⟩
    · exact absurd hv (not_lt.mpr (hend v rfl))
    · have hw : b ≤ w.2 := hend w (by rw [← List.cons_append, List.getLast?_concat]; rfl)
      have hmeets : meets a b (v :: (l ++ [w])) = true := by
        rw [← List.cons_append, meets_concat]
        exact decide_eq_true ⟨hab.trans_le hw, hv⟩
      rw [cutPieces_cons_of_pos hmeets]
      exact Tiles.one _ (by simp [cut])
  | @cons pre c post rest hrest ih =>
    have hmem : ∀ v ∈ c :: post, v ∈ pre ++ c :: post := fun v hv =>
      List.mem_append_right pre hv
    have hlast : ∀ v ∈ (c :: post).getLast?, b ≤ v.2 := by
      intro v hv
      exact hend v (by rwa [List.getLast?_append_of_ne_nil _ (by simp)])
    have htail := fun hcb : ∀ v ∈ (c :: post).head?, v.2 < b =>
      ih (List.pairwise_append.mp hs).2.1 (fun v hv => hA v (hmem v hv))
        (fun v hv => hB v (hmem v hv)) hcb hlast
    cases pre with
    | nil =>
      -- a piece of one vertex
      have hmeets : ¬ meets a b [c] = true := by simp [meets]
      rw [List.nil_append, cutPieces_cons_of_neg hmeets]
      exact htail hstart
    | cons v pre =>
      have hc := hmem c List.mem_cons_self
      refine tiles_cutPieces_cons hrest hs (hA c hc) (hB c hc) hab (hstart v rfl) hlast
        fun hcb => htail fun x hx => ?_
      rwa [← Option.some.inj hx]

end Cut

end RoutePlanner.Lib
