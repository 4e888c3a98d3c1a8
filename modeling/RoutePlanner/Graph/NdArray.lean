import Mathlib.Algebra.Order.Field.Rat
import RoutePlanner.Lib.Fallible
import RoutePlanner.Lib.LittleEndian

/-!
# `numpy`: the arrays of a pack

What `pyref/graph.py` uses of a flat array: its dtype, its items as the bytes hold them, and the
operations of `validate` on them. A float is read as the number it stands for, and an operation that
mixes an integer with a float rounds the integer to a float first, as numpy does.

* `NdArray.tofile`, `NdArray.fromfile`: the raw bytes of an array.
* `fromfile_tofile`: an array survives them.
-/

namespace RoutePlanner.Graph

open RoutePlanner.Lib

/-- What goes wrong, by the exception that is raised. -/
inductive Error where
  | assertion (message : String)
  | indexError
  | typeError
  | valueError (message : String)
  | keyError (key : String)
  | fileNotFound (file : String)

/-- `assert condition, message`. -/
def check (condition : Prop) [Decidable condition] (message : String) : Except Error Unit :=
  if condition then .ok () else .error (.assertion message)

/-! ## Types of items -/

/-- A dtype. The packs use the first four. -/
inductive Dtype where
  | f64
  | i64
  | i32
  | u8
  | other (descr : String) (itemsize : ℕ)
  deriving DecidableEq

namespace Dtype

/-- `dtype.itemsize`. -/
def itemsize : Dtype → ℕ
  | f64 => 8
  | i64 => 8
  | i32 => 4
  | u8 => 1
  | other _ n => n

/-- `dtype.str`. -/
def str : Dtype → String
  | f64 => "<f8"
  | i64 => "<i8"
  | i32 => "<i4"
  | u8 => "|u1"
  | other descr _ => descr

/-- `_DTYPE_TO_EXT.get(dtype.str)`. -/
def ext : Dtype → Option String
  | f64 => some "f64"
  | i64 => some "i64"
  | i32 => some "i32"
  | u8 => some "u8"
  | other _ _ => none

end Dtype

/-! ## Scalars -/

/-- An item, as a number. -/
inductive Scalar where
  | int (n : ℤ)
  | fin (x : ℚ)
  | inf (negative : Bool)
  | nan
  deriving DecidableEq

/-- Two's complement in `bits` bits. -/
def signed (bits w : ℕ) : ℤ := if w < 2 ^ (bits - 1) then w else (w : ℤ) - 2 ^ bits

/-- The value of a float64: sign, exponent and fraction, with the subnormal numbers. -/
def floatValue (w : ℕ) : Scalar :=
  let exponent : ℕ := w / 2 ^ 52 % 2 ^ 11
  let fraction : ℕ := w % 2 ^ 52
  let withSign (x : ℚ) : ℚ := if 2 ^ 63 ≤ w then -x else x
  if exponent = 2047 then (if fraction = 0 then .inf (decide (2 ^ 63 ≤ w)) else .nan)
  else if exponent = 0 then .fin (withSign ((fraction : ℚ) / (2 ^ 1074 : ℕ)))
  else .fin (withSign (((2 ^ 52 + fraction) * 2 ^ exponent : ℕ) / (2 ^ 1075 : ℕ)))

/-- An int64 as a float64: the nearest multiple of the last place, the even one of two. -/
def asFloat (n : ℤ) : ℤ :=
  let unit : ℕ := 2 ^ (Nat.log2 n.natAbs - 52)
  let q := n.natAbs / unit
  let r := n.natAbs % unit
  let rounded := if 2 * r < unit then q else if unit < 2 * r then q + 1 else q + q % 2
  n.sign * (rounded * unit : ℕ)

example : floatValue 4609434218613702656 = .fin (3 / 2) ∧ floatValue 1 = .fin (1 / 2 ^ 1074) ∧
    floatValue 18442240474082181120 = .inf true := by decide +kernel

/-- A tie goes to the even one. -/
example : asFloat (2 ^ 53 + 1) = 2 ^ 53 ∧ asFloat (-2 ^ 53 - 3) = -2 ^ 53 - 4 := by decide +kernel

namespace Scalar

/-- `a == b` of two items. -/
def eq : Scalar → Scalar → Bool
  | int a, int b => a = b
  | int a, fin y => (asFloat a : ℚ) = y
  | fin x, int b => x = (asFloat b : ℚ)
  | fin x, fin y => x = y
  | inf s, inf s' => s = s'
  | _, _ => false

/-- `a == n`, for an `int` that is exact as a float. -/
def eqNat (a : Scalar) (n : ℕ) : Bool :=
  match a with
  | int m => m = n
  | fin x => x = n
  | _ => false

/-- `0 <= a < n`. -/
def inRange (a : Scalar) (n : ℕ) : Bool :=
  match a with
  | int m => 0 ≤ m ∧ m < n
  | fin x => 0 ≤ x ∧ x < n
  | _ => false

end Scalar

/-! ## Arrays -/

/-- A flat array: its items as little-endian words. -/
structure NdArray where
  dtype : Dtype
  words : List ℕ
  fits : ∀ w ∈ words, w < 256 ^ dtype.itemsize

namespace NdArray

variable (a : NdArray)

theorem ext {a b : NdArray} (hd : a.dtype = b.dtype) (hw : a.words = b.words) : a = b := by
  cases a
  cases b
  cases hd
  cases hw
  rfl

/-- An array without items. -/
def empty : NdArray := ⟨.u8, [], fun _ hw => absurd hw List.not_mem_nil⟩

/-- `len(a)`. -/
def len : ℕ := a.words.length

/-- The items as numbers. Those of another dtype are never reached. -/
def items : List Scalar :=
  match a.dtype with
  | .f64 => a.words.map floatValue
  | .i64 => a.words.map fun w => .int (signed 64 w)
  | .i32 => a.words.map fun w => .int (signed 32 w)
  | .u8 => a.words.map fun w => .int w
  | .other _ _ => a.words.map fun _ => .nan

/-- `a[-1]`. -/
def last : Except Error Scalar :=
  match a.items.getLast? with
  | some x => .ok x
  | none => .error .indexError

/-- `np.diff(a)` as the counts of `np.repeat`. The differences of a width wrap round in it, and a
float does not cast to a count. -/
def diff : Except Error (List ℤ) :=
  let pairs := a.words.zip a.words.tail
  match a.dtype with
  | .i64 => .ok (pairs.map fun p => signed 64 ((p.2 + (2 ^ 64 - p.1)) % 2 ^ 64))
  | .i32 => .ok (pairs.map fun p => signed 32 ((p.2 + (2 ^ 32 - p.1)) % 2 ^ 32))
  | .u8 => .ok (pairs.map fun p => ((p.2 + (2 ^ 8 - p.1)) % 2 ^ 8 : ℕ))
  | _ => .error .typeError

/-- The items as indices. A float is not one. -/
def indices : Except Error (List ℤ) :=
  match a.dtype with
  | .i64 => .ok (a.words.map (signed 64))
  | .i32 => .ok (a.words.map (signed 32))
  | .u8 => .ok (a.words.map fun w => (w : ℤ))
  | _ => .error .indexError

/-- `a[indices]`. A negative index counts from the end. -/
def take (indices : List ℤ) : Except Error (List Scalar) :=
  indices.mapM fun i =>
    let i : ℤ := if i < 0 then i + (a.len : ℤ) else i
    match (if i < 0 then none else a.items[i.toNat]?) with
    | some x => .ok x
    | none => .error .indexError

/-- `a.tofile(file)`. -/
def tofile : List UInt8 := a.words.flatMap (leBytes a.dtype.itemsize)

/-- `np.fromfile(file, dtype)`: as many items as there are bytes for. -/
def fromfile (dtype : Dtype) (bytes : List UInt8) : NdArray where
  dtype := dtype
  words := leWords dtype.itemsize (bytes.length / dtype.itemsize) bytes
  fits := fun _ hw => lt_of_mem_leWords hw

/-- **An array survives its file**, if its items have bytes. -/
theorem fromfile_tofile (h : 0 < a.dtype.itemsize) : fromfile a.dtype a.tofile = a := by
  refine ext rfl ?_
  unfold fromfile tofile
  simp only
  rw [length_flatMap_leBytes, Nat.mul_div_cancel _ h]
  exact leWords_flatMap a.fits

end NdArray

/-- `np.repeat(np.arange(n), counts)`. -/
def repeatRange (n : ℕ) (counts : List ℤ) : Except Error (List ℤ) :=
  if counts.length = n ∨ counts.length = 1 then
    if counts.any (· < 0) then .error (.valueError "repeats may not contain negative values.")
    else .ok ((List.range n).flatMap fun i =>
      List.replicate (counts.getD (if counts.length = n then i else 0) 0).toNat (i : ℤ))
  else .error (.valueError "operands could not be broadcast together")

/-- `bool(np.all(xs == ys))`. A single item is compared with all of the other side. -/
def allEqual (xs ys : List Scalar) : Except Error Bool :=
  if xs.length = ys.length then .ok ((xs.zip ys).all fun p => p.1.eq p.2)
  else match xs, ys with
    | [x], ys => .ok (ys.all fun y => x.eq y)
    | xs, [y] => .ok (xs.all fun x => x.eq y)
    | _, _ => .error (.valueError "operands could not be broadcast together")

end RoutePlanner.Graph
