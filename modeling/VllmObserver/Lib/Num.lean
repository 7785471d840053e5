import Mathlib.Algebra.Order.Ring.Rat
import Mathlib.Algebra.Order.Floor.Ring
import Mathlib.Data.Rat.Floor
import Mathlib.Tactic.Linarith

/-! # Numbers of a dynamically typed program

Floating-point numbers in exact arithmetic: a rational, an infinity or NaN, with
the comparisons and operations IEEE 754 gives the special values and no
rounding. A number is an integer or a float. How far the floats of a double reach
is a property of a value, which the operations leave alone. -/
namespace VllmObserver.Lib

/-- Truncation toward zero. -/
def truncate (q : ℚ) : ℤ := if 0 ≤ q then ⌊q⌋ else ⌈q⌉

theorem truncate_mono {p q : ℚ} (h : p ≤ q) : truncate p ≤ truncate q := by
  unfold truncate
  split
  · rename_i hp
    rw [if_pos (le_trans hp h)]
    exact Int.floor_le_floor h
  · rename_i hp
    split
    · rename_i hq
      have h1 : ⌈p⌉ ≤ 0 := Int.ceil_le.mpr (by simpa using (not_le.mp hp).le)
      have h2 : 0 ≤ ⌊q⌋ := Int.floor_nonneg.mpr hq
      exact le_trans h1 h2
    · exact Int.ceil_le_ceil h

/-- Truncation changes a number by less than one. -/
theorem abs_truncate_sub_lt (q : ℚ) : |(truncate q : ℚ) - q| < 1 := by
  unfold truncate
  rw [abs_lt]
  split
  · have h1 := Int.floor_le q
    have h2 := Int.lt_floor_add_one q
    constructor <;> linarith
  · have h1 := Int.le_ceil q
    have h2 := Int.ceil_lt_add_one q
    constructor <;> linarith

/-- A float without rounding. -/
inductive Flt where
  | fin (q : ℚ)
  | inf (neg : Bool)
  | nan
deriving DecidableEq

/-- Half-way behind the largest double, from where on reals round to an infinity:
`2 ^ 1024 - 2 ^ 970`. -/
def floatLimit : ℚ := ((2 ^ 97) ^ 10 * (2 ^ 54 - 1) : ℕ)

namespace Flt

def isFinite : Flt → Bool
  | fin _ => true
  | _ => false

/-- A double can hold the value, up to rounding. -/
def inRange : Flt → Bool
  | fin q => decide (-floatLimit < q ∧ q < floatLimit)
  | _ => true

theorem inRange_one : (fin ((1 : ℤ) : ℚ)).inRange = true := by
  norm_num [inRange, floatLimit]

def neg : Flt → Flt
  | fin q => fin (-q)
  | inf s => inf (!s)
  | nan => nan

def add : Flt → Flt → Flt
  | fin a, fin b => fin (a + b)
  | inf s, inf t => if s = t then inf s else nan
  | inf s, fin _ => inf s
  | fin _, inf s => inf s
  | _, _ => nan

def sub (x y : Flt) : Flt := x.add y.neg

/-- Multiplication by a positive finite constant. -/
def scale (c : ℚ) : Flt → Flt
  | fin q => fin (q * c)
  | inf s => inf s
  | nan => nan

theorem scale_one (x : Flt) : x.scale 1 = x := by
  cases x with
  | fin q => exact congrArg fin (mul_one q)
  | _ => rfl

/-- Every comparison with NaN is false. -/
def lt : Flt → Flt → Bool
  | fin a, fin b => decide (a < b)
  | inf true, inf false => true
  | inf true, fin _ => true
  | fin _, inf false => true
  | _, _ => false

def le : Flt → Flt → Bool
  | fin a, fin b => decide (a ≤ b)
  | inf s, inf t => s || !t
  | inf true, fin _ => true
  | fin _, inf false => true
  | _, _ => false

@[simp] theorem lt_fin (a b : ℚ) : (fin a).lt (fin b) = decide (a < b) := rfl

@[simp] theorem le_fin (a b : ℚ) : (fin a).le (fin b) = decide (a ≤ b) := rfl

instance : Zero Flt := ⟨fin 0⟩

instance : Add Flt := ⟨add⟩

/-- Floats add up as in a commutative monoid: NaN absorbs, and so do infinities
of opposite sign together. -/
instance : AddCommMonoid Flt where
  add_assoc := by
    rintro (a | (_ | _) | _) (b | (_ | _) | _) (c | (_ | _) | _)
    case fin.fin.fin => exact congrArg fin (add_assoc a b c)
    all_goals rfl
  zero_add := by
    rintro (a | (_ | _) | _)
    case fin => exact congrArg fin (zero_add a)
    all_goals rfl
  add_zero := by
    rintro (a | (_ | _) | _)
    case fin => exact congrArg fin (add_zero a)
    all_goals rfl
  add_comm := by
    rintro (a | (_ | _) | _) (b | (_ | _) | _)
    case fin.fin => exact congrArg fin (add_comm a b)
    all_goals rfl
  nsmul := nsmulRec

/-- At least `q`, and not NaN. -/
def AtLeast (q : ℚ) (x : Flt) : Prop := (fin q).le x = true

abbrev Nonneg (x : Flt) : Prop := x.AtLeast 0

theorem atLeast_fin {p q : ℚ} : (fin q).AtLeast p ↔ p ≤ q := by
  simp [AtLeast]

theorem AtLeast.mono {p q : ℚ} (hpq : p ≤ q) {x : Flt} (hx : x.AtLeast q) : x.AtLeast p := by
  rcases x with a | (_ | _) | _
  case fin => exact atLeast_fin.mpr (hpq.trans (atLeast_fin.mp hx))
  all_goals first | rfl | cases hx

theorem AtLeast.add {p q : ℚ} {x y : Flt} (hx : x.AtLeast p) (hy : y.AtLeast q) :
    (x.add y).AtLeast (p + q) := by
  rcases x with a | (_ | _) | _ <;> rcases y with b | (_ | _) | _
  case fin.fin => exact atLeast_fin.mpr (add_le_add (atLeast_fin.mp hx) (atLeast_fin.mp hy))
  all_goals first | rfl | (cases hx; done) | cases hy

theorem Nonneg.add {x y : Flt} (hx : x.Nonneg) (hy : y.Nonneg) : (x.add y).Nonneg := by
  have h := AtLeast.add hx hy
  rwa [add_zero] at h

theorem Nonneg.scale {c : ℚ} (hc : 0 ≤ c) {x : Flt} (hx : x.Nonneg) : (x.scale c).Nonneg := by
  rcases x with a | (_ | _) | _
  case fin => exact atLeast_fin.mpr (mul_nonneg (atLeast_fin.mp hx) hc)
  all_goals first | rfl | cases hx

theorem Nonneg.not_lt {x : Flt} (hx : x.Nonneg) : x.lt (fin 0) = false := by
  rcases x with a | (_ | _) | _
  case fin => simpa using atLeast_fin.mp hx
  all_goals first | rfl | cases hx

theorem le_refl_of_nonneg {x : Flt} (hx : x.Nonneg) : x.le x = true := by
  rcases x with a | (_ | _) | _
  case fin => simp
  all_goals first | rfl | cases hx

/-- NaN is not below anything. -/
theorem le_trans {x y z : Flt} (hxy : x.le y = true) (hyz : y.le z = true) : x.le z = true := by
  rcases x with a | (_ | _) | _ <;> rcases y with b | (_ | _) | _ <;>
    rcases z with c | (_ | _) | _
  case fin.fin.fin =>
    have hab : a ≤ b := by simpa using hxy
    have hbc : b ≤ c := by simpa using hyz
    simpa using hab.trans hbc
  all_goals first | rfl | (cases hxy; done) | cases hyz

theorem le_of_lt {x y : Flt} (hxy : x.lt y = true) : x.le y = true := by
  rcases x with a | (_ | _) | _ <;> rcases y with b | (_ | _) | _
  case fin.fin =>
    have hab : a < b := by simpa using hxy
    simpa using hab.le
  all_goals first | rfl | cases hxy

theorem not_lt_of_le {x y : Flt} (hxy : x.le y = true) : y.lt x = false := by
  rcases x with a | (_ | _) | _ <;> rcases y with b | (_ | _) | _
  case fin.fin =>
    have hab : a ≤ b := by simpa using hxy
    simpa using hab
  all_goals first | rfl | cases hxy

/-- A float that is below something is not NaN, so it is on one side of a number. -/
theorem lt_of_not_le {x z : Flt} {q : ℚ} (hxq : x.le (fin q) = false) (hxz : x.lt z = true) :
    (fin q).lt x = true := by
  rcases x with a | (_ | _) | _
  case fin =>
    have hqa : q < a := by simpa using hxq
    simpa using hqa
  all_goals first | rfl | (cases hxq; done) | cases hxz

/-- Adding what is not negative does not make less. -/
theorem le_add {x y : Flt} (hx : x.Nonneg) (hy : y.Nonneg) : x.le (x.add y) = true := by
  rcases x with a | (_ | _) | _ <;> rcases y with b | (_ | _) | _
  case fin.fin =>
    have hb := atLeast_fin.mp hy
    simpa [add] using hb
  all_goals first | rfl | (cases hx; done) | cases hy

theorem sum_nonneg : ∀ {xs : List Flt}, (∀ y ∈ xs, y.Nonneg) → xs.sum.Nonneg
  | [], _ => rfl
  | y :: rest, h => by
    rw [List.sum_cons]
    exact (h y List.mem_cons_self).add (sum_nonneg fun z hz => h z (List.mem_cons_of_mem y hz))

/-- Sums of numbers that are not negative are at least each of them. -/
theorem sum_atLeast {q : ℚ} {x : Flt} (hx : x.AtLeast q) : ∀ {xs : List Flt},
    (∀ y ∈ xs, y.Nonneg) → x ∈ xs → xs.sum.AtLeast q
  | y :: rest, hnonneg, hmem => by
    have hrest : ∀ z ∈ rest, z.Nonneg := fun z hz => hnonneg z (List.mem_cons_of_mem y hz)
    rw [List.sum_cons]
    rcases List.mem_cons.mp hmem with rfl | hmem
    · have h := hx.add (sum_nonneg hrest)
      rwa [add_zero] at h
    · have h := AtLeast.add (hnonneg y List.mem_cons_self) (sum_atLeast hx hrest hmem)
      rwa [zero_add] at h

/-- Terms are added in any order. -/
theorem add_swap (x y z : Flt) : (x.add y).add z = (x.add z).add y := add_right_comm x y z

end Flt

/-- An integer or a float. -/
inductive Number where
  | int (n : ℤ)
  | float (x : Flt)
deriving DecidableEq

namespace Number

def toFlt : Number → Flt
  | int n => .fin n
  | float x => x

def isZero : Number → Bool
  | int n => n == 0
  | float x => x == .fin 0

def add : Number → Number → Number
  | int a, int b => int (a + b)
  | a, b => float (a.toFlt.add b.toFlt)

theorem add_int_swap (x : Number) (a b : ℤ) :
    (x.add (.int a)).add (.int b) = (x.add (.int b)).add (.int a) := by
  cases x with
  | int n => exact congrArg Number.int (add_right_comm n a b)
  | float y => exact congrArg Number.float (Flt.add_swap y _ _)

def lt (a b : Number) : Bool := a.toFlt.lt b.toFlt

/-- `max(a, b)`: the first argument unless the second is greater. -/
def max (a b : Number) : Number := if a.lt b then b else a

theorem max_int (a b : ℤ) : max (int a) (int b) = int (Max.max a b) := by
  have hlt : (int a).lt (int b) = decide (a < b) := by
    simp [lt, toFlt]
  rw [max, hlt]
  rcases lt_or_ge a b with h | h
  · rw [if_pos (decide_eq_true h), max_eq_right h.le]
  · rw [if_neg (by simpa using h), max_eq_left h]

/-- `max(0.0, q)` of a number that is not negative. -/
theorem max_zero {q : ℚ} (h : 0 ≤ q) :
    (max (float (.fin 0)) (float (.fin q))).toFlt = .fin q := by
  rcases eq_or_lt_of_le h with rfl | h
  · rfl
  · simp [max, lt, toFlt, h]

theorem toFlt_add (a b : Number) : (a.add b).toFlt = a.toFlt.add b.toFlt := by
  cases a with
  | int m => cases b with
    | int n => exact congrArg Flt.fin (Int.cast_add m n)
    | float y => rfl
  | float x => rfl

/-- `max(bound, n)` is at least the bound, whatever `n` is, as long as the bound is a number. -/
theorem max_atLeast {q : ℚ} {a : Number} (h : a.toFlt = .fin q) (b : Number) :
    (max a b).toFlt.AtLeast q := by
  unfold max
  split
  · rename_i hlt
    rw [lt, h] at hlt
    revert hlt
    rcases b.toFlt with r | (_ | _) | _
    · intro hlt
      exact Flt.atLeast_fin.mpr (le_of_lt (by simpa using hlt))
    all_goals intro hlt; first | rfl | cases hlt
  · rw [h]
    exact Flt.atLeast_fin.mpr (le_refl q)

/-- True division by a non-zero number. -/
def div (a b : Number) : Flt :=
  match a.toFlt, b.toFlt with
  | .fin p, .fin q => .fin (p / q)
  | .fin _, .inf _ => .fin 0
  | .inf s, .fin q => .inf (s != decide (q < 0))
  | _, _ => .nan

end Number

end VllmObserver.Lib
