import Mathlib.Order.Lattice
import Mathlib.Order.Defs.LinearOrder
import Mathlib.Algebra.Group.Basic
import Mathlib.Algebra.BigOperators.Group.List.Basic
import Mathlib.Tactic.Abel

/-! # Tilings of a half-open interval

A list of half-open intervals tiles `[a, b)` when each one starts where the one
before it ended. Every point of `[a, b)` then lies in exactly one of them, none
reaches outside, and their lengths add up. -/
namespace VllmObserver.Lib

section Order
variable {α : Type} [LinearOrder α]

/-- Each interval starts at the end of the one before it, and none is inverted. -/
inductive Tiles : α → α → List (α × α) → Prop
  | nil (a : α) : Tiles a a []
  | cons {a m b : α} {rest : List (α × α)} (le : a ≤ m) (tail : Tiles m b rest) :
      Tiles a b ((a, m) :: rest)

/-- The point lies in the half-open interval. -/
def covers (t : α) (i : α × α) : Bool := decide (i.1 ≤ t ∧ t < i.2)

/-- The interval holds a point. -/
def nonempty (i : α × α) : Bool := decide (i.1 < i.2)

theorem covers_iff {t : α} {i : α × α} : covers t i = true ↔ i.1 ≤ t ∧ t < i.2 := by
  simp [covers]

theorem nonempty_of_covers {t : α} {i : α × α} (h : covers t i = true) : nonempty i = true := by
  obtain ⟨h1, h2⟩ := covers_iff.mp h
  simpa [nonempty] using lt_of_le_of_lt h1 h2

/-- Empty intervals do not matter to the search for a point. -/
theorem find?_covers_filter (t : α) (l : List (α × α)) :
    (l.filter nonempty).find? (covers t) = l.find? (covers t) := by
  rw [List.find?_filter]
  congr 1
  funext i
  by_cases h : covers t i = true
  · simp [h, nonempty_of_covers h]
  · simp [h]

namespace Tiles

theorem le {a b : α} {l : List (α × α)} (h : Tiles a b l) : a ≤ b := by
  induction h with
  | nil => exact le_refl _
  | cons hle _ ih => exact le_trans hle ih

theorem within {a b : α} {l : List (α × α)} (h : Tiles a b l) :
    ∀ i ∈ l, a ≤ i.1 ∧ i.1 ≤ i.2 ∧ i.2 ≤ b := by
  induction h with
  | nil => simp
  | @cons a m b rest hle tail ih =>
    intro i hi
    rcases List.mem_cons.mp hi with rfl | hi
    · exact ⟨le_refl _, hle, tail.le⟩
    · obtain ⟨h1, h2, h3⟩ := ih i hi
      exact ⟨le_trans hle h1, h2, h3⟩

theorem append {a b c : α} {xs ys : List (α × α)} (h : Tiles a b xs) (h' : Tiles b c ys) :
    Tiles a c (xs ++ ys) := by
  induction h with
  | nil => exact h'
  | cons hle _ ih => exact .cons hle (ih h')

/-- A point is covered once inside the tiled interval and never outside. -/
theorem countP_covers {a b : α} {l : List (α × α)} (h : Tiles a b l) (t : α) :
    l.countP (covers t) = if a ≤ t ∧ t < b then 1 else 0 := by
  induction h with
  | nil a => simp
  | @cons a m b rest hle tail ih =>
    have hmb := tail.le
    rw [List.countP_cons, ih]
    by_cases h1 : a ≤ t
    · by_cases h2 : t < m
      · simp [covers, h1, h2, lt_of_lt_of_le h2 hmb, not_le_of_gt h2]
      · simp [covers, h1, h2, le_of_not_gt h2]
    · have hm : ¬ m ≤ t := fun hm => h1 (le_trans hle hm)
      simp [covers, h1, hm]

/-- Of labelled intervals that tile, one covers an instant. -/
theorem unique {β : Type} {a b : α} {l : List (β × α × α)} (h : Tiles a b (l.map Prod.snd)) {t : α}
    {x y : β × α × α} (hx : x ∈ l) (hy : y ∈ l) (hxt : covers t x.2 = true)
    (hyt : covers t y.2 = true) : x = y := by
  have hcount := h.countP_covers t
  rw [List.countP_map, List.countP_eq_length_filter] at hcount
  have hone : (l.filter (covers t ∘ Prod.snd)).length ≤ 1 := by
    rw [hcount]
    split <;> simp
  have hxf : x ∈ l.filter (covers t ∘ Prod.snd) := List.mem_filter.mpr ⟨hx, hxt⟩
  have hyf : y ∈ l.filter (covers t ∘ Prod.snd) := List.mem_filter.mpr ⟨hy, hyt⟩
  obtain ⟨i, hi, rfl⟩ := List.getElem_of_mem hxf
  obtain ⟨j, hj, rfl⟩ := List.getElem_of_mem hyf
  obtain rfl : i = j := by omega
  rfl

/-- Dropping the empty intervals leaves a tiling. -/
theorem filter_nonempty {a b : α} {l : List (α × α)} (h : Tiles a b l) :
    Tiles a b (l.filter nonempty) := by
  induction h with
  | nil => exact .nil _
  | @cons a m b rest hle tail ih =>
    by_cases hlt : a < m
    · rw [List.filter_cons_of_pos (by simpa [nonempty] using hlt)]
      exact .cons hle ih
    · rw [List.filter_cons_of_neg (by simpa [nonempty] using hlt)]
      have he : a = m := le_antisymm hle (not_lt.mp hlt)
      rwa [he]

/-- The interval that covers a point of the tiled range. -/
theorem exists_covers {a b : α} {l : List (α × α)} (h : Tiles a b l) {t : α}
    (ha : a ≤ t) (hb : t < b) : ∃ i ∈ l, i.1 ≤ t ∧ t < i.2 := by
  have hc := h.countP_covers t
  rw [if_pos ⟨ha, hb⟩] at hc
  obtain ⟨i, hi, hcov⟩ := List.countP_pos_iff.mp (by omega : 0 < l.countP (covers t))
  exact ⟨i, hi, covers_iff.mp hcov⟩

end Tiles

end Order

/-- The lengths of a tiling's intervals telescope. -/
theorem Tiles.sum_lengths {α : Type} [LinearOrder α] [AddCommGroup α] {a b : α}
    {l : List (α × α)} (h : Tiles a b l) : (l.map (fun i => i.2 - i.1)).sum = b - a := by
  induction h with
  | nil => simp
  | @cons a m b rest _ _ ih =>
    rw [List.map_cons, List.sum_cons, ih]
    abel

/-- So do the lengths of their images, whatever the map. -/
theorem Tiles.sum_images {α β : Type} [LinearOrder α] [AddCommGroup β] (f : α → β) {a b : α}
    {l : List (α × α)} (h : Tiles a b l) : (l.map (fun i => f i.2 - f i.1)).sum = f b - f a := by
  induction h with
  | nil => simp
  | @cons a m b rest _ _ ih =>
    rw [List.map_cons, List.sum_cons, ih]
    abel

end VllmObserver.Lib
