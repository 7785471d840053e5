import Mathlib.Data.List.Nodup

/-! # Climbing to a root

A climb follows a parent relation up to the root. Where each element has at most
one parent and the root has none, there is one climb from an element, and it
passes nothing twice: the relation has no cycle below the root. -/
namespace VllmObserver.Lib

variable {α : Type} {parent : α → α → Prop} {root : α}

/-- The climb from an element: itself, its parent, and so on up to the root. -/
inductive Climb (parent : α → α → Prop) (root : α) : α → List α → Prop
  | root : Climb parent root root [root]
  | up {n p : α} {path : List α} (link : parent n p) (rest : Climb parent root p path) :
      Climb parent root n (n :: path)

namespace Climb

theorem unique (hone : ∀ n p q, parent n p → parent n q → p = q) (hroot : ∀ p, ¬ parent root p)
    {n : α} {xs ys : List α} (hx : Climb parent root n xs) (hy : Climb parent root n ys) :
    xs = ys := by
  induction hx generalizing ys with
  | root => cases hy with
    | root => rfl
    | up link _ => exact absurd link (hroot _)
  | up link _ ih => cases hy with
    | root => exact absurd link (hroot _)
    | up link' rest' =>
      obtain rfl := hone _ _ _ link link'
      rw [ih rest']

/-- What a climb passes is climbed from by the rest of it. -/
theorem of_mem {n m : α} {xs : List α} (h : Climb parent root n xs) (hm : m ∈ xs) :
    ∃ pre ys, xs = pre ++ ys ∧ Climb parent root m ys := by
  induction h with
  | root =>
    rw [List.mem_singleton.mp hm]
    exact ⟨[], _, rfl, .root⟩
  | @up n p path link rest ih =>
    rcases List.mem_cons.mp hm with rfl | hm
    · exact ⟨[], _, rfl, .up link rest⟩
    · obtain ⟨pre, ys, rfl, hy⟩ := ih hm
      exact ⟨n :: pre, ys, rfl, hy⟩

/-- **No cycle.** -/
theorem nodup (hone : ∀ n p q, parent n p → parent n q → p = q) (hroot : ∀ p, ¬ parent root p)
    {n : α} {xs : List α} (h : Climb parent root n xs) : xs.Nodup := by
  induction h with
  | root => exact List.nodup_singleton _
  | @up n p path link rest ih =>
    refine List.nodup_cons.mpr ⟨fun hn => ?_, ih⟩
    -- a second visit would be a shorter climb from the same element
    obtain ⟨pre, ys, hsplit, hy⟩ := rest.of_mem hn
    have hlen := congrArg List.length (unique hone hroot (Climb.up link rest) hy)
    have hpath := congrArg List.length hsplit
    rw [List.length_cons] at hlen
    rw [List.length_append] at hpath
    omega

end Climb

end VllmObserver.Lib
