import Mathlib.Data.List.Nodup
import Mathlib.Logic.Function.Basic

/-! # Layers around a function

A decorator wraps a function in a layer and copies the attributes of what it
wraps onto the wrapper. Where every layer leaves a mark of its own, the marks on
the outermost wrapper tell exactly which layers lie below, so that looking for
the mark before wrapping puts each layer on at most once, whatever other layers
come between. -/
namespace VllmObserver.Lib

/-- A function as it was written, or a wrapper around another: the layer that
made it, what else the wrapper says of itself, and the attributes on it. -/
inductive Layered (β κ ℓ α : Type)
  | base (written : β)
  | wrapper (layer : ℓ) (info : κ) (attributes : List α) (wrapped : Layered β κ ℓ α)
  deriving DecidableEq

namespace Layered

variable {β κ ℓ α : Type}

/-- The layers from the outermost inwards. -/
def layers : Layered β κ ℓ α → List ℓ
  | base _ => []
  | wrapper l _ _ f => l :: f.layers

/-- The attributes found on the outermost function. -/
def attributes : Layered β κ ℓ α → List α
  | base _ => []
  | wrapper _ _ as _ => as

def origin : Layered β κ ℓ α → β
  | base b => b
  | wrapper _ _ _ f => f.origin

/-- A wrapper with the wrapped function's attributes and the marks set on it. -/
def wraps (f : Layered β κ ℓ α) (l : ℓ) (info : κ) (marks : List α) : Layered β κ ℓ α :=
  wrapper l info (marks ++ f.attributes) f

variable (f : Layered β κ ℓ α) (l : ℓ) (info : κ) (marks : List α)

@[simp] theorem layers_base (b : β) : (base b : Layered β κ ℓ α).layers = [] := rfl

@[simp] theorem attributes_base (b : β) : (base b : Layered β κ ℓ α).attributes = [] := rfl

@[simp] theorem origin_base (b : β) : (base b : Layered β κ ℓ α).origin = b := rfl

@[simp] theorem layers_wraps : (f.wraps l info marks).layers = l :: f.layers := rfl

@[simp] theorem attributes_wraps :
    (f.wraps l info marks).attributes = marks ++ f.attributes := rfl

@[simp] theorem origin_wraps : (f.wraps l info marks).origin = f.origin := rfl

theorem eq_base {f : Layered β κ ℓ α} (h : f.layers = []) : f = base f.origin := by
  cases f with
  | base b => rfl
  | wrapper l i as g => cases h

/-- No layer lies twice, and the marks on the outside are those of the layers below. -/
structure Marked (mark : ℓ → α) (f : Layered β κ ℓ α) : Prop where
  nodup : f.layers.Nodup
  mark_iff : ∀ l, mark l ∈ f.attributes ↔ l ∈ f.layers

variable {mark : ℓ → α}

theorem Marked.base (b : β) : Marked mark (base b : Layered β κ ℓ α) :=
  ⟨List.nodup_nil, fun _ => by simp⟩

/-- Wrapping where the layer's mark is missing keeps the marks exact. -/
theorem Marked.wraps (hinj : Function.Injective mark) {f : Layered β κ ℓ α}
    (h : Marked mark f) {l : ℓ} (hl : mark l ∉ f.attributes) (info : κ) :
    Marked mark (f.wraps l info [mark l]) := by
  refine ⟨?_, fun l' => ?_⟩
  · rw [layers_wraps, List.nodup_cons]
    exact ⟨fun hmem => hl ((h.mark_iff l).mpr hmem), h.nodup⟩
  · rw [attributes_wraps, layers_wraps, List.mem_append, List.mem_singleton, List.mem_cons,
      h.mark_iff l']
    exact or_congr hinj.eq_iff Iff.rfl

/-- Where no layer lies twice, knowing which layers lie there is knowing how often. -/
theorem count_layers [DecidableEq ℓ] {f : Layered β κ ℓ α} (hnodup : f.layers.Nodup)
    {expected : List ℓ} (hmem : ∀ l, l ∈ f.layers ↔ l ∈ expected) (l : ℓ) :
    f.layers.count l = if l ∈ expected then 1 else 0 := by
  rw [List.Nodup.count hnodup]
  exact if_congr (hmem l) rfl rfl

end Layered

end VllmObserver.Lib
