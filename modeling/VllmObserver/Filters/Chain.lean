import VllmObserver.Core.Plain

/-! # The chain of filters

The filters of an event work one after the other on one world. A filter that
raises is passed over, and one that returns nothing ends the chain. -/
namespace VllmObserver.Filters
open VllmObserver.Lib VllmObserver.Core

/-- A filter leaves a world also where it raises. -/
structure Filter (σ ε : Type) where
  typeName : String
  process : ε → σ → σ × Except PyError (Option ε)

variable {σ ε : Type} (report : String → PyError → σ → σ)

/-- `FilterChain.process`. The exception of a filter is logged. -/
def chain : List (Filter σ ε) → ε → σ → σ
  | [], _, s => s
  | item :: rest, event, s =>
    match item.process event s with
    | (s, .ok none) => s
    | (s, .ok (some event)) => chain rest event s
    | (s, .error e) => chain rest event (report item.typeName e s)

/-- What a filter does to the world on its own. -/
def Filter.attempt (item : Filter σ ε) (event : ε) (s : σ) : σ :=
  match item.process event s with
  | (s, .ok _) => s
  | (s, .error e) => report item.typeName e s

/-- The filter hands the event on as it was, or raises. -/
def Filter.Transparent (item : Filter σ ε) : Prop :=
  ∀ event s, (item.process event s).2 = .ok (some event) ∨
    ∃ e, (item.process event s).2 = .error e

variable {report}

theorem chain_cons_transparent {item : Filter σ ε} (h : item.Transparent)
    (rest : List (Filter σ ε)) (event : ε) (s : σ) :
    chain report (item :: rest) event s =
      chain report rest event (item.attempt report event s) := by
  have hresult := h event s
  rw [chain, Filter.attempt]
  generalize item.process event s = result at hresult
  obtain ⟨s', result⟩ := result
  rcases hresult with rfl | ⟨e, rfl⟩ <;> rfl

/-- **Transparent filters are isolated from each other**: each of them gets the
event once, in their order, whatever the others raise. -/
theorem chain_transparent : ∀ {filters : List (Filter σ ε)},
    (∀ item ∈ filters, item.Transparent) → ∀ (event : ε) (s : σ),
      chain report filters event s =
        filters.foldl (fun s item => item.attempt report event s) s
  | [], _, _, _ => rfl
  | item :: rest, h, event, s => by
    rw [chain_cons_transparent (h item List.mem_cons_self),
      chain_transparent fun other ho => h other (List.mem_cons_of_mem _ ho)]
    rfl

end VllmObserver.Filters
