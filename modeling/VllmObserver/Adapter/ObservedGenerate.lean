import VllmObserver.Adapter.Correlation
import VllmObserver.Lib.AsyncGen
import VllmObserver.Lib.Interleave

/-! # The generator around `generate`

`observed_generate` iterates over the engine's generator and hands each output on.
It notes how the iteration ends, closes the engine's generator and takes its entry
out of `active`. Its consumer sees what it would see of the engine itself. -/
namespace VllmObserver.Adapter
open VllmObserver.Lib VllmObserver.Core VllmObserver.Stages

/-- What `observed_generate` does of its own: it begins a generation, notes how the
iteration ended, and ends the generation as it leaves. -/
inductive Note where
  | begun
  | ended (ending : Ending)
  | left
deriving DecidableEq

/-- What happens in a call: an effect of the engine, or a note of the observer. -/
inductive Act (μ : Type) where
  | engine (effect : μ)
  | note (note : Note)
deriving DecidableEq

/-- Where `observed_generate` awaits: on the engine's next output, or on the end
of the engine's generator with an exception that is still to be raised. -/
inductive Awaiting (ι κ ε : Type) where
  | output (iterator : Phase ι κ)
  | aclose (pending : Option (Thrown ε)) (iterator : Phase ι κ)

/-- The `except` branches. -/
def endingOf {ε : Type} : Option (Thrown ε) → Ending
  | none => .completed
  | some .cancelled => .cancelled
  | some .generatorExit => .closed
  | some .ignoredExit | some .alreadyRunning | some (.exception _) => .error
  | some (.baseException _) => .completed -- not caught, so nothing is noted

section Generator
variable {ι κ μ ω ε : Type}

/-- `await iterator.aclose()` has answered: the rest of the `finally`. -/
def closeIterator (pending : Option (Thrown ε)) : List μ × Reply ω ε × Phase ι κ →
    List (Act μ) × Pause (Phase ι κ) (Awaiting ι κ ε) ω ε
  | (effects, .pending, iterator) => (effects.map .engine, .awaits (.aclose pending iterator))
  | (effects, .raised thrown, _) => (effects.map .engine ++ [.note .left], .raises thrown)
  | (effects, _, _) => (effects.map .engine ++ [.note .left],
      match pending with
      | none => .returns
      | some thrown => .raises thrown)

/-- The iteration is over. -/
def unwind (generate : AsyncGen ι κ μ ω ε) (pending : Option (Thrown ε)) (iterator : Phase ι κ) :
    List (Act μ) × Pause (Phase ι κ) (Awaiting ι κ ε) ω ε :=
  (closeIterator pending (generate.step iterator .aclose)).map
    (fun acts => .note (.ended (endingOf pending)) :: acts) id

/-- `async for output in iterator`, where the iterator has answered. -/
def iterate (generate : AsyncGen ι κ μ ω ε) : List μ × Reply ω ε × Phase ι κ →
    List (Act μ) × Pause (Phase ι κ) (Awaiting ι κ ε) ω ε
  | (effects, .pending, iterator) => (effects.map .engine, .awaits (.output iterator))
  | (effects, .item output, iterator) => (effects.map .engine, .yields output iterator)
  | (effects, .raised thrown, iterator) =>
    (unwind generate (some thrown) iterator).map (fun acts => effects.map .engine ++ acts) id
  | (effects, _, iterator) => -- StopAsyncIteration
    (unwind generate none iterator).map (fun acts => effects.map .engine ++ acts) id

def observedGenerate (generate : AsyncGen ι κ μ ω ε) :
    AsyncGen (Phase ι κ) (Awaiting ι κ ε) (Act μ) ω ε where
  start :=
    (iterate generate (generate.step .created .anext)).map (fun acts => .note .begun :: acts) id
  afterYield iterator closing :=
    if closing then unwind generate (some .generatorExit) iterator
    else iterate generate (generate.step iterator .anext)
  afterAwait
    | .output iterator, cancelled =>
      iterate generate (generate.step iterator (if cancelled then .cancel else .wake))
    | .aclose pending iterator, cancelled =>
      closeIterator pending (generate.step iterator (if cancelled then .cancel else .wake))

/-! ## Transparency -/

/-- The effects of the engine alone. -/
def Act.effect? : Act μ → Option μ
  | .engine effect => some effect
  | .note _ => none

/-- The notes alone. -/
def Act.note? : Act μ → Option Note
  | .engine _ => none
  | .note n => some n

/-- The states of the wrapper and of the engine's generator, up to a close. -/
inductive Mirrors : Phase (Phase ι κ) (Awaiting ι κ ε) → Phase ι κ → Prop where
  | created : Mirrors .created .created
  | atYield (point : ι) : Mirrors (.atYield (.atYield point)) (.atYield point)
  | atAwait (point : κ) :
      Mirrors (.atAwait false (.output (.atAwait false point))) (.atAwait false point)
  | finished : Mirrors .finished .finished

/-- From a close on the engine may also be closing, or it has gone on regardless. -/
inductive Closing : Phase (Phase ι κ) (Awaiting ι κ ε) → Phase ι κ → Prop where
  | mirrors {p : Phase (Phase ι κ) (Awaiting ι κ ε)} {q : Phase ι κ} : Mirrors p q → Closing p q
  | closing (point : κ) : Closing
      (.atAwait true (.aclose (some .generatorExit) (.atAwait true point))) (.atAwait true point)
  | ignored (point : ι) : Closing .finished (.atYield point)

/-- A resumed body of the wrapper does what that of the engine does. -/
def Alike (R : Phase (Phase ι κ) (Awaiting ι κ ε) → Phase ι κ → Prop) (closing : Bool)
    (outer : List (Act μ) × Pause (Phase ι κ) (Awaiting ι κ ε) ω ε)
    (inner : List μ × Pause ι κ ω ε) : Prop :=
  outer.1.filterMap Act.effect? = inner.1 ∧
    (settle closing outer.2).1 = (settle closing inner.2).1 ∧
    R (settle closing outer.2).2 (settle closing inner.2).2

theorem effects_engine (effects : List μ) :
    (effects.map Act.engine).filterMap Act.effect? = effects := by
  rw [List.filterMap_map]
  exact List.filterMap_some

/-- Notes behind the effects. -/
theorem effects_notes (effects : List μ) {notes : List (Act μ)}
    (h : notes.filterMap Act.effect? = []) :
    (effects.map Act.engine ++ notes).filterMap Act.effect? = effects := by
  rw [List.filterMap_append, effects_engine, h, List.append_nil]

variable (generate : AsyncGen ι κ μ ω ε)

theorem iterate_alike (body : List μ × Pause ι κ ω ε) :
    Alike Mirrors false (iterate generate (body.map id (settle false))) body := by
  obtain ⟨effects, pause⟩ := body
  cases pause with
  | awaits point => exact ⟨effects_engine effects, rfl, .atAwait point⟩
  | yields item point => exact ⟨effects_engine effects, rfl, .atYield point⟩
  | returns => exact ⟨effects_notes effects rfl, rfl, .finished⟩
  | raises thrown =>
    -- the engine's generator has finished, so closing it does nothing
    exact ⟨effects_notes effects rfl, rfl, .finished⟩

theorem close_alike (body : List μ × Pause ι κ ω ε) :
    Alike Closing true (closeIterator (some .generatorExit) (body.map id (settle true))) body := by
  obtain ⟨effects, pause⟩ := body
  have hleft := effects_notes effects (rfl : [Act.note .left].filterMap Act.effect? = [])
  cases pause with
  | awaits point => exact ⟨effects_engine effects, rfl, .closing point⟩
  | yields item point => exact ⟨hleft, rfl, .ignored point⟩
  | returns => exact ⟨hleft, rfl, .mirrors .finished⟩
  | raises thrown => cases thrown <;> exact ⟨hleft, rfl, .mirrors .finished⟩

theorem mimics_step {p : Phase (Phase ι κ) (Awaiting ι κ ε)} {q : Phase ι κ} (h : Mirrors p q)
    {request : Request} (hr : request ≠ .aclose) :
    Agree (observedGenerate generate) generate Act.effect? p q request ∧
      Mirrors ((observedGenerate generate).step p request).2.2 (generate.step q request).2.2 := by
  cases h with
  | created =>
    cases request with
    | anext =>
      have h := iterate_alike generate generate.start
      exact ⟨⟨h.1, h.2.1⟩, h.2.2⟩
    | aclose => exact absurd rfl hr
    | wake => exact ⟨⟨rfl, rfl⟩, .created⟩
    | cancel => exact ⟨⟨rfl, rfl⟩, .created⟩
  | atYield point =>
    cases request with
    | anext =>
      have h := iterate_alike generate (generate.afterYield point false)
      exact ⟨⟨h.1, h.2.1⟩, h.2.2⟩
    | aclose => exact absurd rfl hr
    | wake => exact ⟨⟨rfl, rfl⟩, .atYield point⟩
    | cancel => exact ⟨⟨rfl, rfl⟩, .atYield point⟩
  | atAwait point =>
    cases request with
    | anext => exact ⟨⟨rfl, rfl⟩, .atAwait point⟩
    | aclose => exact absurd rfl hr
    | wake =>
      have h := iterate_alike generate (generate.afterAwait point false)
      exact ⟨⟨h.1, h.2.1⟩, h.2.2⟩
    | cancel =>
      have h := iterate_alike generate (generate.afterAwait point true)
      exact ⟨⟨h.1, h.2.1⟩, h.2.2⟩
  | finished => cases request <;> exact ⟨⟨rfl, rfl⟩, .finished⟩

theorem mimics_close {p : Phase (Phase ι κ) (Awaiting ι κ ε)} {q : Phase ι κ} (h : Mirrors p q) :
    Agree (observedGenerate generate) generate Act.effect? p q .aclose ∧
      Closing ((observedGenerate generate).step p .aclose).2.2 (generate.step q .aclose).2.2 := by
  cases h with
  | created => exact ⟨⟨rfl, rfl⟩, .mirrors .finished⟩
  | atYield point =>
    have h := close_alike (generate.afterYield point true)
    exact ⟨⟨h.1, h.2.1⟩, h.2.2⟩
  | atAwait point => exact ⟨⟨rfl, rfl⟩, .mirrors (.atAwait point)⟩
  | finished => exact ⟨⟨rfl, rfl⟩, .mirrors .finished⟩

theorem mimics_closed {p : Phase (Phase ι κ) (Awaiting ι κ ε)} {q : Phase ι κ} (h : Closing p q)
    {request : Request} (hr : request.resumes = true) :
    Agree (observedGenerate generate) generate Act.effect? p q request ∧
      Closing ((observedGenerate generate).step p request).2.2 (generate.step q request).2.2 := by
  cases h with
  | mirrors h =>
    have hne : request ≠ .aclose := by
      rintro rfl
      cases hr
    obtain ⟨hagree, hnext⟩ := mimics_step generate h hne
    exact ⟨hagree, .mirrors hnext⟩
  | closing point =>
    cases request with
    | anext => cases hr
    | aclose => cases hr
    | wake =>
      have h := close_alike (generate.afterAwait point false)
      exact ⟨⟨h.1, h.2.1⟩, h.2.2⟩
    | cancel =>
      have h := close_alike (generate.afterAwait point true)
      exact ⟨⟨h.1, h.2.1⟩, h.2.2⟩
  | ignored point =>
    cases request with
    | anext => cases hr
    | aclose => cases hr
    | wake => exact ⟨⟨rfl, rfl⟩, .ignored point⟩
    | cancel => exact ⟨⟨rfl, rfl⟩, .ignored point⟩

theorem observedGenerate_mimics :
    Mimics (observedGenerate generate) generate Act.effect? Mirrors Closing where
  created := .created
  step _ _ _ h hr := mimics_step generate h hr
  close _ _ h := mimics_close generate h
  closed _ _ _ h hr := mimics_closed generate h hr

end Generator

end VllmObserver.Adapter
