import VllmObserver.Lib.Runs

/-! # Asynchronous generators

The object that an asynchronous generator function returns, as its consumer and
the event loop drive it. The consumer asks for the next item or closes the
generator; while the body awaits, the loop wakes it or cancels its task. -/
namespace VllmObserver.Lib

/-- What is raised, as far as an `except` clause tells it apart. -/
inductive Thrown (ε : Type) where
  | cancelled
  | generatorExit
  | ignoredExit -- the RuntimeError of a generator that goes on after GeneratorExit
  | alreadyRunning -- the RuntimeError of a generator that is asked while it awaits
  | exception (error : ε)
  | baseException (error : ε)
deriving DecidableEq, Repr

/-- How the body of a generator leaves off. -/
inductive Pause (ι κ ω ε : Type) where
  | awaits (point : κ)
  | yields (item : ω) (point : ι)
  | returns
  | raises (thrown : Thrown ε)

/-- The body of a generator with effects in `μ`: it yields items in `ω` at points
in `ι` and awaits at points in `κ`. -/
structure AsyncGen (ι κ μ ω ε : Type) where
  start : List μ × Pause ι κ ω ε
  /-- Behind a `yield`, which raises GeneratorExit if the generator is closed. -/
  afterYield : ι → Bool → List μ × Pause ι κ ω ε
  /-- Behind an `await`, which raises CancelledError if the task is cancelled. -/
  afterAwait : κ → Bool → List μ × Pause ι κ ω ε

/-- The state of a generator object. -/
inductive Phase (ι κ : Type) where
  | created
  | atYield (point : ι)
  | atAwait (closing : Bool) (point : κ)
  | finished
deriving DecidableEq, Repr

inductive Request where
  | anext
  | aclose
  | wake
  | cancel
deriving DecidableEq, Repr

inductive Reply (ω ε : Type) where
  | pending
  | item (value : ω)
  | stop -- StopAsyncIteration
  | closed
  | raised (thrown : Thrown ε)
  | idle -- there was nothing to wake
deriving DecidableEq, Repr

section AsyncGen
variable {ι κ μ ω ε : Type}

/-- The reply to the request that the body was resumed for. -/
def settle (closing : Bool) : Pause ι κ ω ε → Reply ω ε × Phase ι κ
  | .awaits point => (.pending, .atAwait closing point)
  | .yields item point => (if closing then .raised .ignoredExit else .item item, .atYield point)
  | .returns => (if closing then .closed else .stop, .finished)
  | .raises thrown =>
    -- closing ends quietly with the exception it has raised in the body
    (if closing ∧ thrown matches .generatorExit then .closed else .raised thrown, .finished)

/-- A request: the effects of the body, the reply and the object's next state. -/
def AsyncGen.step (gen : AsyncGen ι κ μ ω ε) :
    Phase ι κ → Request → List μ × Reply ω ε × Phase ι κ
  | .created, .anext => gen.start.map id (settle false)
  | .created, .aclose => ([], .closed, .finished)
  | .atYield point, .anext => (gen.afterYield point false).map id (settle false)
  | .atYield point, .aclose => (gen.afterYield point true).map id (settle true)
  | .atAwait closing point, .wake => (gen.afterAwait point false).map id (settle closing)
  | .atAwait closing point, .cancel => (gen.afterAwait point true).map id (settle closing)
  | .atAwait closing point, _ => ([], .raised .alreadyRunning, .atAwait closing point)
  | .finished, .anext => ([], .stop, .finished)
  | .finished, .aclose => ([], .closed, .finished)
  | phase, _ => ([], .idle, phase)

/-- A generator object with the replies and the effects so far. -/
structure Session (ι κ μ ω ε : Type) where
  phase : Phase ι κ := .created
  replies : List (Reply ω ε) := []
  effects : List μ := []

def Session.ask (gen : AsyncGen ι κ μ ω ε) (s : Session ι κ μ ω ε) (request : Request) :
    Session ι κ μ ω ε where
  phase := (gen.step s.phase request).2.2
  replies := s.replies ++ [(gen.step s.phase request).2.1]
  effects := s.effects ++ (gen.step s.phase request).1

end AsyncGen

/-! ## Wrappers -/

/-- Only what is pending goes on. -/
def Request.resumes : Request → Bool
  | .wake | .cancel => true
  | .anext | .aclose => false

/-- A consumer that asks for nothing once it has closed the generator. -/
def ClosesLast : List Request → Prop
  | [] => True
  | request :: rest =>
    (request = .aclose → ∀ later ∈ rest, later.resumes = true) ∧ ClosesLast rest

section Wrapper
variable {ι κ ι' κ' μ μ' ω ε : Type}

/-- Two generators answer a request alike, up to what one of them does on its own. -/
def Agree (outer : AsyncGen ι' κ' μ' ω ε) (inner : AsyncGen ι κ μ ω ε) (shown : μ' → Option μ)
    (p : Phase ι' κ') (q : Phase ι κ) (request : Request) : Prop :=
  (outer.step p request).1.filterMap shown = (inner.step q request).1 ∧
    (outer.step p request).2.1 = (inner.step q request).2.1

/-- A wrapper answers as the generator inside it does: their states are related
by `R` until the wrapper is closed, and by `C` from then on. -/
structure Mimics (outer : AsyncGen ι' κ' μ' ω ε) (inner : AsyncGen ι κ μ ω ε)
    (shown : μ' → Option μ) (R C : Phase ι' κ' → Phase ι κ → Prop) : Prop where
  created : R .created .created
  step : ∀ p q request, R p q → request ≠ .aclose → Agree outer inner shown p q request ∧
    R (outer.step p request).2.2 (inner.step q request).2.2
  close : ∀ p q, R p q → Agree outer inner shown p q .aclose ∧
    C (outer.step p .aclose).2.2 (inner.step q .aclose).2.2
  closed : ∀ p q request, C p q → request.resumes = true → Agree outer inner shown p q request ∧
    C (outer.step p request).2.2 (inner.step q request).2.2

/-- The consumers have seen the same. -/
structure SeenAlike (shown : μ' → Option μ) (s' : Session ι' κ' μ' ω ε) (s : Session ι κ μ ω ε) :
    Prop where
  replies : s'.replies = s.replies
  effects : s'.effects.filterMap shown = s.effects

variable {outer : AsyncGen ι' κ' μ' ω ε} {inner : AsyncGen ι κ μ ω ε} {shown : μ' → Option μ}
  {R C : Phase ι' κ' → Phase ι κ → Prop} {s' : Session ι' κ' μ' ω ε} {s : Session ι κ μ ω ε}
  {requests : List Request}

theorem SeenAlike.ask (h : SeenAlike shown s' s) {request : Request}
    (ha : Agree outer inner shown s'.phase s.phase request) :
    SeenAlike shown (s'.ask outer request) (s.ask inner request) where
  replies := by
    show s'.replies ++ [(outer.step s'.phase request).2.1] = _
    rw [h.replies, ha.2]
    rfl
  effects := by
    show (s'.effects ++ (outer.step s'.phase request).1).filterMap shown = _
    rw [List.filterMap_append, h.effects, ha.1]
    rfl

theorem Mimics.seen_closed (h : Mimics outer inner shown R C)
    (hall : ∀ request ∈ requests, request.resumes = true) (hc : C s'.phase s.phase)
    (hs : SeenAlike shown s' s) :
    SeenAlike shown (run (Session.ask outer) s' requests) (run (Session.ask inner) s requests) := by
  induction requests generalizing s' s with
  | nil => exact hs
  | cons request rest ih =>
    obtain ⟨ha, hnext⟩ := h.closed _ _ request hc (hall request List.mem_cons_self)
    exact ih (fun later hlater => hall later (List.mem_cons_of_mem _ hlater)) hnext (hs.ask ha)

/-- **A wrapper is transparent** to a consumer that closes last. -/
theorem Mimics.seen (h : Mimics outer inner shown R C) (hlast : ClosesLast requests)
    (hr : R s'.phase s.phase) (hs : SeenAlike shown s' s) :
    SeenAlike shown (run (Session.ask outer) s' requests) (run (Session.ask inner) s requests) := by
  induction requests generalizing s' s with
  | nil => exact hs
  | cons request rest ih =>
    by_cases hclose : request = .aclose
    · subst hclose
      obtain ⟨ha, hnext⟩ := h.close _ _ hr
      show SeenAlike shown (run _ (s'.ask outer .aclose) rest) (run _ (s.ask inner .aclose) rest)
      exact h.seen_closed (hlast.1 rfl) hnext (hs.ask ha)
    · obtain ⟨ha, hnext⟩ := h.step _ _ request hr hclose
      exact ih hlast.2 hnext (hs.ask ha)

end Wrapper

end VllmObserver.Lib
