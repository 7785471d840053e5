import Mathlib.Algebra.Order.Ring.Rat

/-! # The timed executor

`_wrap_executor` replaces `execute_model` by `timed_execute`. The original call
and the observer's steps before and after it stand in one `try`, whose handler
calls the original. -/
namespace VllmObserver.Stages

/-- How a call ended: with the original's result or exception, or with an
exception of the observer. -/
inductive Outcome (ν ε φ : Type) where
  | returned (value : ν)
  | raised (e : ε)
  | failed (f : φ)
deriving DecidableEq

/-- The executor and the calls its original `execute_model` has served. -/
structure Served (σ α : Type) where
  state : σ
  calls : List α
deriving DecidableEq

/-- The observer's own steps around one call. Each of them may raise. -/
structure Bookkeeping (ν φ : Type) where
  debug : Bool
  requestIds : Except φ (List String)
  debugLog : Except φ Unit
  startClock : Except φ ℚ
  isFuture : ν → Except φ Bool
  addDoneCallback : ν → Except φ Unit
  callbackLog : Except φ Unit
  endClock : Except φ ℚ
  recordExecute : List String → ℚ → ℚ → Except φ Unit
  recoveryLog : Except φ Unit

namespace Bookkeeping
variable {ν φ : Type} (b : Bookkeeping ν φ)

/-- Up to the original call: the scheduled requests and the start. -/
def before : Except φ (List String × ℚ) :=
  b.requestIds >>= fun ids =>
  (if b.debug then b.debugLog else .ok ()) >>= fun _ =>
  b.startClock >>= fun started => .ok (ids, started)

/-- A future is recorded when it is done; attaching is guarded on its own. -/
def attach (value : ν) : Except φ Unit :=
  match b.addDoneCallback value with
  | .ok () => .ok ()
  | .error _ => b.callbackLog

/-- After the original call returned. -/
def after (ids : List String) (started : ℚ) (value : ν) : Except φ Unit :=
  (if ids.isEmpty then .ok false else b.isFuture value) >>= fun future =>
  if future then b.attach value
  else b.endClock >>= fun ended => b.recordExecute ids started ended

end Bookkeeping

section Execute
variable {σ α ν ε φ : Type} (execute : α → σ → σ × Except ε ν)

/-- One call of the original. -/
def invoke (args : α) (s : Served σ α) : Served σ α × Outcome ν ε φ :=
  match execute args s.state with
  | (state, .ok value) => ({ state := state, calls := s.calls ++ [args] }, .returned value)
  | (state, .error e) => ({ state := state, calls := s.calls ++ [args] }, .raised e)

/-- The handler: log, and call the original. -/
def recover (b : Bookkeeping ν φ) (args : α) (s : Served σ α) : Served σ α × Outcome ν ε φ :=
  match b.recoveryLog with
  | .ok () => invoke execute args s
  | .error f => (s, .failed f)

def timedExecute (b : Bookkeeping ν φ) (args : α) (s : Served σ α) : Served σ α × Outcome ν ε φ :=
  match b.before with
  | .error _ => recover execute b args s
  | .ok (ids, started) => match (invoke execute args s : Served σ α × Outcome ν ε φ) with
    | (s, .returned value) => match b.after ids started value with
      | .ok () => (s, .returned value)
      | .error _ => recover execute b args s
    | (s, _) => recover execute b args s

/-- The call ran the original once, with its arguments, and ended as it did. -/
def RanOnce (b : Bookkeeping ν φ) (args : α) (s : Served σ α) : Prop :=
  (timedExecute execute b args s).1.calls = s.calls ++ [args] ∧
    (timedExecute execute b args s).2 = (invoke execute args s).2

theorem invoke_calls (args : α) (s : Served σ α) :
    (invoke execute args s : Served σ α × Outcome ν ε φ).1.calls = s.calls ++ [args] := by
  unfold invoke
  split <;> rfl

/-- The handler adds a call, or ends with the observer's own exception. -/
theorem recover_cases (b : Bookkeeping ν φ) (args : α) (s : Served σ α) :
    b.recoveryLog = .ok () ∧ recover execute b args s = invoke execute args s ∨
      ∃ f, recover execute b args s = (s, .failed f) := by
  unfold recover
  split
  · exact Or.inl ⟨‹_›, rfl⟩
  · exact Or.inr ⟨_, rfl⟩

theorem invoke_outcome_ne (args : α) (s : Served σ α) (f : φ) :
    (invoke execute args s : Served σ α × Outcome ν ε φ).2 ≠ .failed f := by
  unfold invoke
  split <;> simp

/-- Once the original was called, the handler cannot end the call as it should. -/
theorem recover_ne (b : Bookkeeping ν φ) (args : α) (s : Served σ α) {s' : Served σ α}
    (hs : s'.calls = s.calls ++ [args]) :
    ¬ ((recover execute b args s').1.calls = s.calls ++ [args] ∧
      (recover execute b args s').2 = (invoke execute args s).2) := by
  rintro ⟨hcalls, hout⟩
  rcases recover_cases execute b args s' with ⟨_, hr⟩ | ⟨f, hr⟩
  · -- a second call
    rw [hr, invoke_calls, hs] at hcalls
    have hlen := congrArg List.length hcalls
    simp only [List.length_append, List.length_singleton] at hlen
    omega
  · rw [hr] at hout
    exact invoke_outcome_ne execute args s f hout.symm

/-! ## The four ways through a call -/

section Runs
variable {execute} {b : Bookkeeping ν φ} {args : α} {s : Served σ α}

theorem timedExecute_of_before {f : φ} (hb : b.before = .error f) :
    timedExecute execute b args s = recover execute b args s := by rw [timedExecute, hb]

variable {ids : List String} {started : ℚ} (hb : b.before = .ok (ids, started))
include hb

/-- The original's exception is caught with the observer's own. -/
theorem timedExecute_of_raised {state : σ} {e : ε}
    (hx : execute args s.state = (state, .error e)) :
    timedExecute execute b args s =
      recover execute b args { state := state, calls := s.calls ++ [args] } := by
  simp only [timedExecute, hb, invoke, hx]

theorem timedExecute_of_after {state : σ} {value : ν} {f : φ}
    (hx : execute args s.state = (state, .ok value)) (ha : b.after ids started value = .error f) :
    timedExecute execute b args s =
      recover execute b args { state := state, calls := s.calls ++ [args] } := by
  simp only [timedExecute, hb, invoke, hx, ha]

theorem timedExecute_of_returned {state : σ} {value : ν}
    (hx : execute args s.state = (state, .ok value)) (ha : b.after ids started value = .ok ()) :
    timedExecute execute b args s =
      ({ state := state, calls := s.calls ++ [args] }, .returned value) := by
  simp only [timedExecute, hb, invoke, hx, ha]

end Runs

/-- **The original runs exactly once only when it returns, and nothing raises
after it.** The other way is a failure before the call, where the handler makes
the only call. -/
theorem timedExecute_once_iff (b : Bookkeeping ν φ) (args : α) (s : Served σ α) :
    RanOnce execute b args s ↔
      ((∃ f, b.before = .error f) ∧ b.recoveryLog = .ok ()) ∨
      ∃ ids started value, b.before = .ok (ids, started) ∧
        (execute args s.state).2 = .ok value ∧ b.after ids started value = .ok () := by
  cases hb : b.before with
  | error f =>
    rw [RanOnce, timedExecute_of_before hb]
    constructor
    · rintro ⟨hcalls, hout⟩
      rcases recover_cases execute b args s with ⟨hlog, _⟩ | ⟨g, hr⟩
      · exact Or.inl ⟨⟨f, rfl⟩, hlog⟩
      · rw [hr] at hout
        exact absurd hout.symm (invoke_outcome_ne execute args s g)
    · rintro (⟨_, hlog⟩ | ⟨_, _, _, h, _⟩)
      · have hr : recover execute b args s = invoke execute args s := by rw [recover, hlog]
        rw [hr]
        exact ⟨invoke_calls execute args s, rfl⟩
      · cases h
  | ok started =>
    obtain ⟨ids, started⟩ := started
    rw [RanOnce]
    cases hx : execute args s.state with
    | mk state result =>
      cases result with
      | error e =>
        rw [timedExecute_of_raised hb hx]
        constructor
        · intro h
          exact absurd h (recover_ne execute b args s rfl)
        · rintro (⟨⟨_, h⟩, _⟩ | ⟨_, _, _, _, h, _⟩) <;> cases h
      | ok value =>
        cases ha : b.after ids started value with
        | error f =>
          rw [timedExecute_of_after hb hx ha]
          constructor
          · intro h
            exact absurd h (recover_ne execute b args s rfl)
          · rintro (⟨⟨_, h⟩, _⟩ | ⟨_, _, _, h1, h2, h3⟩)
            · cases h
            · cases h1
              cases h2
              rw [ha] at h3
              cases h3
        | ok _ =>
          rw [timedExecute_of_returned hb hx ha]
          refine ⟨fun _ => Or.inr ⟨ids, started, value, rfl, rfl, ha⟩, fun _ => ⟨rfl, ?_⟩⟩
          simp only [invoke, hx]

end Execute

/-- Nothing of the observer raises. -/
def quiet {ν : Type} (ids : List String) : Bookkeeping ν String where
  debug := false
  requestIds := .ok ids
  debugLog := .ok ()
  startClock := .ok 1
  isFuture := fun _ => .ok false
  addDoneCallback := fun _ => .ok ()
  callbackLog := .ok ()
  endClock := .ok 2
  recordExecute := fun _ _ _ => .ok ()
  recoveryLog := .ok ()

/-- An executor that counts its model steps and fails in each. -/
def failingExecute (_ : String) (steps : ℕ) : ℕ × Except String Unit :=
  (steps + 1, .error "CUDA error")

/-- A failing model step is executed a second time. -/
theorem timedExecute_failing :
    timedExecute failingExecute (quiet ["a"]) "batch" { state := 0, calls := [] } =
      ({ state := 2, calls := ["batch", "batch"] }, .raised "CUDA error") ∧
    ¬ RanOnce failingExecute (quiet ["a"]) "batch" { state := 0, calls := [] } := by
  refine ⟨rfl, fun h => ?_⟩
  cases h.1

end VllmObserver.Stages
