import VllmObserver.Core.Plain
import VllmObserver.Lib.Runs
import Mathlib.Data.List.Perm.Basic

/-! # The export queue

`AsyncExportFilter` puts copies of the events that it processes into a bounded
queue, and a worker thread hands them to the sink. Producer, worker and closer
interleave at every access to the queue and to the flag `stopping`. `process`
catches a full queue, but not what `copy.deepcopy` raises of an event that is
nested too deep. -/
namespace VllmObserver.Exporter
open VllmObserver.Lib VllmObserver.Core

variable {ε : Type}

/-- Where the worker stands in `_run`: at the test of `stopping`, between that
test and the test of the queue, before `queue.get`, in the sink, or at the end. -/
inductive Worker (ε : Type) where
  | testing
  | draining
  | getting
  | exporting (event : ε)
  | terminated
deriving DecidableEq

/-- The filter, the calls of `process` that have passed the test of `stopping`,
and what has happened so far: what the calls that are over were given and have
returned, and what those were given whose copy has raised. -/
structure ExportState (ε : Type) where
  capacity : ℤ
  queue : List ε := []
  dropped : ℕ := 0
  failed : ℕ := 0
  stopping : Bool := false
  worker : Worker ε := .testing
  pending : List ε := []
  accepted : List ε := []
  given : List ε := []
  successes : ℕ := 0
  returned : List (ε × ε) := []
  raised : List ε := []

/-- `AsyncExportFilter(sink, capacity)`. -/
def ExportState.create (capacity : ℤ) : Except PyError (ExportState ε) :=
  if capacity < 1 then .error (.valueError "Export queue capacity must be positive")
  else .ok { capacity := capacity }

inductive WorkerOp where
  | testStopping
  | testQueue
  | get
  | timeout
  | sinkReturns
  | sinkRaises

inductive ExportOp (ε : Type) where
  | process (event : ε)
  | put (call : ℕ)
  | copyRaises (call : ℕ)
  | work (op : WorkerOp)
  | close

/-- `process` begins: a filter that is stopping drops the event. -/
def ExportState.process (s : ExportState ε) (event : ε) : ExportState ε :=
  if s.stopping then
    { s with dropped := s.dropped + 1, returned := s.returned ++ [(event, event)] }
  else { s with pending := s.pending ++ [event] }

/-- `process` ends with `put_nowait` of a copy, which a full queue refuses. -/
def ExportState.put (s : ExportState ε) (call : ℕ) : ExportState ε :=
  match s.pending[call]? with
  | none => s
  | some event =>
    let s := { s with
      pending := s.pending.eraseIdx call
      returned := s.returned ++ [(event, event)] }
    if (s.queue.length : ℤ) < s.capacity then
      { s with queue := s.queue ++ [event], accepted := s.accepted ++ [event] }
    else { s with dropped := s.dropped + 1 }

/-- `process` ends with the exception of `copy.deepcopy`, which nothing counts. -/
def ExportState.copyRaises (s : ExportState ε) (call : ℕ) : ExportState ε :=
  match s.pending[call]? with
  | none => s
  | some event =>
    { s with pending := s.pending.eraseIdx call, raised := s.raised ++ [event] }

/-- A step of `_run`, where the worker stands there. -/
def ExportState.work (s : ExportState ε) : WorkerOp → ExportState ε
  | .testStopping => match s.worker with
    | .testing => { s with worker := if s.stopping then .draining else .getting }
    | _ => s
  | .testQueue => match s.worker with
    | .draining => { s with worker := if s.queue.isEmpty then .terminated else .getting }
    | _ => s
  | .get => match s.worker, s.queue with
    | .getting, event :: rest =>
      { s with queue := rest, worker := .exporting event, given := s.given ++ [event] }
    | _, _ => s
  | .timeout => match s.worker, s.queue with
    | .getting, [] => { s with worker := .testing }
    | _, _ => s
  | .sinkReturns => match s.worker with
    | .exporting _ => { s with worker := .testing, successes := s.successes + 1 }
    | _ => s
  | .sinkRaises => match s.worker with
    | .exporting _ => { s with worker := .testing, failed := s.failed + 1 }
    | _ => s

def ExportState.apply (s : ExportState ε) : ExportOp ε → ExportState ε
  | .process event => s.process event
  | .put call => s.put call
  | .copyRaises call => s.copyRaises call
  | .work op => s.work op
  | .close => { s with stopping := true }

/-- The number of events in the worker's hands. -/
def Worker.hands : Worker ε → ℕ
  | .exporting _ => 1
  | _ => 0

/-! ## Accounting -/

/-- Every event of a call that has returned is counted once, the queue keeps
within its capacity, and the sink is given the accepted events in order. -/
structure Accounted (capacity : ℤ) (s : ExportState ε) : Prop where
  fixed : s.capacity = capacity
  conserved : s.returned.length =
    s.dropped + s.queue.length + s.worker.hands + s.successes + s.failed
  bounded : (s.queue.length : ℤ) ≤ capacity
  order : s.given ++ s.queue = s.accepted
  taken : s.accepted.Sublist (s.returned.map Prod.fst)
  calls : s.given.length = s.worker.hands + s.successes + s.failed
  faithful : ∀ r ∈ s.returned, r.2 = r.1

section Accounted
variable {capacity : ℤ} {s : ExportState ε}

theorem faithful_append {returned : List (ε × ε)} (h : ∀ r ∈ returned, r.2 = r.1) (event : ε) :
    ∀ r ∈ returned ++ [(event, event)], r.2 = r.1 := by
  intro r hr
  rcases List.mem_append.mp hr with hr | hr
  · exact h r hr
  · rw [List.mem_singleton.mp hr]

theorem taken_append {accepted : List ε} {returned : List (ε × ε)}
    (h : accepted.Sublist (returned.map Prod.fst)) (event : ε) :
    accepted.Sublist ((returned ++ [(event, event)]).map Prod.fst) := by
  rw [List.map_append]
  exact h.trans (List.sublist_append_left _ _)

theorem Accounted.process (h : Accounted capacity s) (event : ε) :
    Accounted capacity (s.process event) := by
  unfold ExportState.process
  split
  · refine { h with conserved := ?_, taken := taken_append h.taken event,
                    faithful := faithful_append h.faithful event }
    have := h.conserved
    simp only [List.length_append, List.length_singleton]
    omega
  · exact { h with }

theorem Accounted.put (h : Accounted capacity s) (call : ℕ) :
    Accounted capacity (s.put call) := by
  unfold ExportState.put
  split
  · exact h
  · rename_i event _
    have hcons := h.conserved
    simp only
    split
    · rename_i hlt
      refine ⟨h.fixed, ?_, ?_, ?_, ?_, h.calls, faithful_append h.faithful event⟩
      · simp only [List.length_append, List.length_singleton]
        omega
      · rw [h.fixed] at hlt
        simp only [List.length_append, List.length_singleton]
        omega
      · rw [← List.append_assoc, h.order]
      · rw [List.map_append]
        exact h.taken.append (List.Sublist.refl [event])
    · refine { h with conserved := ?_, taken := taken_append h.taken event,
                      faithful := faithful_append h.faithful event }
      simp only [List.length_append, List.length_singleton]
      omega

theorem Accounted.copyRaises (h : Accounted capacity s) (call : ℕ) :
    Accounted capacity (s.copyRaises call) := by
  unfold ExportState.copyRaises
  split
  · exact h
  · exact { h with }

/-- The worker moves with the same event in its hands. -/
theorem Accounted.move (h : Accounted capacity s) {worker : Worker ε}
    (hw : worker.hands = s.worker.hands) : Accounted capacity { s with worker := worker } :=
  { h with conserved := by rw [hw]; exact h.conserved, calls := by rw [hw]; exact h.calls }

/-- The sink is done with the event in the worker's hands. -/
theorem Accounted.release (h : Accounted capacity s) {event : ε} (hw : s.worker = .exporting event)
    {successes failed : ℕ} (hcount : successes + failed = s.successes + s.failed + 1) :
    Accounted capacity
      { s with worker := .testing, successes := successes, failed := failed } := by
  have hcons := h.conserved
  have hcalls := h.calls
  rw [hw] at hcons hcalls
  simp only [Worker.hands] at hcons hcalls
  refine ⟨h.fixed, ?_, h.bounded, h.order, h.taken, ?_, h.faithful⟩
  · simp only [Worker.hands]
    omega
  · simp only [Worker.hands]
    omega

/-- The worker takes an event only to hand it to the sink, and lets it go only
when the sink has returned or raised. -/
theorem Accounted.work (h : Accounted capacity s) (op : WorkerOp) :
    Accounted capacity (s.work op) := by
  have hcons := h.conserved
  have hcalls := h.calls
  cases op with
  | testStopping =>
    simp only [ExportState.work]
    split
    · rename_i hw
      refine h.move ?_
      rw [hw]
      split <;> rfl
    · exact h
  | testQueue =>
    simp only [ExportState.work]
    split
    · rename_i hw
      refine h.move ?_
      rw [hw]
      split <;> rfl
    · exact h
  | get =>
    simp only [ExportState.work]
    split
    · rename_i event rest hw hq
      have hb := h.bounded
      rw [hw] at hcons hcalls
      rw [hq, List.length_cons] at hcons hb
      simp only [Worker.hands] at hcons hcalls
      refine ⟨h.fixed, ?_, ?_, ?_, h.taken, ?_, h.faithful⟩
      · simp only [Worker.hands]
        omega
      · simp only
        omega
      · rw [← h.order, hq, List.append_assoc]
        rfl
      · simp only [List.length_append, List.length_singleton, Worker.hands]
        omega
    · exact h
  | timeout =>
    simp only [ExportState.work]
    split
    · rename_i hw hq
      exact h.move (by rw [hw]; rfl)
    · exact h
  | sinkReturns =>
    simp only [ExportState.work]
    split
    · rename_i hw
      exact h.release hw (by omega)
    · exact h
  | sinkRaises =>
    simp only [ExportState.work]
    split
    · rename_i hw
      exact h.release hw (by omega)
    · exact h

theorem Accounted.step (h : Accounted capacity s) (op : ExportOp ε) :
    Accounted capacity (s.apply op) := by
  cases op with
  | process event => exact h.process event
  | put call => exact h.put call
  | copyRaises call => exact h.copyRaises call
  | work op => exact h.work op
  | close => exact { h with }

theorem accounted_create (h : ExportState.create capacity = .ok s) : Accounted capacity s := by
  unfold ExportState.create at h
  split at h
  · cases h
  · rename_i hc
    cases h
    exact ⟨rfl, rfl, by simp only [List.length_nil, Nat.cast_zero]; omega, rfl,
      List.Sublist.refl _, rfl, fun _ hr => (by cases hr)⟩

theorem accounted_run (h : ExportState.create capacity = .ok s) (ops : List (ExportOp ε)) :
    Accounted capacity (run ExportState.apply s ops) :=
  run_invariant_all ExportState.apply (fun _ op hi => hi.step op) (accounted_create h)

end Accounted

/-! ## The calls of a run -/

/-- The events that `process` was called with. -/
def processed (ops : List (ExportOp ε)) : List ε :=
  ops.filterMap fun
    | .process event => some event
    | _ => none

/-- The events of all calls: of those that have returned, raised or go on. -/
def ExportState.called (s : ExportState ε) : List ε :=
  s.returned.map Prod.fst ++ s.raised ++ s.pending

/-- No copy of a processed event raises. -/
def Copies (s : ExportState ε) : ExportOp ε → Prop
  | .copyRaises call => s.pending[call]? = none
  | _ => True

section Calls
variable {s : ExportState ε}

theorem perm_eraseIdx {events : List ε} {i : ℕ} {event : ε} (h : events[i]? = some event) :
    (event :: events.eraseIdx i).Perm events := by
  obtain ⟨hi, rfl⟩ := List.getElem?_eq_some_iff.mp h
  exact List.getElem_cons_eraseIdx_perm hi

/-- Each call is among the calls until it returns or raises, and behind that too. -/
theorem called_step (s : ExportState ε) (op : ExportOp ε) :
    (s.apply op).called.Perm (s.called ++ processed [op]) := by
  cases op with
  | process event =>
    simp only [ExportState.apply, ExportState.process]
    split
    · simp only [ExportState.called, List.map_append, List.map_cons, List.map_nil,
        List.append_assoc]
      refine List.Perm.append_left _ ?_
      rw [← List.append_assoc s.raised]
      exact List.perm_append_comm
    · simp only [ExportState.called, List.append_assoc]
      exact List.Perm.refl _
  | put call =>
    rw [show processed [ExportOp.put call] = ([] : List ε) from rfl, List.append_nil]
    simp only [ExportState.apply, ExportState.put]
    split
    · exact List.Perm.refl _
    · rename_i event hcall
      have hperm : (s.returned.map Prod.fst ++ [event] ++ s.raised ++
          s.pending.eraseIdx call).Perm s.called := by
        simp only [ExportState.called, List.append_assoc]
        refine List.Perm.append_left _ ?_
        rw [← List.append_assoc]
        refine (List.perm_append_comm.append_right _).trans ?_
        rw [List.append_assoc]
        exact List.Perm.append_left _ (perm_eraseIdx hcall)
      split
      · simpa only [ExportState.called, List.map_append, List.map_cons, List.map_nil] using hperm
      · simpa only [ExportState.called, List.map_append, List.map_cons, List.map_nil] using hperm
  | copyRaises call =>
    rw [show processed [ExportOp.copyRaises call] = ([] : List ε) from rfl, List.append_nil]
    simp only [ExportState.apply, ExportState.copyRaises]
    split
    · exact List.Perm.refl _
    · rename_i event hcall
      simp only [ExportState.called, List.append_assoc]
      exact List.Perm.append_left _ (List.Perm.append_left _ (perm_eraseIdx hcall))
  | work op =>
    rw [show processed [ExportOp.work op] = ([] : List ε) from rfl, List.append_nil]
    cases op <;> simp only [ExportState.apply, ExportState.work] <;> split <;>
      exact List.Perm.refl _
  | close =>
    rw [show processed [(ExportOp.close : ExportOp ε)] = [] from rfl, List.append_nil]
    exact List.Perm.refl _

theorem create_new {capacity : ℤ} (h : ExportState.create capacity = .ok s) :
    s.called = [] ∧ s.raised = [] := by
  unfold ExportState.create at h
  split at h
  · cases h
  · cases h
    exact ⟨rfl, rfl⟩

theorem called_run : ∀ (ops : List (ExportOp ε)) (s : ExportState ε),
    (run ExportState.apply s ops).called.Perm (s.called ++ processed ops)
  | [], s => by
    rw [processed, List.filterMap_nil, List.append_nil]
    exact List.Perm.refl _
  | op :: rest, s => by
    have happend : processed (op :: rest) = processed [op] ++ processed rest := by
      rw [processed, processed, processed, ← List.filterMap_append]
      rfl
    rw [run_cons, happend, ← List.append_assoc]
    exact (called_run rest (s.apply op)).trans ((called_step s op).append_right _)

/-- Only a copy that raises ends a call so. -/
theorem raised_step (s : ExportState ε) (op : ExportOp ε) :
    s.raised <+: (s.apply op).raised ∧ (Copies s op ↔ (s.apply op).raised = s.raised) := by
  have hsame : (s.apply op).raised = s.raised → Copies s op →
      s.raised <+: (s.apply op).raised ∧ (Copies s op ↔ (s.apply op).raised = s.raised) :=
    fun heq hc => ⟨heq ▸ List.prefix_refl _, iff_of_true hc heq⟩
  cases op with
  | process event =>
    refine hsame ?_ trivial
    simp only [ExportState.apply, ExportState.process]
    split <;> rfl
  | put call =>
    refine hsame ?_ trivial
    simp only [ExportState.apply, ExportState.put]
    split
    · rfl
    · split <;> rfl
  | copyRaises call =>
    cases hcall : s.pending[call]? with
    | none => exact hsame (by simp only [ExportState.apply, ExportState.copyRaises, hcall]) hcall
    | some event =>
      have hraised : (s.apply (.copyRaises call)).raised = s.raised ++ [event] := by
        simp only [ExportState.apply, ExportState.copyRaises, hcall]
      rw [hraised]
      refine ⟨List.prefix_append _ _, iff_of_false (fun hc => ?_) (by simp)⟩
      cases hcall.symm.trans hc
  | work op =>
    refine hsame ?_ trivial
    cases op <;> simp only [ExportState.apply, ExportState.work] <;> split <;> rfl
  | close => exact hsame rfl trivial

/-- Where nothing has raised before, nothing has raised behind a run exactly if no
copy did. -/
theorem raised_run : ∀ (ops : List (ExportOp ε)) {s : ExportState ε}, s.raised = [] →
    ((run ExportState.apply s ops).raised = [] ↔ RunMeets ExportState.apply Copies s ops)
  | [], _, hs => iff_of_true hs trivial
  | op :: rest, s, hs => by
    obtain ⟨_, hiff⟩ := raised_step s op
    rw [hs] at hiff
    rw [run_cons, RunMeets]
    by_cases hop : Copies s op
    · rw [raised_run rest (hiff.mp hop), and_iff_right hop]
    · refine iff_of_false (fun hend => ?_) fun h => hop h.1
      have hgrows : (s.apply op).raised <+: (run ExportState.apply (s.apply op) rest).raised :=
        run_invariant_all ExportState.apply
          (I := fun s' => (s.apply op).raised <+: s'.raised)
          (fun s' op' h => h.trans (raised_step s' op').1) (List.prefix_refl _)
      rw [hend] at hgrows
      exact hop (hiff.mpr (List.prefix_nil.mp hgrows))

end Calls

/-! ## The accounting of a run -/

/-- The processed events are accounted for: each whose call is over was dropped,
waits, is with the sink, or was exported or counted as failed, and its call has
returned it; the queue keeps within its capacity; and the sink is given a prefix
of the accepted events, which are some of the processed ones. -/
structure Accounts (capacity : ℤ) (ops : List (ExportOp ε)) (s : ExportState ε) : Prop where
  conserved : (processed ops).length =
    s.pending.length + s.dropped + s.queue.length + s.worker.hands + s.successes + s.failed
  bounded : (s.queue.length : ℤ) ≤ capacity
  order : s.given <+: s.accepted
  taken : s.accepted.Sublist (s.returned.map Prod.fst)
  once : s.given.length = s.worker.hands + s.successes + s.failed
  returns : (s.returned.map Prod.fst ++ s.pending).Perm (processed ops)
  faithful : ∀ r ∈ s.returned, r.2 = r.1

/-- **The export queue accounts for every event exactly if every event is copied**:
in every state that a run reaches, the processed events are accounted for if and
only if the copy of none of them has raised. -/
theorem export_accounted_iff (capacity : ℤ) (init : ExportState ε)
    (h : ExportState.create capacity = .ok init) (ops : List (ExportOp ε)) :
    Accounts capacity ops (run ExportState.apply init ops) ↔
      RunMeets ExportState.apply Copies init ops := by
  have hs := accounted_run h ops
  have hnew := create_new h
  have hcalled := called_run ops init
  rw [hnew.1, List.nil_append, ExportState.called] at hcalled
  rw [← raised_run ops hnew.2]
  have hlength := hcalled.length_eq
  rw [List.length_append, List.length_append, List.length_map, hs.conserved] at hlength
  constructor
  · intro haccounts
    have hconserved := haccounts.conserved
    exact List.length_eq_zero_iff.mp (by omega)
  · intro hraised
    rw [hraised, List.append_nil] at hcalled
    rw [hraised, List.length_nil] at hlength
    exact ⟨by omega, hs.bounded, ⟨_, hs.order⟩, hs.taken, hs.calls, hcalled, hs.faithful⟩

/-- The sink raises for the first event, a second one waits, a third is refused. -/
def sampleExport : List (ExportOp ℕ) := [
  .process 7, .put 0, .work .testStopping, .work .get, .process 8, .put 0, .process 9, .put 0,
  .work .sinkRaises]

theorem export_accounted_iff_raised :
    Accounts 1 sampleExport (run ExportState.apply { capacity := 1 } sampleExport) ↔
      RunMeets ExportState.apply Copies { capacity := 1 } sampleExport :=
  export_accounted_iff 1 { capacity := 1 } rfl sampleExport

/-- An event that cannot be copied is counted nowhere, and is not returned. -/
theorem deep_event_uncounted :
    let ops : List (ExportOp ℕ) := [.process 7, .copyRaises 0]
    let s := run ExportState.apply { capacity := 1 } ops
    s.pending = [] ∧ s.returned = [] ∧ s.queue = [] ∧ s.dropped = 0 ∧ s.successes = 0 ∧
      s.failed = 0 ∧ processed ops = [7] ∧ ¬ Accounts 1 ops s := by
  refine ⟨rfl, rfl, rfl, rfl, rfl, rfl, rfl, fun h => ?_⟩
  cases h.conserved

end VllmObserver.Exporter
