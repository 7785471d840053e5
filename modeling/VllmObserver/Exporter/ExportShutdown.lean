import VllmObserver.Exporter.AsyncExport

/-! # Shutting the export queue down

`process` tests `stopping` and then enqueues. Between the two the filter may be
closed and the worker may find the queue empty and terminate: the event is then
accepted by a queue that nobody reads, and counted nowhere. -/
namespace VllmObserver.Exporter
open VllmObserver.Lib VllmObserver.Core

variable {ε : Type} {s : ExportState ε}

/-- Every processed event was exported, counted as failed or counted as dropped. -/
def Settled (s : ExportState ε) : Prop :=
  s.queue = [] ∧ s.returned.length = s.dropped + s.successes + s.failed

/-- No call enqueues once the worker has terminated. -/
def InTime (s : ExportState ε) : ExportOp ε → Prop
  | .put call => s.worker = .terminated → s.pending[call]? = none
  | _ => True

/-- A worker that terminates has found the queue empty. -/
def Drained (s : ExportState ε) : Prop := s.worker = .terminated → s.queue = []

/-- The worker has terminated, and an event waits. -/
def Stranded (s : ExportState ε) : Prop := s.worker = .terminated ∧ s.queue ≠ []

/-- A terminated worker does nothing any more. -/
theorem work_terminated (hw : s.worker = .terminated) (op : WorkerOp) : s.work op = s := by
  cases op <;> simp only [ExportState.work, hw]

/-- Only the test of the queue terminates the worker. -/
theorem work_terminates {op : WorkerOp} (hw : s.worker ≠ .terminated)
    (ht : (s.work op).worker = .terminated) : (s.work op).queue = [] := by
  cases op with
  | testQueue =>
    simp only [ExportState.work] at ht ⊢
    split at ht
    · split at ht
      · rename_i hq
        exact List.isEmpty_iff.mp hq
      · cases ht
    · exact absurd ht hw
  | testStopping =>
    simp only [ExportState.work] at ht
    split at ht
    · split at ht <;> cases ht
    · exact absurd ht hw
  | get | timeout | sinkReturns | sinkRaises =>
    simp only [ExportState.work] at ht
    split at ht
    · cases ht
    · exact absurd ht hw

theorem put_worker (s : ExportState ε) (call : ℕ) : (s.put call).worker = s.worker := by
  unfold ExportState.put
  split
  · rfl
  · simp only
    split <;> rfl

theorem copyRaises_frame (s : ExportState ε) (call : ℕ) :
    (s.copyRaises call).worker = s.worker ∧ (s.copyRaises call).queue = s.queue := by
  unfold ExportState.copyRaises
  split <;> exact ⟨rfl, rfl⟩

theorem process_frame (s : ExportState ε) (event : ε) :
    (s.process event).worker = s.worker ∧ (s.process event).queue = s.queue := by
  unfold ExportState.process
  split <;> exact ⟨rfl, rfl⟩

theorem Drained.step (h : Drained s) {op : ExportOp ε} (hop : InTime s op) :
    Drained (s.apply op) := by
  cases op with
  | process event =>
    obtain ⟨hw, hq⟩ := process_frame s event
    intro ht
    exact hq.trans (h (hw.symm.trans ht))
  | put call =>
    intro ht
    have hw := (put_worker s call).symm.trans ht
    have hnone := hop hw
    simp only [ExportState.apply, ExportState.put, hnone]
    exact h hw
  | copyRaises call =>
    obtain ⟨hw, hq⟩ := copyRaises_frame s call
    intro ht
    exact hq.trans (h (hw.symm.trans ht))
  | work op =>
    intro ht
    by_cases hw : s.worker = .terminated
    · rw [show s.apply (.work op) = s from work_terminated hw op]
      exact h hw
    · exact work_terminates hw ht
  | close => exact h

/-- An event that is left behind stays there. -/
theorem Stranded.step (h : Stranded s) (op : ExportOp ε) : Stranded (s.apply op) := by
  obtain ⟨hw, hq⟩ := h
  cases op with
  | process event =>
    obtain ⟨h1, h2⟩ := process_frame s event
    exact ⟨h1.trans hw, h2 ▸ hq⟩
  | put call =>
    refine ⟨(put_worker s call).trans hw, ?_⟩
    simp only [ExportState.apply, ExportState.put]
    split
    · exact hq
    · split
      · simp
      · exact hq
  | copyRaises call =>
    obtain ⟨h1, h2⟩ := copyRaises_frame s call
    exact ⟨h1.trans hw, h2 ▸ hq⟩
  | work op =>
    rw [show s.apply (.work op) = s from work_terminated hw op]
    exact ⟨hw, hq⟩
  | close => exact ⟨hw, hq⟩

/-- A late call leaves an event behind. -/
theorem stranded_of_late {capacity : ℤ} (ha : Accounted capacity s) (hc : 1 ≤ capacity)
    {op : ExportOp ε} (hop : ¬ InTime s op) : Stranded (s.apply op) := by
  cases op with
  | put call =>
    simp only [InTime, Classical.not_imp] at hop
    obtain ⟨hw, hp⟩ := hop
    refine ⟨(put_worker s call).trans hw, ?_⟩
    obtain ⟨event, he⟩ := Option.ne_none_iff_exists'.mp hp
    simp only [ExportState.apply, ExportState.put, he]
    split
    · simp
    · rename_i hfull
      intro hq
      rw [ha.fixed] at hfull
      simp only at hq
      rw [hq, List.length_nil, Nat.cast_zero] at hfull
      omega
  | process | copyRaises | work | close => exact absurd trivial hop

theorem create_capacity {capacity : ℤ} {init : ExportState ε}
    (h : ExportState.create capacity = .ok init) : 1 ≤ capacity ∧ Drained init := by
  unfold ExportState.create at h
  split at h
  · cases h
  · cases h
    exact ⟨by omega, fun _ => rfl⟩

/-- **Nothing is lost at shutdown exactly when no call enqueues late.** In a run
whose worker has terminated, every event of a call that has returned is accounted
for if and only if no call that had passed the test of `stopping` enqueued its
event after the worker terminated. -/
theorem shutdown_settled_iff (capacity : ℤ) (init : ExportState ε)
    (h : ExportState.create capacity = .ok init) (ops : List (ExportOp ε))
    (hw : (run ExportState.apply init ops).worker = .terminated) :
    Settled (run ExportState.apply init ops) ↔ RunMeets ExportState.apply InTime init ops := by
  obtain ⟨hc, hd⟩ := create_capacity h
  have hacc : ∀ ops, Accounted capacity (run ExportState.apply init ops) := accounted_run h
  constructor
  · rintro ⟨hq, _⟩
    refine (runMeets_iff ExportState.apply).mpr fun pre op post hsplit => ?_
    by_contra hlate
    -- the event of a late call is still there at the end
    have hs := stranded_of_late (hacc pre) hc hlate
    have hend : Stranded (run ExportState.apply init ops) := by
      rw [hsplit, run_append, run_cons]
      exact run_invariant_all ExportState.apply (fun s op hi => hi.step op) hs
    exact hend.2 hq
  · intro hmeets
    have hq : (run ExportState.apply init ops).queue = [] :=
      run_invariant ExportState.apply (I := Drained) (fun s op hi hop => hi.step hop) hmeets hd hw
    refine ⟨hq, ?_⟩
    have hcons := (hacc ops).conserved
    rw [hq, hw] at hcons
    simpa [Worker.hands] using hcons

/-- The event of a call that returned in time is exported before the worker ends. -/
theorem shutdown_settled_drained :
    let ops : List (ExportOp ℕ) := [.process 7, .put 0, .close, .work .testStopping,
      .work .testQueue, .work .get, .work .sinkReturns, .work .testStopping, .work .testQueue]
    Settled (run ExportState.apply { capacity := 1 } ops) ↔
      RunMeets ExportState.apply InTime { capacity := 1 } ops :=
  shutdown_settled_iff 1 _ rfl _ rfl

/-- The filter is closed while a call stands between its two steps. -/
theorem shutdown_stranded :
    let ops : List (ExportOp ℕ) :=
      [.process 7, .close, .work .testStopping, .work .testQueue, .put 0]
    let s := run ExportState.apply { capacity := 1 } ops
    s.worker = .terminated ∧ s.pending = [] ∧ s.queue = [7] ∧ s.returned = [(7, 7)] ∧
      s.dropped = 0 ∧ s.successes = 0 ∧ s.failed = 0 ∧ ¬ Settled s := by
  refine ⟨rfl, rfl, rfl, rfl, rfl, rfl, rfl, fun h => ?_⟩
  cases h.1

end VllmObserver.Exporter
