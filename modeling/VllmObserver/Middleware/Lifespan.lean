import VllmObserver.RemoteWrite.Push
import VllmObserver.Exporter.AsyncExport
import VllmObserver.Middleware.Call

/-! # The lifespan of a server

The lifespan call starts the push loop when the application reports that it has
started. It lets the server hear of the shutdown only once the loop has ended, and
closes the exporter last. The call, the task of the loop with its thread and the
export worker interleave, and the call may be cancelled where it awaits. -/
namespace VllmObserver.Middleware
open VllmObserver.Lib VllmObserver.Exporter
open VllmObserver.RemoteWrite (RemoteWriter WriterOp HealthCheck Protocol SignedOff)

/-- What the application reports, as far as the middleware tells it apart. -/
inductive Report where
  | startupComplete
  | shutdownComplete
  | other (type : String)
deriving DecidableEq

/-! ## The health of the application -/

/-- `health_check`: the status of the last response start, if there is one. -/
def healthCheck (messages : List SendMessage) : Bool :=
  let status := messages.foldl (fun status message => match message with
    | .start status _ => status
    | _ => status) 503
  decide (200 ≤ status ∧ status < 300)

/-- What the application makes of the request for its health. -/
inductive HealthAnswer where
  | answered (messages : List SendMessage)
  | raised
  | timedOut

def HealthAnswer.check : HealthAnswer → HealthCheck
  | answered messages => .returned (healthCheck messages)
  | raised => .raised
  | timedOut => .timedOut

/-- A step of the task of the push loop, or of the thread that pushes for it. -/
inductive TaskOp where
  | test
  | health (answer : HealthAnswer)
  | snapshot (time : ℚ) (timeNs : ℤ)
  | pushed (ok : Bool)
  | woken

def TaskOp.writerOp : TaskOp → WriterOp
  | test => .test
  | health answer => .health answer.check
  | snapshot time timeNs => .snapshot time timeNs
  | pushed ok => .pushed ok
  | woken => .woken

/-- The thread goes on when the task is cancelled. -/
def TaskOp.inThread : TaskOp → Bool
  | snapshot .. | pushed _ => true
  | test | health _ | woken => false

/-! ## The call -/

/-- Where the lifespan call stands: in the application, which may be sending a
report or wait for the loop before its shutdown is forwarded, or in the `finally`,
waiting for the loop and then for the export thread. -/
inductive Stand (ε : Type) where
  | running
  | closing
  | sending
  | finishing (ending : Ending ε)
  | joining (ending : Ending ε)
  | returned (ending : Ending ε)
deriving DecidableEq

/-- The middleware within its lifespan call. `aborted` tells that the task of the
loop was cancelled, `interrupted` that the `finally` was left by a cancellation; a
forwarded report comes with the writer as it was. -/
structure Lifespan (ε α : Type) where
  stand : Stand ε := .running
  writer : Option RemoteWriter
  aborted : Bool := false
  interrupted : Bool := false
  exporter : Option (ExportState α)
  reported : List Report := []
  forwarded : List (Report × Option RemoteWriter) := []

/-- What happens next. Cancelling the call cancels the task that it awaits, which a
health check may swallow. -/
inductive LifespanOp (ε α : Type) where
  | report (report : Report)
  | ends (ending : Ending ε)
  | resume
  | joinTimeout
  | cancel (swallowed : Bool)
  | task (op : TaskOp)
  | exporter (op : ExportOp α)

namespace Lifespan
variable {ε α : Type}

/-- `await self.task` is over, or there is no task. -/
def taskDone (s : Lifespan ε α) : Bool :=
  match s.writer with
  | none => true
  | some w => s.aborted || w.phase = .idle || w.phase = .ended

def forward (s : Lifespan ε α) (report : Report) : Lifespan ε α :=
  { s with stand := .sending, forwarded := s.forwarded ++ [(report, s.writer)] }

/-- `lifecycle_send`, up to where it awaits. -/
def lifecycleSend (s : Lifespan ε α) (report : Report) : Lifespan ε α :=
  let s := { s with reported := s.reported ++ [report] }
  match report with
  | .startupComplete => { s with writer := s.writer.map RemoteWriter.start }.forward report
  | .shutdownComplete => { s with writer := s.writer.map RemoteWriter.close, stand := .closing }
  | .other _ => s.forward report

/-- A CancelledError leaves the `finally`. -/
def interrupt (s : Lifespan ε α) : Lifespan ε α :=
  { s with stand := .returned .cancelled, interrupted := true }

/-- The awaited task of the loop is over: a cancelled one raises. -/
def resume (s : Lifespan ε α) : Lifespan ε α :=
  match s.stand with
  | .closing =>
    if s.taskDone then
      if s.aborted then { s with stand := .running } else s.forward .shutdownComplete
    else s
  | .sending => { s with stand := .running }
  | .finishing ending =>
    if s.taskDone then
      if s.aborted then s.interrupt
      else match s.exporter with
        | none => { s with stand := .returned ending }
        | some x => { s with stand := .joining ending, exporter := some (x.apply .close) }
    else s
  | .joining ending => match s.exporter with
    | some x => if x.worker matches .terminated then { s with stand := .returned ending } else s
    | none => s
  | _ => s

/-- The task ends with the CancelledError, unless its health check keeps it. -/
def abort (s : Lifespan ε α) (swallowed : Bool) : Lifespan ε α :=
  match s.writer with
  | none => s
  | some w => if swallowed && w.phase = .checking then s else { s with aborted := true }

def cancel (s : Lifespan ε α) (swallowed : Bool) : Lifespan ε α :=
  match s.stand with
  | .closing => if s.taskDone then { s with stand := .running } else s.abort swallowed
  | .sending => { s with stand := .running }
  | .finishing _ => if s.taskDone then s.interrupt else s.abort swallowed
  | .joining _ => s.interrupt
  | .running | .returned _ => s -- up to the application, or over

def step (s : Lifespan ε α) : LifespanOp ε α → Lifespan ε α
  | .report report => match s.stand with
    | .running => s.lifecycleSend report
    | _ => s
  | .ends ending => match s.stand with
    | .running => { s with writer := s.writer.map RemoteWriter.close, stand := .finishing ending }
    | _ => s
  | .resume => s.resume
  | .joinTimeout => match s.stand with
    | .joining ending => { s with stand := .returned ending }
    | _ => s
  | .cancel swallowed => s.cancel swallowed
  | .task op =>
    if s.aborted && !op.inThread then s
    else { s with writer := s.writer.map (·.apply op.writerOp) }
  | .exporter op => match op with
    | .close => s -- only the lifespan call closes the exporter
    | op => { s with exporter := s.exporter.map (·.apply op) }

/-- Before the call. -/
def init (writer : Option RemoteWriter) (exporter : Option (ExportState α)) : Lifespan ε α where
  writer := writer
  exporter := exporter

end Lifespan

/-! ## What the writer and the exporter keep -/

section Parts
variable {w : RemoteWriter}

/-- The task is over, or was never started. -/
def Over (w : RemoteWriter) : Prop := w.phase = .idle ∨ w.phase = .ended

theorem over_task (h : Over w) (op : TaskOp) : w.apply op.writerOp = w := by
  rcases h with h | h <;> cases op <;> simp [TaskOp.writerOp, RemoteWriter.apply, h]

theorem stop_task (h : w.stop = true) (op : TaskOp) : (w.apply op.writerOp).stop = true := by
  cases op with
  | test =>
    simp only [TaskOp.writerOp, RemoteWriter.apply]
    split
    · unfold RemoteWriter.test
      split <;> exact h
    · exact h
  | health answer =>
    simp only [TaskOp.writerOp, RemoteWriter.apply]
    split <;> exact h
  | snapshot time timeNs =>
    simp only [TaskOp.writerOp, RemoteWriter.apply]
    split <;> exact h
  | pushed ok =>
    simp only [TaskOp.writerOp, RemoteWriter.apply]
    split <;> exact h
  | woken =>
    simp only [TaskOp.writerOp, RemoteWriter.apply]
    split <;> exact h

/-- The end is final. -/
theorem ended_start (h : w.phase = .ended) : w.start = w := by
  rw [RemoteWriter.start, if_neg (by rw [h]; decide)]

theorem stopped_close (h : w.stop = true) : w.close = w := by
  cases w
  cases h
  rfl

theorem stopping_apply {α : Type} {x : ExportState α} (h : x.stopping = true) (op : ExportOp α) :
    (x.apply op).stopping = true := by
  cases op with
  | process event =>
    simp only [ExportState.apply, ExportState.process, h, if_true]
  | put call =>
    simp only [ExportState.apply, ExportState.put]
    split
    · exact h
    · split <;> exact h
  | copyRaises call =>
    simp only [ExportState.apply, ExportState.copyRaises]
    split <;> exact h
  | work op =>
    cases op <;> simp only [ExportState.apply, ExportState.work] <;> split <;> exact h
  | close => rfl

end Parts

/-! ## An orderly shutdown -/

/-- The loop has been asked to stop, and the call awaits its end or has done so. -/
def Stand.stopping {ε : Type} : Stand ε → Bool
  | running | sending => false
  | closing | finishing _ | joining _ | returned _ => true

/-- In or behind the last `await`. -/
def Stand.last {ε : Type} : Stand ε → Bool
  | joining _ | returned _ => true
  | running | sending | closing | finishing _ => false

/-- The report that waits for the loop. -/
def Stand.held {ε : Type} : Stand ε → List Report
  | closing => [.shutdownComplete]
  | running | sending | finishing _ | joining _ | returned _ => []

/-- A shutdown that was forwarded: the loop has signed off for good, or there was
none at the time. -/
def Farewell (now : Option RemoteWriter) (w : RemoteWriter) : Prop :=
  w.stop = true ∧ (w.phase = .idle ∨ w.phase = .ended ∧ SignedOff w.log ∧ now = some w)

structure Orderly {ε α : Type} (s : Lifespan ε α) : Prop where
  protocol : ∀ w, s.writer = some w → Protocol w
  stopped : s.stand.stopping = true → ∀ w, s.writer = some w → w.stop = true
  loop : s.interrupted = false → s.stand.last = true → ∀ w, s.writer = some w → Over w
  exporter : s.interrupted = false → s.stand.last = true →
    ∀ x, s.exporter = some x → x.stopping = true
  farewell : ∀ w, (.shutdownComplete, some w) ∈ s.forwarded → Farewell s.writer w
  order : (s.forwarded.map Prod.fst ++ s.stand.held).Sublist s.reported

section Orderly
variable {ε α : Type} {s : Lifespan ε α}

theorem signedOff_of_ended {w : RemoteWriter} (h : Protocol w) (hended : w.phase = .ended) :
    SignedOff w.log := by
  have hphase := h.phase
  rw [hended] at hphase
  exact hphase

/-- The writer changes, but not behind its end. -/
theorem farewell_map {now : Option RemoteWriter} {w : RemoteWriter} (h : Farewell now w)
    {f : RemoteWriter → RemoteWriter} (hf : ∀ w, w.phase = .ended → w.stop = true → f w = w) :
    Farewell (now.map f) w := by
  obtain ⟨hstop, hidle | ⟨hended, hoff, hnow⟩⟩ := h
  · exact ⟨hstop, .inl hidle⟩
  · refine ⟨hstop, .inr ⟨hended, hoff, ?_⟩⟩
    rw [hnow, Option.map_some, hf w hended hstop]

/-- Only the stand changes, and the flag of the `finally`. -/
theorem Orderly.goes (h : Orderly s) {stand : Stand ε} {interrupted : Bool}
    (hstop : stand.stopping = true → s.stand.stopping = true)
    (hlast : interrupted = false → stand.last = true →
      s.interrupted = false ∧ s.stand.last = true)
    (hheld : stand.held.Sublist s.stand.held) :
    Orderly { s with stand := stand, interrupted := interrupted } where
  protocol := h.protocol
  stopped hs := h.stopped (hstop hs)
  loop hi hl := h.loop (hlast hi hl).1 (hlast hi hl).2
  exporter hi hl := h.exporter (hlast hi hl).1 (hlast hi hl).2
  farewell := h.farewell
  order := ((List.append_sublist_append_left _).mpr hheld).trans h.order

/-- A report is forwarded, and it is not a shutdown before its time. -/
theorem Orderly.forward (h : Orderly s) {report : Report} (hstop : report = .shutdownComplete →
      ∀ w, s.writer = some w → w.stop = true ∧ Over w)
    (horder : (s.forwarded.map Prod.fst ++ [report]).Sublist s.reported) :
    Orderly (s.forward report) where
  protocol := h.protocol
  stopped hs := by cases hs
  loop _ hl := by cases hl
  exporter _ hl := by cases hl
  farewell w hw := by
    rcases List.mem_append.mp hw with hw | hw
    · exact h.farewell w hw
    · obtain ⟨hreport, hwriter⟩ := Prod.mk.inj (List.mem_singleton.mp hw)
      obtain ⟨hs, ho⟩ := hstop hreport.symm w hwriter.symm
      refine ⟨hs, ho.imp_right fun hended => ⟨hended, ?_, hwriter.symm⟩⟩
      exact signedOff_of_ended (h.protocol w hwriter.symm) hended
  order := by
    show ((s.forwarded ++ [(report, s.writer)]).map Prod.fst ++ []).Sublist s.reported
    rw [List.append_nil, List.map_append]
    exact horder

/-- The application reports. -/
theorem Orderly.lifecycleSend (h : Orderly s) (hrun : s.stand = .running) (report : Report) :
    Orderly (s.lifecycleSend report) := by
  have horder : (s.forwarded.map Prod.fst ++ [report]).Sublist (s.reported ++ [report]) := by
    have hold := h.order
    rw [hrun] at hold
    exact List.Sublist.append ((List.sublist_append_left _ _).trans hold) (List.Sublist.refl _)
  have hreported : Orderly { s with reported := s.reported ++ [report] } :=
    { h with order := h.order.trans (List.sublist_append_left _ _) }
  cases report with
  | startupComplete =>
    have hstarted : Orderly { s with
        reported := s.reported ++ [.startupComplete]
        writer := s.writer.map RemoteWriter.start } := by
      refine { hreported with protocol := fun w hw => ?_, stopped := fun hs => ?_,
                              loop := fun _ hl => ?_, farewell := fun w hw => ?_ }
      · obtain ⟨old, hold, rfl⟩ := Option.map_eq_some_iff.mp hw
        exact (h.protocol old hold).start
      · rw [hrun] at hs
        cases hs
      · rw [hrun] at hl
        cases hl
      · exact farewell_map (h.farewell w hw) fun w hended _ => ended_start hended
    exact hstarted.forward (fun he => by cases he) horder
  | shutdownComplete =>
    refine { protocol := fun w hw => ?_, stopped := fun _ w hw => ?_, loop := fun _ hl => ?_,
             exporter := fun _ hl => ?_, farewell := fun w hw => ?_, order := horder }
    · obtain ⟨old, hold, rfl⟩ := Option.map_eq_some_iff.mp hw
      exact (h.protocol old hold).close
    · obtain ⟨old, hold, rfl⟩ := Option.map_eq_some_iff.mp hw
      rfl
    · cases hl
    · cases hl
    · exact farewell_map (h.farewell w hw) fun w _ hs => stopped_close hs
  | other type => exact hreported.forward (fun he => by cases he) horder

/-- The awaited task is over, and was not cancelled. -/
theorem over_of_taskDone (h : s.taskDone = true) (ha : s.aborted = false) {w : RemoteWriter}
    (hw : s.writer = some w) : Over w := by
  rw [Lifespan.taskDone, hw, ha] at h
  simpa [Over] using h

theorem Orderly.interrupt (h : Orderly s) (hstop : s.stand.stopping = true) :
    Orderly s.interrupt :=
  h.goes (fun _ => hstop) (fun hi => by cases hi) (List.nil_sublist _)

theorem Orderly.resume (h : Orderly s) : Orderly s.resume := by
  unfold Lifespan.resume
  split
  · rename_i hstand
    split
    · rename_i hdone
      split
      · exact h.goes (fun hs => by cases hs) (fun _ hl => by cases hl) (List.nil_sublist _)
      · rename_i habort
        have horder := h.order
        rw [hstand] at horder
        have hstopped := h.stopped (by rw [hstand]; rfl)
        exact h.forward (fun _ w hw => ⟨hstopped w hw,
          over_of_taskDone hdone (Bool.not_eq_true _ ▸ habort) hw⟩) horder
    · exact h
  · exact h.goes (fun hs => by cases hs) (fun _ hl => by cases hl) (List.nil_sublist _)
  · rename_i ending hstand
    have hstopping : s.stand.stopping = true := by rw [hstand]; rfl
    split
    · rename_i hdone
      split
      · exact h.interrupt hstopping
      · rename_i habort
        have hover : ∀ w, s.writer = some w → Over w := fun w hw =>
          over_of_taskDone hdone (Bool.not_eq_true _ ▸ habort) hw
        have horder : (s.forwarded.map Prod.fst ++ []).Sublist s.reported := by
          have hold := h.order
          rw [hstand] at hold
          exact hold
        split
        · rename_i hnone
          exact { h with stopped := fun _ => h.stopped hstopping, loop := fun _ _ => hover,
                         exporter := fun _ _ x hx => (by rw [hnone] at hx; cases hx),
                         order := horder }
        · exact { h with stopped := fun _ => h.stopped hstopping, loop := fun _ _ => hover,
                         exporter := fun _ _ x hx => (by cases hx; rfl),
                         order := horder }
    · exact h
  · rename_i ending hstand
    split
    · split
      · refine h.goes (fun _ => by rw [hstand]; rfl) (fun hi _ => ⟨hi, by rw [hstand]; rfl⟩)
          (List.nil_sublist _)
      · exact h
    · exact h
  · exact h

theorem Orderly.abort (h : Orderly s) (swallowed : Bool) : Orderly (s.abort swallowed) := by
  unfold Lifespan.abort
  split
  · exact h
  · split
    · exact h
    · exact { h with }

theorem Orderly.cancel (h : Orderly s) (swallowed : Bool) : Orderly (s.cancel swallowed) := by
  unfold Lifespan.cancel
  split
  · split
    · exact h.goes (fun hs => by cases hs) (fun _ hl => by cases hl) (List.nil_sublist _)
    · exact h.abort swallowed
  · exact h.goes (fun hs => by cases hs) (fun _ hl => by cases hl) (List.nil_sublist _)
  · rename_i ending hstand
    split
    · exact h.interrupt (by rw [hstand]; rfl)
    · exact h.abort swallowed
  · rename_i ending hstand
    exact h.interrupt (by rw [hstand]; rfl)
  · exact h
  · exact h

/-- A step of the task, which is none behind the end. -/
theorem Orderly.task (h : Orderly s) (op : TaskOp) :
    Orderly { s with writer := s.writer.map (·.apply op.writerOp) } := by
  refine { h with protocol := fun w hw => ?_, stopped := fun hs w hw => ?_,
                  loop := fun hi hl w hw => ?_, farewell := fun w hw => ?_ }
  · obtain ⟨old, hold, rfl⟩ := Option.map_eq_some_iff.mp hw
    exact (h.protocol old hold).step op.writerOp
  · obtain ⟨old, hold, rfl⟩ := Option.map_eq_some_iff.mp hw
    exact stop_task (h.stopped hs old hold) op
  · obtain ⟨old, hold, rfl⟩ := Option.map_eq_some_iff.mp hw
    rw [over_task (h.loop hi hl old hold) op]
    exact h.loop hi hl old hold
  · exact farewell_map (h.farewell w hw) fun w hended _ => over_task (.inr hended) op

theorem Orderly.exports (h : Orderly s) (op : ExportOp α) :
    Orderly { s with exporter := s.exporter.map (·.apply op) } := by
  refine { h with exporter := fun hi hl x hx => ?_ }
  obtain ⟨old, hold, rfl⟩ := Option.map_eq_some_iff.mp hx
  exact stopping_apply (h.exporter hi hl old hold) op

theorem Orderly.ends (h : Orderly s) (ending : Ending ε) :
    Orderly { s with writer := s.writer.map RemoteWriter.close, stand := .finishing ending } := by
  refine { h with protocol := fun w hw => ?_, stopped := fun _ w hw => ?_,
                  loop := fun _ hl => ?_, exporter := fun _ hl => ?_,
                  farewell := fun w hw => ?_, order := ?_ }
  · obtain ⟨old, hold, rfl⟩ := Option.map_eq_some_iff.mp hw
    exact (h.protocol old hold).close
  · obtain ⟨old, hold, rfl⟩ := Option.map_eq_some_iff.mp hw
    rfl
  · cases hl
  · cases hl
  · exact farewell_map (h.farewell w hw) fun w _ hs => stopped_close hs
  · exact ((List.append_sublist_append_left _).mpr (List.nil_sublist _)).trans h.order

theorem Orderly.step (h : Orderly s) (op : LifespanOp ε α) : Orderly (s.step op) := by
  cases op with
  | report report =>
    simp only [Lifespan.step]
    split
    · rename_i hrun
      exact h.lifecycleSend hrun report
    · exact h
  | ends ending =>
    simp only [Lifespan.step]
    split
    · exact h.ends ending
    · exact h
  | resume => exact h.resume
  | joinTimeout =>
    simp only [Lifespan.step]
    split
    · rename_i ending hstand
      exact h.goes (fun _ => by rw [hstand]; rfl) (fun hi _ => ⟨hi, by rw [hstand]; rfl⟩)
        (List.nil_sublist _)
    · exact h
  | cancel swallowed => exact h.cancel swallowed
  | task op =>
    simp only [Lifespan.step]
    split
    · exact h
    · exact h.task op
  | exporter op =>
    cases op with
    | close => exact h
    | process event => exact h.exports (.process event)
    | put call => exact h.exports (.put call)
    | copyRaises call => exact h.exports (.copyRaises call)
    | work op => exact h.exports (.work op)

/-- Behind the call the writer stands still. -/
theorem writer_returned (h : Orderly s) {ending : Ending ε} (hstand : s.stand = .returned ending)
    (hi : s.interrupted = false) (op : LifespanOp ε α) :
    (s.step op).writer = s.writer ∧ (s.step op).stand = .returned ending ∧
      (s.step op).interrupted = false := by
  have htask : ∀ op : TaskOp, s.writer.map (·.apply op.writerOp) = s.writer := by
    intro op
    cases hw : s.writer with
    | none => rfl
    | some w =>
      have hover := h.loop hi (by rw [hstand]; rfl) w hw
      rw [Option.map_some, over_task hover op]
  cases op with
  | task op =>
    simp only [Lifespan.step]
    split
    · exact ⟨rfl, hstand, hi⟩
    · exact ⟨htask op, hstand, hi⟩
  | exporter op => cases op <;> exact ⟨rfl, hstand, hi⟩
  | resume => simp [Lifespan.step, Lifespan.resume, hstand, hi]
  | cancel swallowed => simp [Lifespan.step, Lifespan.cancel, hstand, hi]
  | report report => simp [Lifespan.step, hstand, hi]
  | ends ending' => simp [Lifespan.step, hstand, hi]
  | joinTimeout => simp [Lifespan.step, hstand, hi]

theorem orderly_init (writer : Option RemoteWriter) (exporter : Option (ExportState α))
    (hw : ∀ w, writer = some w → Protocol w) :
    Orderly (Lifespan.init writer exporter : Lifespan ε α) where
  protocol := hw
  stopped hs := by cases hs
  loop _ hl := by cases hl
  exporter _ hl := by cases hl
  farewell _ h := by cases h
  order := List.Sublist.refl _

end Orderly

theorem protocol_create {url : String} {interval timeout : Flt} {w : RemoteWriter}
    (h : RemoteWriter.create url interval timeout = .ok w) : Protocol w := by
  unfold RemoteWriter.create at h
  split at h
  · cases h
  · split at h
    · cases h
    · cases h
      exact RemoteWrite.protocol_run []

/-- **The server hears of the shutdown last.** In every run of the lifespan call
with the push loop, the export worker and any cancellations, a shutdown is
forwarded only when the loop was never started or has signed off for good, and the
reports keep their order. A call that no cancellation has left early returns with
the loop over and the exporter closed, and nothing is pushed any more. -/
theorem shutdown_signed_off {ε α : Type} (writer : Option RemoteWriter)
    (hcreate : ∀ w, writer = some w →
      ∃ url interval timeout, RemoteWriter.create url interval timeout = .ok w)
    (exporter : Option (ExportState α)) (ops : List (LifespanOp ε α)) :
    let s := run Lifespan.step (.init writer exporter) ops
    (∀ w, (.shutdownComplete, some w) ∈ s.forwarded → Farewell s.writer w) ∧
    (s.forwarded.map Prod.fst).Sublist s.reported ∧
    ∀ ending, s.stand = .returned ending → s.interrupted = false →
      (∀ w, s.writer = some w → w.stop = true ∧
        (w.phase = .idle ∨ w.phase = .ended ∧ SignedOff w.log)) ∧
      (∀ x, s.exporter = some x → x.stopping = true) ∧
      ∀ later, (run Lifespan.step s later).writer = s.writer := by
  intro s
  have h : Orderly s := run_invariant_all Lifespan.step (fun _ op h => h.step op)
    (orderly_init writer exporter fun w hw =>
      let ⟨_, _, _, hok⟩ := hcreate w hw
      protocol_create hok)
  refine ⟨h.farewell, (List.sublist_append_left _ _).trans h.order, fun ending hstand hi => ?_⟩
  have hover := h.loop hi (by rw [hstand]; rfl)
  refine ⟨fun w hw => ⟨h.stopped (by rw [hstand]; rfl) w hw, (hover w hw).imp_right fun hended =>
    ⟨hended, signedOff_of_ended (h.protocol w hw) hended⟩⟩,
    h.exporter hi (by rw [hstand]; rfl), fun later => ?_⟩
  -- every later step leaves the call returned and the writer as it is
  have hlater : Orderly (run Lifespan.step s later) ∧
      (run Lifespan.step s later).writer = s.writer ∧
      (run Lifespan.step s later).stand = .returned ending ∧
      (run Lifespan.step s later).interrupted = false := by
    refine run_invariant_all Lifespan.step (I := fun s' => Orderly s' ∧ s'.writer = s.writer ∧
      s'.stand = .returned ending ∧ s'.interrupted = false) (fun s' op hs' => ?_)
      ⟨h, rfl, hstand, hi⟩
    obtain ⟨hw, hs, hi'⟩ := writer_returned hs'.1 hs'.2.2.1 hs'.2.2.2 op
    exact ⟨hs'.1.step op, hw.trans hs'.2.1, hs, hi'⟩
  exact hlater.2.1

/-- The application starts, and shuts down during the first push. -/
theorem shutdown_signed_off_pushing :
    let ops : List (LifespanOp String ℕ) := [.report .startupComplete, .resume, .task .test,
      .task (.health (.answered [.start 200 none])), .task (.snapshot 5 5000000000),
      .report .shutdownComplete, .resume, .task (.pushed true), .task .woken, .task .test,
      .task (.snapshot 6 6000000000), .resume, .task (.pushed true), .resume, .resume,
      .ends .returned, .resume, .joinTimeout]
    let s := run Lifespan.step (.init (some {}) (some { capacity := 1 })) ops
    s.forwarded.map Prod.fst = [.startupComplete, .shutdownComplete] ∧
      s.stand = .returned .returned ∧
      (∀ w, (.shutdownComplete, some w) ∈ s.forwarded → Farewell s.writer w) ∧
      ∀ later, (run Lifespan.step s later).writer = s.writer := by
  intro ops s
  have h := shutdown_signed_off (some {}) (fun w hw => ⟨"http://localhost:9090/api/v1/write",
    .fin 10, .fin 2, by cases hw; rfl⟩) (some { capacity := 1 }) ops
  exact ⟨rfl, rfl, h.1, (h.2.2 .returned rfl rfl).2.2⟩

end VllmObserver.Middleware
