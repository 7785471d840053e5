import VllmObserver.Core.Trace
import VllmObserver.Lib.CallTimes

/-! # Timed calls

The function `observed` that `_timed_async` and `_timed_sync` of `stages.py` put
around a method. The two differ in the `await` alone, at which a coroutine may
pause; the epilogue awaits nothing, so no other task runs between a return and it. -/
namespace VllmObserver.Stages
open VllmObserver.Lib VllmObserver.Lib.CallStack VllmObserver.Core

/-- The stages that the API process times. -/
def timedStages : List String :=
  ["render_input", "sampling_params", "input_process", "submit_engine", "output_processor_add"]

/-- A wrapped method: its stage, and the module it was defined in. -/
structure TimedMethod where
  stage : String
  moduleName : String
  timed : stage ∈ timedStages
deriving DecidableEq

/-- The local variables of `observed` while the method runs. -/
structure Running where
  trace : ℕ
  method : TimedMethod
  started : ℚ
deriving DecidableEq

/-- What a call has measured. -/
structure Timing where
  trace : ℕ
  method : TimedMethod
  started : ℚ
  ended : ℚ
deriving DecidableEq

/-- The traces by their addresses, and the readings of the clock so far. -/
structure Traces where
  trace : ℕ → RequestTrace
  reads : ℕ := 0

def Traces.edit (s : Traces) (i : ℕ) (f : RequestTrace → RequestTrace) : Traces :=
  { s with trace := Function.update s.trace i (f (s.trace i)) }

/-- What another hook does to a trace. It has no part in the timed stages. -/
structure OtherHook where
  run : RequestTrace → RequestTrace
  stages : ∀ trace, ∀ stage ∈ timedStages,
    (run trace).stages.get? stage = trace.stages.get? stage
  apiIntervals : ∀ trace, (run trace).apiIntervals = trace.apiIntervals
  clock : ∀ trace, (run trace).startedNs = trace.startedNs ∧ (run trace).started = trace.started

def Timing.record (uuid : String) (t : Timing) (trace : RequestTrace) : RequestTrace :=
  (trace.add t.method.stage (.float (.fin (t.ended - t.started)))).apiInterval uuid t.method.stage
    t.started t.ended [("module", .str t.method.moduleName)]

/-- A task's context holds the address of its current trace, if it has one. -/
def observed (perf : ℕ → ℚ) (uuid : ℕ → String) :
    Wrapper TimedMethod (ℕ × OtherHook) (Option ℕ) Running Timing Traces where
  enter := fun method context s =>
    match context with
    | none => (none, s)
    | some trace => (some ⟨trace, method, perf s.reads⟩, { s with reads := s.reads + 1 })
  leave := fun call s =>
    let timing : Timing := ⟨call.trace, call.method, call.started, perf s.reads⟩
    (timing, { s.edit call.trace (timing.record (uuid s.reads)) with reads := s.reads + 1 })
  tell := fun message s => s.edit message.1 message.2.run

/-! ## Which calls are measured -/

def tracedCall (method : TimedMethod) (context : Option ℕ) : Option (ℕ × TimedMethod) :=
  context.map (·, method)

def Running.call (call : Running) : ℕ × TimedMethod := (call.trace, call.method)

def Timing.call (t : Timing) : ℕ × TimedMethod := (t.trace, t.method)

def Timing.interval (t : Timing) : ℚ × ℚ := (t.started, t.ended)

section Observed
variable {perf : ℕ → ℚ} {uuid : ℕ → String}

theorem observed_labelled :
    Labelled (observed perf uuid) tracedCall Running.call Timing.call where
  enter := fun _ context _ => by cases context <;> rfl
  leave := fun _ _ => rfl

theorem observed_clocked (hperf : ∀ a b, a ≤ b → perf a ≤ perf b) :
    TimesCalls (observed perf uuid) (fun s => perf s.reads) Running.started Timing.interval where
  enter := fun method context s => by
    have hnext := hperf s.reads (s.reads + 1) (Nat.le_succ _)
    cases context with
    | none => exact ⟨le_refl _, nofun⟩
    | some trace =>
      refine ⟨hnext, fun note hnote => ?_⟩
      obtain rfl := Option.some.inj hnote
      exact ⟨le_refl _, hnext⟩
  leave := fun call s => ⟨rfl, le_refl _, hperf s.reads (s.reads + 1) (Nat.le_succ _)⟩
  tell := fun _ _ => le_refl _

end Observed

/-! ## What a trace keeps of its calls -/

def Timing.seconds (t : Timing) : ℚ := t.ended - t.started

/-- The aggregate of a stage. -/
def tally : List Timing → Option Aggregate
  | [] => none
  | timings@(_ :: _) => some ⟨.int timings.length, .fin (timings.map Timing.seconds).sum⟩

/-- The name, the start and the end of an interval. -/
def spanOfNode (node : Node) : String × ℤ × Option ℤ := (node.name, node.startNs, node.endNs)

def Timing.span (base : RequestTrace) (t : Timing) : String × ℤ × Option ℤ :=
  (t.method.stage, base.nowNs t.started, some (base.nowNs t.ended))

/-- A trace holds the calls that were measured for it. -/
structure Holds (base : RequestTrace) (timings : List Timing) (trace : RequestTrace) : Prop where
  clock : trace.startedNs = base.startedNs ∧ trace.started = base.started
  stages : ∀ stage ∈ timedStages,
    trace.stages.get? stage = tally (timings.filter fun t => t.method.stage = stage)
  intervals : trace.apiIntervals.map spanOfNode =
    base.apiIntervals.map spanOfNode ++ timings.map (Timing.span base)

theorem tally_concat (timings : List Timing) {t : Timing} (h : t.started ≤ t.ended) :
    tally (timings ++ [t]) =
      some (((tally timings).getD {}).add (.float (.fin (t.ended - t.started)))) := by
  have hmax := Number.max_zero (sub_nonneg.mpr h)
  cases timings with
  | nil => simp [tally, Aggregate.add, hmax, Number.add, Flt.add, Timing.seconds]
  | cons first rest =>
    simp only [tally, List.cons_append, Option.getD_some, Aggregate.add, hmax, Number.add, Flt.add]
    simp [Timing.seconds, add_assoc]

theorem Holds.record {base trace : RequestTrace} {timings : List Timing}
    (h : Holds base timings trace) (uuid : String) {t : Timing} (ht : t.started ≤ t.ended) :
    Holds base (timings ++ [t]) (t.record uuid trace) := by
  have hnow : ∀ perf, trace.nowNs perf = base.nowNs perf :=
    RequestTrace.nowNs_congr h.clock.1 h.clock.2
  have hle := trace.nowNs_mono ht
  have hrecord : t.record uuid trace = { trace with
      stages := (trace.add t.method.stage (.float (.fin (t.ended - t.started)))).stages
      apiIntervals := trace.apiIntervals ++ [{
        id := uuid
        parentId := some trace.rootSpanId
        name := t.method.stage
        type := .span
        startNs := trace.nowNs t.started
        endNs := some (trace.nowNs t.ended)
        metadata := Dict.ofList [("timing_source", .str "wall_measured"),
          ("module", .str t.method.moduleName)] }] } := if_pos hle
  rw [hrecord]
  refine ⟨h.clock, fun stage hstage => ?_, ?_⟩
  · show (trace.stages.set t.method.stage _).get? stage = _
    rw [Dict.get?_set, List.filter_append]
    by_cases heq : stage = t.method.stage
    · subst heq
      rw [if_pos rfl, List.filter_cons_of_pos (by simp), List.filter_nil, tally_concat _ ht,
        h.stages _ hstage]
    · rw [if_neg heq, List.filter_cons_of_neg (by simpa using Ne.symm heq), List.filter_nil,
        List.append_nil, h.stages stage hstage]
  · rw [List.map_append, List.map_append, h.intervals, List.append_assoc, List.map_singleton,
      List.map_singleton, spanOfNode, Timing.span, hnow, hnow]

theorem Holds.other {base trace : RequestTrace} {timings : List Timing}
    (h : Holds base timings trace) (hook : OtherHook) : Holds base timings (hook.run trace) := by
  obtain ⟨hstartedNs, hstarted⟩ := hook.clock trace
  refine ⟨⟨hstartedNs.trans h.clock.1, hstarted.trans h.clock.2⟩, fun stage hstage => ?_, ?_⟩
  · rw [hook.stages trace stage hstage, h.stages stage hstage]
  · rw [hook.apiIntervals, h.intervals]

/-! ## Every run -/

/-- The calls that were measured for a trace, in the order of their ends. -/
def timingsOf (log : List (ℕ × Timing)) (trace : ℕ) : List Timing :=
  (log.map Prod.snd).filter fun t => t.trace = trace

abbrev Sighted := View TimedMethod (Option ℕ) Running Timing Traces

/-- Each trace holds its calls, and the clock was read twice for each of them. -/
structure Faithful (base : ℕ → RequestTrace) (v : Sighted) : Prop where
  traces : ∀ k, Holds (base k) (timingsOf v.log k) (v.watch.trace k)
  reads : v.watch.reads =
    v.log.length + (v.calls.filterMap fun call => tracedCall call.2.1 call.2.2).length

section Runs
variable {perf : ℕ → ℚ} {uuid : ℕ → String} {base : ℕ → RequestTrace} {v v' : Sighted}

theorem Faithful.sight (h : Sight (observed perf uuid) v v') (hv : Faithful base v)
    (hnested : Nested (fun s => perf s.reads) Running.started Timing.interval v) :
    Faithful base v' := by
  cases h with
  | tells message =>
    refine ⟨fun k => ?_, hv.reads⟩
    by_cases hk : k = message.1
    · subst hk
      have hother := (hv.traces message.1).other message.2
      rwa [show ((observed perf uuid).tell message v.watch).trace message.1 =
        message.2.run (v.watch.trace message.1) from Function.update_self ..]
    · have hsame := hv.traces k
      rwa [show ((observed perf uuid).tell message v.watch).trace k = v.watch.trace k from
        Function.update_of_ne hk ..]
  | calls i method context =>
    have hreads := hv.reads
    cases context with
    | none => exact ⟨hv.traces, by simpa [observed, tracedCall] using hreads⟩
    | some trace =>
      refine ⟨hv.traces, ?_⟩
      show v.watch.reads + 1 = _
      rw [List.filterMap_append, List.length_append, hreads]
      rfl
  | @returns i call rest hcall =>
    have hpast : call.started ≤ perf v.watch.reads :=
      (hnested i).past call.started (by rw [hcall]; exact List.mem_cons_self)
    refine ⟨fun k => ?_, ?_⟩
    · have htimings : timingsOf (v.log ++ [(i, ((observed perf uuid).leave call v.watch).1)]) k =
          timingsOf v.log k ++ if call.trace = k then
            [⟨call.trace, call.method, call.started, perf v.watch.reads⟩] else [] := by
        by_cases hk : call.trace = k <;> simp [timingsOf, observed, hk]
      rw [htimings]
      by_cases hk : call.trace = k
      · subst hk
        have hrecord := (hv.traces call.trace).record (uuid v.watch.reads)
          (t := ⟨call.trace, call.method, call.started, perf v.watch.reads⟩) hpast
        rwa [if_pos rfl, show ((observed perf uuid).leave call v.watch).2.trace call.trace = _ from
          Function.update_self ..]
      · have hsame := hv.traces k
        rwa [if_neg hk, List.append_nil, show ((observed perf uuid).leave call v.watch).2.trace k =
          v.watch.trace k from Function.update_of_ne (Ne.symm hk) ..]
    · show v.watch.reads + 1 = (v.log ++ [_]).length +
        (v.calls.filterMap fun call => tracedCall call.2.1 call.2.2).length
      rw [List.length_append, List.length_singleton, hv.reads]
      exact Nat.add_right_comm ..

end Runs

/-- The calls of each task that stand in its trace. -/
def labelsOf (v : Sighted) (i : ℕ) : List (ℕ × TimedMethod) :=
  (v.callsOf i).filterMap fun call => tracedCall call.1 call.2

/-- What was measured of the calls that the tasks have made. -/
structure CallsMeasured (base : ℕ → RequestTrace) (v : Sighted) : Prop where
  once : ∀ i, (labelsOf v i).Perm
    ((v.logOf i).map Timing.call ++ (v.notes i).map Running.call)
  nested : ∀ i, ((v.logOf i).map Timing.interval).Pairwise Nests
  faithful : Faithful base v

section Tasks
variable {κ α β σ : Type} (code : Code κ TimedMethod (ℕ × OtherHook) α β (Option ℕ) σ)
  (perf : ℕ → ℚ) (uuid : ℕ → String)

/-- Tasks with the timed methods, from their first points on. -/
def timedTasks (entries : List (Option ℕ × κ)) (shared : σ) (base : ℕ → RequestTrace)
    (steps : List (LoopStep β)) :
    Machine κ TimedMethod Running Timing α β (Option ℕ) σ Traces :=
  run (Machine.turn code (observed perf uuid)) (.start entries shared ⟨base, 0⟩) steps

/-- The same tasks with the methods as they were. -/
def plainTasks (entries : List (Option ℕ × κ)) (shared : σ) (steps : List (LoopStep β)) :
    Machine κ TimedMethod Empty Empty α β (Option ℕ) σ Unit :=
  run (Machine.turn code .bare) (.start entries shared ()) steps

theorem callsMeasured_run (hperf : ∀ a b, a ≤ b → perf a ≤ perf b)
    (entries : List (Option ℕ × κ)) (shared : σ) {base : ℕ → RequestTrace}
    (hfresh : ∀ k, ∀ stage ∈ timedStages, (base k).stages.get? stage = none)
    (steps : List (LoopStep β)) :
    CallsMeasured base (timedTasks code perf uuid entries shared base steps).view := by
  let start : Machine κ TimedMethod Running Timing α β (Option ℕ) σ Traces :=
    .start entries shared ⟨base, 0⟩
  have hnotes : ∀ i, start.view.notes i = [] := notes_start entries shared _
  have hclock : TimesCalls (observed perf uuid) (fun s => perf s.reads) Running.started
      Timing.interval := observed_clocked hperf
  obtain ⟨honce, hnested, hfaithful⟩ := run_view code (w := observed perf uuid)
    (I := fun v => CalledOnce tracedCall Running.call Timing.call v ∧
      Nested (fun s => perf s.reads) Running.started Timing.interval v ∧ Faithful base v)
    (fun v v' hsight ⟨ho, hn, hf⟩ =>
      ⟨ho.sight observed_labelled hsight, hn.sight hclock hsight, hf.sight hsight hn⟩)
    (s := start) steps
    ⟨fun i => by rw [hnotes]; rfl,
      fun i => by rw [hnotes]; exact ⟨nofun, .nil, nofun, .nil, nofun⟩,
      ⟨fun k => ⟨⟨rfl, rfl⟩, hfresh k, (List.append_nil _).symm⟩, rfl⟩⟩
  exact ⟨honce, fun i => (hnested i).nested, hfaithful⟩

/-- **Timed methods behave as the plain ones, and each traced call is measured once.**
The tasks may run in any order, be cancelled, and change their contexts. -/
theorem timed_calls_measured (hperf : ∀ a b, a ≤ b → perf a ≤ perf b)
    (entries : List (Option ℕ × κ)) (shared : σ) (base : ℕ → RequestTrace)
    (hfresh : ∀ k, ∀ stage ∈ timedStages, (base k).stages.get? stage = none)
    (steps : List (LoopStep β)) :
    (timedTasks code perf uuid entries shared base steps).bare =
        plainTasks code entries shared steps ∧
      CallsMeasured base (timedTasks code perf uuid entries shared base steps).view ∧
      ∀ i, (∀ task, (timedTasks code perf uuid entries shared base steps).tasks[i]? = some task →
          ∃ outcome, task.control = .ended outcome) →
        (labelsOf (timedTasks code perf uuid entries shared base steps).view i).Perm
          (((timedTasks code perf uuid entries shared base steps).view.logOf i).map
            Timing.call) := by
  have hmeasured := callsMeasured_run code perf uuid hperf entries shared hfresh steps
  refine ⟨?_, hmeasured, fun i hended => ?_⟩
  · rw [timedTasks, bare_run, bare_start]
    rfl
  · have hnotes :=
      (settled_run code (observed perf uuid) entries shared ⟨base, 0⟩ steps).notes hended
    have honce := hmeasured.once i
    rwa [show (timedTasks code perf uuid entries shared base steps).view.notes i = [] from hnotes,
      List.map_nil, List.append_nil] at honce

end Tasks

/-! ### A cancelled request beside an untraced one -/

def submitEngine : TimedMethod := ⟨"submit_engine", "vllm.v1.engine.async_llm", by decide⟩

def inputProcess : TimedMethod := ⟨"input_process", "vllm.v1.engine.processor", by decide⟩

/-- Submitting processes the input and then waits for the engine. -/
def submitting : Code ℕ TimedMethod (ℕ × OtherHook) String String (Option ℕ) Unit
  | 0, _, context, _ => (.calls submitEngine 1 4, context, ())
  | 1, _, context, _ => (.calls inputProcess 2 3, context, ())
  | 2, _, context, _ => (.ends "tokens", context, ())
  | 3, _, context, _ => (.awaits 5, context, ())
  | 5, .answered answer, context, _ => (.ends answer, context, ())
  | _, .returned outcome, context, _ => (.ends outcome, context, ())
  | point, _, context, _ => (.awaits point, context, ())

/-- The second task goes on while the first one waits, and the first is cancelled. -/
def cancelledSteps : List (LoopStep String) :=
  [.goOn 0, .goOn 0, .goOn 1, .goOn 0, .goOn 0, .goOn 1, .answer 0 "CancelledError", .goOn 0,
    .goOn 0]

def untimedTrace (_ : ℕ) : RequestTrace where
  traceId := "t"
  startedNs := 0
  started := 0
  rootSpanId := "root"

theorem timed_calls_measured_cancelled :
    (timedTasks submitting (·) toString [(some 7, 0), (none, 0)] () untimedTrace
      cancelledSteps).bare = plainTasks submitting [(some 7, 0), (none, 0)] () cancelledSteps ∧
    ((timedTasks submitting (·) toString [(some 7, 0), (none, 0)] () untimedTrace
      cancelledSteps).watch.trace 7).stages.get? "submit_engine" = some ⟨.int 1, .fin 3⟩ := by
  have h := timed_calls_measured submitting (·) toString (fun _ _ hle => by exact_mod_cast hle)
    [(some 7, 0), (none, 0)] () untimedTrace (fun _ _ _ => rfl) cancelledSteps
  refine ⟨h.1, ((h.2.1.faithful.traces 7).stages "submit_engine" (by decide)).trans ?_⟩
  decide +kernel

end VllmObserver.Stages
