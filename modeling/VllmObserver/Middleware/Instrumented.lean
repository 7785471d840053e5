import VllmObserver.Adapter.Aggregates
import VllmObserver.Middleware.Concurrent

/-! # Instrumented applications

What the hooks of the API process and the adapter do to the trace of a request
while its application runs. None of it writes the trace id or the status, and
the aggregates remain such as counters accept. -/
namespace VllmObserver.Middleware
open VllmObserver.Lib VllmObserver.Core VllmObserver.Stages VllmObserver.Adapter

/-- The stages that are added once a call, with the count 1. -/
inductive TimedStage where
  | httpFirstBody
  | renderInput
  | samplingParams
  | inputProcess
  | submitEngine
  | outputProcessorAdd
deriving DecidableEq

def TimedStage.name : TimedStage → String
  | httpFirstBody => "http_first_body"
  | renderInput => "render_input"
  | samplingParams => "sampling_params"
  | inputProcess => "input_process"
  | submitEngine => "submit_engine"
  | outputProcessorAdd => "output_processor_add"

/-- One piece of instrumentation. A timed call adds its duration, whatever the
clock gives, and then its interval. -/
inductive Work where
  | timed (stage : TimedStage) (duration : Number)
  | apiInterval (uuid name : String) (startedPerf endedPerf : ℚ) (metadata : List (String × Json))
  | begin (uuid requestId : String) (perf : ℚ)
  | finished (uuid : ℕ → String) (perf : ℕ → ℚ) (gen : ℕ) (stat : FinishedStat) (raw : RawStats)
  | broken (gen : ℕ) (status : String)
  | close (gen : ℕ) (perf : ℚ)

def Work.apply (reader : Reader) (trace : RequestTrace) : Work → RequestTrace
  | .timed stage duration => trace.add stage.name duration
  | .apiInterval uuid name startedPerf endedPerf metadata =>
    trace.apiInterval uuid name startedPerf endedPerf metadata
  | .begin uuid requestId perf => trace.beginGeneration uuid requestId perf
  | .finished uuid perf gen stat raw => observedUpdate reader uuid perf gen stat raw trace
  | .broken gen status => (setMetadata gen [("status", .str status)] trace).1
  | .close gen perf => closeGeneration gen perf trace

section Work
variable {sums : Dict String Aggregate → Prop} {base trace : RequestTrace}

theorem TimedStage.recorded (stage : TimedStage) : stage.name ∈ recordedStages := by
  cases stage <;> decide

theorem tracked_apiInterval (h : Tracked sums base trace) (uuid name : String) (a b : ℚ)
    (metadata : List (String × Json)) :
    Tracked sums base (trace.apiInterval uuid name a b metadata) := by
  unfold RequestTrace.apiInterval
  simp only
  split
  · exact ⟨h.traceId, h.parentSpanId, h.status, h.stages⟩
  · exact h

/-- **No instrumentation changes what a trace is.** -/
theorem tracked_work (hsums : Additive sums) (h : Tracked sums base trace) (reader : Reader)
    (work : Work) : Tracked sums base (work.apply reader trace) := by
  cases work with
  | timed stage duration => exact Tracked.add hsums h stage.recorded duration (counts_one _)
  | apiInterval uuid name startedPerf endedPerf metadata =>
    exact tracked_apiInterval h uuid name startedPerf endedPerf metadata
  | begin uuid requestId perf => exact Tracked.blind _ _ h
  | finished uuid perf gen stat raw =>
    exact Tracked.observedUpdate hsums h reader uuid perf gen stat raw
  | broken gen status => exact Tracked.blind _ _ h
  | close gen perf => exact Tracked.blind _ _ h

theorem additive_true : Additive fun _ => True := fun _ _ _ _ _ _ _ => ⟨trivial, trivial⟩

theorem tracked_self (h : sums trace.stages) : Tracked sums trace trace := ⟨rfl, rfl, rfl, h⟩

/-- Work that runs inside the application. -/
def Work.hook (reader : Reader) (work : Work) : Hook where
  run := fun trace => work.apply reader trace
  status := fun trace =>
    have h : Tracked (fun _ => True) trace trace := tracked_self trivial
    (tracked_work additive_true h reader work).status

end Work

/-! ## Runs of an instrumented application -/

/-- What an instrumented application does. -/
inductive Act where
  | receive (message : ReceiveMessage)
  | send (message : SendMessage) (firstBody now : ℚ)
  | work (piece : Work)

def Act.op (reader : Reader) : Act → Op
  | .receive message => .receive message
  | .send message firstBody now => .send message firstBody now
  | .work piece => .hook (piece.hook reader)

/-- The application does nothing else to its trace. -/
def App.Instrumented {ε : Type} (reader : Reader) (app : App ε) : Prop :=
  ∃ acts : List Act, app.ops = acts.map (Act.op reader)

/-- The traces of instrumented requests. The middleware also writes the status,
the time of the first body and the captured content. -/
inductive Reachable (reader : Reader) : RequestTrace → Prop
  | start {trace : RequestTrace} (h : trace.stages = Dict.empty) : Reachable reader trace
  | work {trace : RequestTrace} (h : Reachable reader trace) (piece : Work) :
      Reachable reader (piece.apply reader trace)
  | other {trace trace' : RequestTrace} (h : Reachable reader trace)
      (hs : trace'.stages = trace.stages) : Reachable reader trace'

/-- The event of a reachable trace, with the labels of the instance. -/
def Produced (reader : Reader) (event : Event) : Prop :=
  ∃ trace perf, Reachable reader trace ∧ event =
    { trace.finish perf with
      service := event.service, model := event.model, instanceId := event.instanceId }

section Reachable
variable {reader : Reader}

/-- **Every aggregate of a reachable trace is one that counters accept.** -/
theorem Reachable.tallied {trace : RequestTrace} (h : Reachable reader trace) :
    Tallied trace.stages := by
  induction h with
  | start h =>
    rw [h]
    exact Tallied.empty
  | work _ piece ih => exact (tracked_work tallied_additive (tracked_self ih) reader piece).stages
  | other _ hs ih =>
    rw [hs]
    exact ih

theorem reachable_works {trace : RequestTrace} (h : Reachable reader trace) (works : List Work) :
    Reachable reader (run (Work.apply reader) trace works) :=
  run_invariant_all _ (fun _ piece h => h.work piece) h

theorem reachable_step {capture : Bool} {s : Exchange} (h : Reachable reader s.trace) (act : Act) :
    Reachable reader (s.step capture (act.op reader)).trace := by
  cases act with
  | receive message => cases message with
    | request body _ =>
      cases capture
      · exact h
      · exact h
    | disconnect =>
      simp only [Act.op, Exchange.step, Exchange.tracedReceive]
      split
      · exact h
      · exact .other h rfl
  | send message firstBody now => cases message with
    | start status headers =>
      simp only [Act.op, Exchange.step, Exchange.tracedSend]
      split
      · exact .other h rfl
      · exact h
    | body body moreBody =>
      simp only [Act.op, Exchange.step, Exchange.tracedSend]
      split
      · exact .other (h.work (.timed .httpFirstBody _)) rfl
      · exact h
    | other type => exact h
  | work piece => exact h.work piece

theorem reachable_run {capture : Bool} : ∀ (acts : List Act) {s : Exchange},
    Reachable reader s.trace →
      Reachable reader (run (Exchange.step capture) s (acts.map (Act.op reader))).trace
  | [], _, h => h
  | act :: rest, _, h => reachable_run rest (reachable_step h act)

/-- **The events that a call hands over are those of reachable traces.** -/
theorem call_produced {ε : Type} {config : Config} {c : Call ε}
    (hpath : c.scope.path ∈ paths) (hacts : c.app.Instrumented reader) (server : Server) :
    ∀ event ∈ (c.serve config server).1.events,
      event ∈ server.events ∨ Produced reader event := by
  obtain ⟨acts, hacts⟩ := hacts
  have hrun : Reachable reader (config.exchange c.scope c.readings c.app.ops).trace := by
    rw [hacts]
    exact reachable_run acts (.start rfl)
  have hnew : ∀ trace,
      trace.stages = (config.exchange c.scope c.readings c.app.ops).trace.stages →
      ∀ event ∈ server.events ++ [config.event trace c.readings],
        event ∈ server.events ∨ Produced reader event := by
    intro trace hs event hmem
    rcases List.mem_append.mp hmem with hmem | hmem
    · exact .inl hmem
    · rw [List.mem_singleton.mp hmem]
      exact .inr ⟨trace, c.readings.ended, .other hrun hs, rfl⟩
  rw [serve_observed hpath, Config.observe, Config.conclude]
  simp only
  split
  · split
    · exact fun event hmem => .inl hmem
    · exact hnew _ rfl
  · exact hnew _ rfl

/-- **So are those of concurrent calls**, in whatever order they take their turns. -/
theorem tasks_produced {ε κ : Type} [DecidableEq κ] (config : Config) {calls : κ → Call ε}
    {turns : List (κ × Turn ε)} (h : Scheduled calls turns)
    (hacts : ∀ k, (calls k).app.Instrumented reader) :
    ∀ event ∈ (run (Tasks.step config) Tasks.start turns).shared.events,
      Produced reader event := by
  intro event hmem
  rw [(shared_run config h).1] at hmem
  obtain ⟨k, _, hk⟩ := List.mem_flatMap.mp hmem
  by_cases hpath : (calls k).scope.path ∈ paths
  · rcases call_produced hpath (hacts k) idle event hk with hidle | hproduced
    · cases hidle
    · exact hproduced
  · rw [(serve_passing config hpath idle).1] at hk
    cases hk

end Reachable

end VllmObserver.Middleware
