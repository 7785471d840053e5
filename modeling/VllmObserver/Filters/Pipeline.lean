import VllmObserver.Exporter.AsyncExport
import VllmObserver.Filters.Console
import VllmObserver.Metrics.Accounting

/-! # The filters of a replica

By default an event is counted, printed and offered for export. The three
filters share nothing but the log, so each of them does what it does alone, and
an event that reaches the chain reaches all of them: those of any concurrent calls
of instrumented applications. -/
namespace VllmObserver.Filters
open VllmObserver.Lib VllmObserver.Core VllmObserver.Exporter VllmObserver.Metrics
  VllmObserver.Middleware

/-- What the filters work on. -/
structure Replica where
  registry : Registry
  log : List Entry := []
  exporter : ExportState Event

/-- How a replica is set up: the client of its metrics, its labels, how the
runtime reads numbers, its console, and how the logger describes an exception. -/
structure Setup where
  client : Client
  reader : Reader
  labels : Labels
  console : Console
  describe : String → PyError → String

namespace Setup
variable (setup : Setup) (settings : TpotSettings)

/-- `logger.exception("Observer filter failed: %s", type(item).__name__)`. -/
def report (typeName : String) (e : PyError) (s : Replica) : Replica :=
  { s with log := s.log ++ [.message (setup.describe typeName e)] }

def metricsFilter : Filter Replica Event where
  typeName := "MetricsFilter"
  process := fun event s =>
    let (registry, result) :=
      Metrics.process setup.client setup.reader settings setup.labels event s.registry
    ({ s with registry := registry }, result.map fun _ => some event)

def consoleFilter : Filter Replica Event where
  typeName := "ConsoleFilter"
  process := fun event s =>
    let (log, result) := setup.console.filter.process event s.log
    ({ s with log := log }, result)

/-- `process` up to the copy of the event. What the copy raises is reported when it
does; this filter is the last one. -/
def exportFilter : Filter Replica Event where
  typeName := "AsyncExportFilter"
  process := fun event s => ({ s with exporter := s.exporter.process event }, .ok (some event))

/-- The filters of a middleware that exports. -/
def filters : List (Filter Replica Event) :=
  [setup.metricsFilter settings, setup.consoleFilter, exportFilter]

theorem filters_transparent : ∀ item ∈ setup.filters settings, item.Transparent := by
  intro item hitem event s
  simp only [filters, List.mem_cons, List.not_mem_nil, or_false] at hitem
  rcases hitem with rfl | rfl | rfl
  · simp only [metricsFilter]
    cases (Metrics.process setup.client setup.reader settings setup.labels event s.registry).2 with
    | ok _ => exact .inl rfl
    | error e => exact .inr ⟨e, rfl⟩
  · exact setup.console.filter_transparent event s.log
  · exact .inl rfl

end Setup

/-! ## Runs of a replica -/

/-- What happens to a replica: an event is handed to its chain, its metrics or
its exporter work, or somebody logs a message. -/
inductive ReplicaOp where
  | handed (settings : TpotSettings) (event : Event)
  | metrics (op : MetricsOp)
  | exporter (op : ExportOp Event)
  | message (text : String)

/-- Only the chain processes events. -/
def ReplicaOp.Ours : ReplicaOp → Prop
  | .metrics (.process _ _) => False
  | .exporter (.process _) => False
  | _ => True

/-- A step of the exporter. The chain logs that a copy has raised. -/
def Replica.exporting (setup : Setup) (s : Replica) (op : ExportOp Event) : Replica :=
  let s' := { s with exporter := s.exporter.apply op }
  if s'.exporter.raised.length = s.exporter.raised.length then s'
  else setup.report Setup.exportFilter.typeName recursionError s'

def Replica.step (setup : Setup) (s : Replica) : ReplicaOp → Replica
  | .handed settings event => chain setup.report (setup.filters settings) event s
  | .metrics op =>
    { s with registry := Metrics.step setup.client setup.reader setup.labels s.registry op }
  | .exporter op => s.exporting setup op
  | .message text => { s with log := s.log ++ [.message text] }

/-- The events that reached the chain. -/
def handedEvents (ops : List ReplicaOp) : List Event :=
  ops.filterMap fun
    | .handed _ event => some event
    | _ => none

/-- What the metrics and the exporter do, as if they were alone. -/
def metricsOps (ops : List ReplicaOp) : List MetricsOp :=
  ops.filterMap fun
    | .handed settings event => some (.process settings event)
    | .metrics op => some op
    | _ => none

def exportOps (ops : List ReplicaOp) : List (ExportOp Event) :=
  ops.filterMap fun
    | .handed _ event => some (.process event)
    | .exporter op => some op
    | _ => none

/-- The lines that the console has printed of events. -/
def printed (log : List Entry) : List String := log.filterMap Entry.line?

section Run
variable {setup : Setup}

theorem printed_append (xs ys : List Entry) : printed (xs ++ ys) = printed xs ++ printed ys :=
  List.filterMap_append

/-- Counting touches the registry only, and the log where it fails. -/
theorem attempt_metrics (setup : Setup) (settings : TpotSettings) (event : Event) (s : Replica) :
    let s' := (setup.metricsFilter settings).attempt setup.report event s
    s'.registry = Metrics.step setup.client setup.reader setup.labels s.registry
        (.process settings event) ∧
    s'.exporter = s.exporter ∧ printed s'.log = printed s.log := by
  simp only [Filter.attempt, Setup.metricsFilter, Metrics.step, MetricsOp.update]
  cases (Metrics.process setup.client setup.reader settings setup.labels event s.registry).2 with
  | ok _ => exact ⟨rfl, rfl, rfl⟩
  | error e => exact ⟨rfl, rfl, (printed_append _ _).trans (List.append_nil _)⟩

theorem attempt_console (setup : Setup) (event : Event) (s : Replica) :
    let s' := setup.consoleFilter.attempt setup.report event s
    s'.registry = s.registry ∧ s'.exporter = s.exporter ∧
    printed s'.log = printed s.log ++ (setup.console.prints event).toList := by
  simp only [Filter.attempt, Setup.consoleFilter, Console.filter, Console.prints]
  cases setup.console.line event with
  | ok line =>
    refine ⟨rfl, rfl, (printed_append _ _).trans (congrArg _ ?_)⟩
    simp only [Console.emit, Except.toOption, Option.filter]
    cases setup.console.encodes line <;> rfl
  | error e => exact ⟨rfl, rfl, printed_append _ _⟩

/-- **An event in the chain reaches all three filters.** -/
theorem chain_filters (settings : TpotSettings) (event : Event) (s : Replica) :
    let s' := chain setup.report (setup.filters settings) event s
    s'.registry = Metrics.step setup.client setup.reader setup.labels s.registry
        (.process settings event) ∧
    s'.exporter = s.exporter.process event ∧
    printed s'.log = printed s.log ++ (setup.console.prints event).toList := by
  intro s'
  have hchain : s' = _ := chain_transparent (setup.filters_transparent settings) event s
  let counted := (setup.metricsFilter settings).attempt setup.report event s
  obtain ⟨hregistry, hexporter, hprinted⟩ := attempt_metrics setup settings event s
  obtain ⟨hregistry', hexporter', hprinted'⟩ := attempt_console setup event counted
  rw [hchain]
  exact ⟨hregistry'.trans hregistry, congrArg (ExportState.process · event)
    (hexporter'.trans hexporter), hprinted'.trans (congrArg (· ++ _) hprinted)⟩

/-- Nothing is printed of an event whose copy raises. -/
theorem exporting_alone (setup : Setup) (s : Replica) (op : ExportOp Event) :
    (s.exporting setup op).registry = s.registry ∧
    (s.exporting setup op).exporter = s.exporter.apply op ∧
    printed (s.exporting setup op).log = printed s.log := by
  unfold Replica.exporting
  dsimp only
  split
  · exact ⟨rfl, rfl, rfl⟩
  · exact ⟨rfl, rfl, (printed_append _ _).trans (List.append_nil _)⟩

theorem step_registry (s : Replica) (op : ReplicaOp) : (s.step setup op).registry =
    run (Metrics.step setup.client setup.reader setup.labels) s.registry (metricsOps [op]) := by
  cases op with
  | handed settings event => exact (chain_filters settings event s).1
  | exporter op => exact (exporting_alone setup s op).1
  | _ => rfl

theorem step_exporter (s : Replica) (op : ReplicaOp) : (s.step setup op).exporter =
    run ExportState.apply s.exporter (exportOps [op]) := by
  cases op with
  | handed settings event => exact (chain_filters settings event s).2.1
  | exporter op => exact (exporting_alone setup s op).2.1
  | _ => rfl

theorem step_printed (s : Replica) (op : ReplicaOp) : printed (s.step setup op).log =
    printed s.log ++ (handedEvents [op]).filterMap setup.console.prints := by
  cases op with
  | handed settings event =>
    refine (chain_filters settings event s).2.2.trans (congrArg _ ?_)
    simp only [handedEvents, List.filterMap_cons, List.filterMap_nil]
    cases setup.console.prints event <;> rfl
  | message text => exact printed_append _ _
  | exporter op => exact (exporting_alone setup s op).2.2.trans (List.append_nil _).symm
  | _ => exact (List.append_nil _).symm

theorem metricsOps_cons (op : ReplicaOp) (rest : List ReplicaOp) :
    metricsOps (op :: rest) = metricsOps [op] ++ metricsOps rest := by
  rw [metricsOps, metricsOps, metricsOps, ← List.filterMap_append]
  rfl

theorem exportOps_cons (op : ReplicaOp) (rest : List ReplicaOp) :
    exportOps (op :: rest) = exportOps [op] ++ exportOps rest := by
  rw [exportOps, exportOps, exportOps, ← List.filterMap_append]
  rfl

theorem handedEvents_cons (op : ReplicaOp) (rest : List ReplicaOp) :
    handedEvents (op :: rest) = handedEvents [op] ++ handedEvents rest := by
  rw [handedEvents, handedEvents, handedEvents, ← List.filterMap_append]
  rfl

/-- **The filters run as if each were alone.** -/
theorem replica_run (setup : Setup) : ∀ (ops : List ReplicaOp) (s : Replica),
    (run (Replica.step setup) s ops).registry =
      run (Metrics.step setup.client setup.reader setup.labels) s.registry (metricsOps ops) ∧
    (run (Replica.step setup) s ops).exporter =
      run ExportState.apply s.exporter (exportOps ops) ∧
    printed (run (Replica.step setup) s ops).log =
      printed s.log ++ (handedEvents ops).filterMap setup.console.prints
  | [], s => ⟨rfl, rfl, (List.append_nil _).symm⟩
  | op :: rest, s => by
    obtain ⟨hregistry, hexporter, hprinted⟩ := replica_run setup rest (s.step setup op)
    refine ⟨?_, ?_, ?_⟩
    · rw [run_cons, hregistry, step_registry, metricsOps_cons op rest, run_append]
    · rw [run_cons, hexporter, step_exporter, exportOps_cons op rest, run_append]
    · rw [run_cons, hprinted, step_printed, List.append_assoc, ← List.filterMap_append,
        ← handedEvents_cons op rest]

/-! ## Every event once -/

/-- Only the chain calls `process`. -/
theorem processed_exportOps : ∀ {ops : List ReplicaOp}, (∀ op ∈ ops, op.Ours) →
    processed (exportOps ops) = handedEvents ops
  | [], _ => rfl
  | op :: rest, hours => by
    have hop := hours op List.mem_cons_self
    have ih := processed_exportOps fun o ho => hours o (List.mem_cons_of_mem op ho)
    cases op with
    | handed settings event => exact congrArg (event :: ·) ih
    | exporter op =>
      cases op with
      | process event => cases hop
      | _ => exact ih
    | _ => exact ih

theorem eventsOf_metricsOps : ∀ {ops : List ReplicaOp}, (∀ op ∈ ops, op.Ours) →
    eventsOf (metricsOps ops) = handedEvents ops
  | [], _ => rfl
  | op :: rest, hours => by
    have hop := hours op List.mem_cons_self
    have ih := eventsOf_metricsOps fun o ho => hours o (List.mem_cons_of_mem op ho)
    cases op with
    | handed settings event => exact congrArg (event :: ·) ih
    | metrics op =>
      cases op with
      | process settings event => cases hop
      | _ => exact ih
    | _ => exact ih

end Run

/-- **Every event that concurrent calls hand over is counted, printed and offered
for export once**, whatever fails: the counters of requests hold the number of
events; the log has the line of each event that can be written and encoded, in
order; and for each the exporter was called once, and the call goes on, has raised
in the copy, or has returned with the event dropped, in the queue, in the sink,
exported or failed there. -/
theorem every_event_filtered {ε κ : Type} [DecidableEq κ] (setup : Setup)
    (hc : setup.client.Documented) (hr : FloatReads setup.reader) {capacity : ℤ}
    {exporter : ExportState Event} (hexporter : ExportState.create capacity = .ok exporter)
    (config : Config) {calls : κ → Call ε} {turns : List (κ × Turn ε)}
    (h : Scheduled calls turns) (hacts : ∀ k, (calls k).app.Instrumented setup.reader)
    {ops : List ReplicaOp} (hours : ∀ op ∈ ops, op.Ours)
    (hhanded : handedEvents ops = (run (Tasks.step config) Tasks.start turns).shared.events) :
    let s := run (Replica.step setup) ⟨create setup.labels, [], exporter⟩ ops
    holdings (fun child => decide (child.1 = requests.name)) s.registry.numbers =
      .fin (handedEvents ops).length ∧
    printed s.log = (handedEvents ops).filterMap setup.console.prints ∧
    (s.exporter.pending ++ s.exporter.raised ++ s.exporter.returned.map Prod.fst).Perm
      (handedEvents ops) ∧
    s.exporter.returned.length = s.exporter.dropped + s.exporter.queue.length +
      s.exporter.worker.hands + s.exporter.successes + s.exporter.failed := by
  intro s
  obtain ⟨hregistry, hexport, hprinted⟩ :=
    replica_run setup ops ⟨create setup.labels, [], exporter⟩
  have hevents : eventsOf (metricsOps ops) = handedEvents ops := eventsOf_metricsOps hours
  have hfinal : s.exporter = run ExportState.apply exporter (exportOps ops) := hexport
  refine ⟨?_, hprinted, ?_, ?_⟩
  · have hg : OfEvents fun child => decide (child.1 = requests.name) := by
      intro child hchild
      refine decide_eq_false fun hname => ?_
      exact hchild (hname ▸ by decide)
    have hrequests : FromRequests setup.reader (metricsOps ops) := by
      refine served_fromRequests config h hacts fun settings event hmem => ?_
      rw [← hhanded, ← hevents]
      exact List.mem_filterMap.mpr ⟨_, hmem, rfl⟩
    rw [hregistry, holdings_events hc hr hg hrequests, holdings_create hg, zero_add, hevents]
    simp only [sum_requests]
    exact sum_ones _
  · have hcalled := called_run (exportOps ops) exporter
    rw [(create_new hexporter).1, List.nil_append, processed_exportOps hours] at hcalled
    rw [hfinal]
    refine List.Perm.trans ?_ hcalled
    rw [List.append_assoc]
    exact List.perm_append_comm.trans (List.perm_append_comm.append_right _)
  · rw [hfinal]
    exact (accounted_run hexporter (exportOps ops)).conserved

/-- A replica that has just been set up, whose console takes no other than ASCII. -/
def sampleSetup : Setup where
  client := counting
  reader := someNumbers
  labels := replica
  console := ⟨fun _ => "0.5", 100, fun line => line.toList.all fun c => decide (c.toNat < 128)⟩
  describe := fun typeName _ => "Observer filter failed: " ++ typeName

def sampleOps : List ReplicaOp :=
  [.handed ⟨none, none⟩ timedEvent, .exporter (.put 0), .message "pushed"]

theorem sampleOps_ours : ∀ op ∈ sampleOps, op.Ours := by
  simp [sampleOps, ReplicaOp.Ours]

theorem every_event_filtered_timed :
    let s := run (Replica.step sampleSetup) ⟨create replica, [], { capacity := 1 }⟩ sampleOps
    holdings (fun child => decide (child.1 = requests.name)) s.registry.numbers = .fin 1 ∧
    s.exporter.returned.length = s.exporter.dropped + s.exporter.queue.length +
      s.exporter.worker.hands + s.exporter.successes + s.exporter.failed := by
  obtain ⟨hcounted, _, _, hexporter⟩ := every_event_filtered sampleSetup
    counting_documented someNumbers_reads (rfl : ExportState.create 1 = .ok { capacity := 1 })
    capturing timedTurns_scheduled (fun _ => timedCall_instrumented) sampleOps_ours
    timedEvent_only
  exact ⟨hcounted, hexporter⟩

end VllmObserver.Filters
