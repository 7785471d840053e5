import VllmObserver.Metrics.Complete

/-! # What the metrics account for

The stages are named by the hooks that record them and once more by the filter.
Two hooks record a stage that the filter does not look for, and the metrics add
up exactly when no request came through them. -/
namespace VllmObserver.Metrics
open VllmObserver.Lib VllmObserver.Core VllmObserver.Exporter VllmObserver.Adapter
  VllmObserver.Middleware

/-- The processed events, in order. -/
def eventsOf (ops : List MetricsOp) : List Event :=
  ops.filterMap fun
    | .process _ event => some event
    | _ => none

/-- The seconds and the counts of a stage over some events. -/
def stageTotals (events : List Event) (stage : String) : Flt :=
  (events.filterMap fun event =>
    (event.stages.get? stage).map fun value => value.totalSeconds.scale 1000).sum

def stageCounts (events : List Event) (stage : String) : Flt :=
  (events.filterMap fun event => (event.stages.get? stage).map fun value => value.count.toFlt).sum

/-- The counters hold what the events carry: of each stage that occurs the
milliseconds and the observations, and over all statuses one for each event. -/
structure Accounted (labels : Labels) (events : List Event) (numbers : Dict Child Flt) : Prop where
  stages : ∀ stage, (∃ event ∈ events, stage ∈ event.stages.keys) →
    balance numbers (stageMs.labels (labels.values ++ [stage])) = stageTotals events stage ∧
    balance numbers (stageCount.labels (labels.values ++ [stage])) = stageCounts events stage
  requests : holdings (fun child => decide (child.1 = requests.name)) numbers = .fin events.length

/-- The stages of hooks that the filter does not look for. -/
def unlisted : List String := ["sampling_params", "output_processor_add"]

/-! ## The counters of a run -/

/-- The counters that `Accounted` is about. -/
def eventCounters : List String := [requests.name, stageMs.name, stageCount.name]

/-- A group of children of these counters. -/
def OfEvents (group : Child → Bool) : Prop := ∀ child, child.1 ∉ eventCounters → group child = false

/-- What an event posts to the counters of its stages and of requests. -/
def postings (labels : Labels) (event : Event) : List (Child × Flt) :=
  (requests.labels (labels.values ++ [statusText event.status]), .fin 1) ::
  increments (processedStages.flatMap (stageChanges labels event))

section Run
variable {client : Client} {reader : Reader} {labels : Labels} {group : Child → Bool}
  {r : Registry}

theorem increments_append (xs ys : List Change) :
    increments (xs ++ ys) = increments xs ++ increments ys := List.filterMap_append

/-- The time for an output token is another matter. -/
theorem postedTo_changesOf (hg : OfEvents group) (threshold : Flt) (event : Event)
    (total : Aggregate.Exported) :
    (postedTo group (increments (changesOf labels threshold event total))).sum =
      (postedTo group (postings labels event)).sum := by
  have hdecode : ∀ entry ∈ increments (decodeChanges labels threshold event),
      group entry.1 = false := by
    intro entry hmem
    obtain ⟨change, hchange, hsome⟩ := List.mem_filterMap.mp hmem
    have hslow : change = .inc (slowTpot.labels [labels.model]) (.fin 1) ∨
        ∃ child amount, change = .observe child amount := by
      unfold decodeChanges at hchange
      split at hchange
      · cases hchange
      · split at hchange
        · cases hchange
        · rcases List.mem_cons.mp hchange with rfl | hchange
          · exact .inr ⟨_, _, rfl⟩
          · split at hchange
            · exact .inl (List.mem_singleton.mp hchange)
            · cases hchange
    rcases hslow with rfl | ⟨child, amount, rfl⟩
    · cases hsome
      exact hg _ (show slowTpot.name ∉ eventCounters by decide)
    · cases hsome
  have hchanges : increments (changesOf labels threshold event total) =
      (requests.labels (labels.values ++ [statusText event.status]), .fin 1) ::
        (increments (decodeChanges labels threshold event) ++
          increments (processedStages.flatMap (stageChanges labels event))) := by
    rw [← increments_append]
    rfl
  rw [hchanges, postings, sum_postedTo_cons, sum_postedTo_cons, postedTo_append, List.sum_append,
    sum_postedTo_of_not hdecode, zero_add]

/-- The group holds `x`. -/
def Holds (group : Child → Bool) (x : Flt) (r : Registry) : Prop := holdings group r.numbers = x

variable {x : Flt} {family : Family}

theorem holds_setNumber (hg : OfEvents group) (hn : family.name ∉ eventCounters)
    {values : List String} (value : Flt) (h : Holds group x r) :
    Holds group x (r.setNumber (family.labels values) value) :=
  (holdings_set_of_not (hg _ hn) value r.numbers).trans h

theorem holds_set (hg : OfEvents group) (hn : family.name ∉ eventCounters)
    {values : List String} {value : Flt} : Keeps (Holds group x) (.set family values value) :=
  fun _ h => holds_setNumber hg hn value h

theorem holds_setRegistered (hg : OfEvents group) (hn : family.name ∉ eventCounters)
    {value : Flt} : Keeps (Holds group x) (setRegistered family value) :=
  .ifRegistered fun _ _ h => holds_setNumber hg hn value h

theorem holds_register (hg : OfEvents group) (hn : family.name ∉ eventCounters) :
    Keeps (Holds group x) (.register family) := by
  intro r h
  unfold Update.register Registry.register
  by_cases hknown : family.name ∈ r.families.map Family.name
  · rw [if_pos hknown]
    exact h
  · rw [if_neg hknown]
    by_cases hl : family.labelNames = []
    · simp only [if_pos hl]
      exact holds_setNumber hg hn 0 h
    · simp only [if_neg hl]
      exact h

theorem added_not_events : ∀ family ∈ exportGauges ++ writerMetrics,
    family.name ∉ eventCounters := by
  decide

/-- What a step posts to the counters of events. -/
def opPostings (labels : Labels) : MetricsOp → List (Child × Flt)
  | .process _ event => postings labels event
  | _ => []

theorem holdings_step (hc : client.Documented) (hr : FloatReads reader) (hg : OfEvents group)
    (r : Registry) {op : MetricsOp} (hop : FromRequests reader [op]) :
    holdings group (step client reader labels r op).numbers =
      holdings group r.numbers + (postedTo group (opPostings labels op)).sum := by
  by_cases hevent : ∃ settings event, op = .process settings event
  · obtain ⟨settings, event, rfl⟩ := hevent
    obtain ⟨stages, hexports⟩ := produced_exports (hop settings event (List.mem_singleton_self _))
    obtain ⟨total, hcountable⟩ := hexports.countable
    obtain ⟨threshold, ht⟩ := threshold_ok hr settings
    have hdone : step client reader labels r (.process settings event) =
        run Registry.record r (changesOf labels threshold event total) :=
      congrArg Prod.fst (performs_process hc hcountable ht r)
    rw [hdone, numbers_record, holdings_run, postedTo_changesOf hg]
    rfl
  · have hkept : Holds group (holdings group r.numbers) (step client reader labels r op) := by
      refine keeps_step (fun settings event heq => absurd ⟨settings, event, heq⟩ hevent)
        (fun value => holds_set hg (by decide)) (holds_set hg (by decide))
        (fun family hmem value => holds_setRegistered hg (added_not_events _ (added_gauges hmem)))
        (fun family hmem => holds_register hg (added_not_events _ hmem)) ?_ r rfl
      refine .ifRegistered fun r hf h => ?_
      rw [Performs.inc hc failures [] one_nonneg r]
      exact holds_setNumber hg (show failures.name ∉ eventCounters by decide) _ h
    have hnothing : opPostings labels op = [] := by
      cases op with
      | process settings event => exact absurd ⟨settings, event, rfl⟩ hevent
      | _ => rfl
    rw [hnothing]
    exact hkept.trans (add_zero _).symm

/-- **The counters of events hold what the events posted.** -/
theorem holdings_events (hc : client.Documented) (hr : FloatReads reader) (hg : OfEvents group) :
    ∀ {ops : List MetricsOp}, FromRequests reader ops → ∀ r,
      holdings group (run (step client reader labels) r ops).numbers =
        holdings group r.numbers +
          ((eventsOf ops).map fun event => (postedTo group (postings labels event)).sum).sum
  | [], _, r => (add_zero _).symm
  | op :: rest, hops, r => by
    have hop : FromRequests reader [op] := fun settings event hmem =>
      hops settings event (by simp [List.mem_singleton.mp hmem])
    have hrest : FromRequests reader rest := fun settings event hmem =>
      hops settings event (List.mem_cons_of_mem _ hmem)
    rw [run_cons, holdings_events hc hr hg hrest, holdings_step hc hr hg r hop, add_assoc]
    congr 1
    cases op with
    | process settings event => rfl
    | _ => exact zero_add _

theorem holdings_create (hg : OfEvents group) (labels : Labels) :
    holdings group (create labels).numbers = 0 := by
  let atInfo := Registry.setNumber {} (info.labels labels.values) (.fin 1)
  let atInflight := atInfo.setNumber (inflight.labels labels.values) 0
  have hinfo : Holds group 0 atInfo :=
    holds_setNumber hg (show info.name ∉ eventCounters by decide) _ rfl
  have hinflight : Holds group 0 atInflight :=
    holds_setNumber hg (show inflight.name ∉ eventCounters by decide) _ hinfo
  exact holds_setNumber hg (show langfuseUnavailable.name ∉ eventCounters by decide) _ hinflight

/-! ## One stage -/

/-- The amounts of a stage that go to one of its two counters. -/
theorem sum_stageChanges {group : Child → Bool} (event : Event) (name : String) :
    (postedTo group (increments (stageChanges labels event name))).sum =
      ((event.stages.get? name).map fun value =>
        (if group (stageMs.labels (labels.values ++ [name])) then
          value.totalSeconds.scale 1000 else 0) +
        (if group (stageCount.labels (labels.values ++ [name])) then value.count.toFlt else 0)).getD
          0 := by
  unfold stageChanges
  cases event.stages.get? name with
  | none => rfl
  | some value =>
    have hincrements : increments [
        .inc (stageMs.labels (labels.values ++ [name])) (value.totalSeconds.scale 1000),
        .inc (stageCount.labels (labels.values ++ [name])) value.count.toFlt,
        .observe (stageDuration.labels [name, labels.model]) (value.meanSeconds.scale 1000)] = [
        (stageMs.labels (labels.values ++ [name]), value.totalSeconds.scale 1000),
        (stageCount.labels (labels.values ++ [name]), value.count.toFlt)] := rfl
    simp only [hincrements, sum_postedTo_cons, Option.map_some, Option.getD_some]
    rw [postedTo, List.filter_nil, List.map_nil, List.sum_nil, add_zero]

theorem labels_inj {family family' : Family} {name stage : String} :
    family.labels (labels.values ++ [name]) = family'.labels (labels.values ++ [stage]) ↔
      family.name = family'.name ∧ name = stage := by
  simp [Family.labels]

/-- What an event posts to a counter of a stage: something if the filter looks
for the stage. -/
theorem sum_postings (labels : Labels) (event : Event) (stage : String) {family : Family}
    {value : Aggregate.Exported → Flt} (hfamily : family.name ≠ requests.name)
    (hvalue : ∀ exported name,
      (if stageMs.labels (labels.values ++ [name]) = family.labels (labels.values ++ [stage]) then
        exported.totalSeconds.scale 1000 else 0) +
      (if stageCount.labels (labels.values ++ [name]) = family.labels (labels.values ++ [stage])
        then exported.count.toFlt else 0) = if name = stage then value exported else 0) :
    (postedTo (fun child => decide (child = family.labels (labels.values ++ [stage])))
      (postings labels event)).sum =
      if stage ∈ processedStages then ((event.stages.get? stage).map value).getD 0 else 0 := by
  have hrequest : requests.labels (labels.values ++ [statusText event.status]) ≠
      family.labels (labels.values ++ [stage]) := fun h => hfamily (labels_inj.mp h).1.symm
  have hflat : increments (processedStages.flatMap (stageChanges labels event)) =
      processedStages.flatMap fun name => increments (stageChanges labels event name) :=
    List.filterMap_flatMap ..
  have hstage : ∀ name, (postedTo
      (fun child => decide (child = family.labels (labels.values ++ [stage])))
      (increments (stageChanges labels event name))).sum =
        if name = stage then ((event.stages.get? name).map value).getD 0 else 0 := by
    intro name
    simp only [sum_stageChanges, decide_eq_true_eq, hvalue]
    cases event.stages.get? name <;> simp
  rw [postings, sum_postedTo_cons, decide_eq_false hrequest, hflat, sum_postedTo_flatMap]
  simp only [hstage]
  rw [sum_map_single (by decide)]
  exact zero_add _

theorem sum_stageMs (labels : Labels) (event : Event) (stage : String) :
    (postedTo (fun child => decide (child = stageMs.labels (labels.values ++ [stage])))
      (postings labels event)).sum =
      if stage ∈ processedStages then
        ((event.stages.get? stage).map fun value => value.totalSeconds.scale 1000).getD 0
      else 0 := by
  refine sum_postings labels event stage (by decide) fun exported name => ?_
  have hcount : stageCount.name ≠ stageMs.name := by decide
  simp [labels_inj, hcount]

theorem sum_stageCount (labels : Labels) (event : Event) (stage : String) :
    (postedTo (fun child => decide (child = stageCount.labels (labels.values ++ [stage])))
      (postings labels event)).sum =
      if stage ∈ processedStages then
        ((event.stages.get? stage).map fun value => value.count.toFlt).getD 0
      else 0 := by
  refine sum_postings labels event stage (by decide) fun exported name => ?_
  have hms : stageMs.name ≠ stageCount.name := by decide
  simp [labels_inj, hms]

/-- Every event is one request. -/
theorem sum_requests (labels : Labels) (event : Event) :
    (postedTo (fun child => decide (child.1 = requests.name)) (postings labels event)).sum =
      .fin 1 := by
  have hstages : ∀ entry ∈ increments (processedStages.flatMap (stageChanges labels event)),
      decide (entry.1.1 = requests.name) = false := by
    intro entry hmem
    obtain ⟨change, hchange, hsome⟩ := List.mem_filterMap.mp hmem
    obtain ⟨name, _, hstage⟩ := List.mem_flatMap.mp hchange
    unfold stageChanges at hstage
    split at hstage
    · cases hstage
    · simp only [List.mem_cons, List.not_mem_nil, or_false] at hstage
      rcases hstage with rfl | rfl | rfl
      · cases hsome
        exact (by decide : decide (stageMs.name = requests.name) = false)
      · cases hsome
        exact (by decide : decide (stageCount.name = requests.name) = false)
      · cases hsome
  rw [postings, sum_postedTo_cons, sum_postedTo_of_not hstages]
  exact add_zero _

/-! ## The law -/

theorem sum_ones : ∀ events : List Event, (events.map fun _ => Flt.fin 1).sum = .fin events.length
  | [] => rfl
  | event :: rest => by
    rw [List.map_cons, List.sum_cons, sum_ones rest, List.length_cons, Nat.cast_add, add_comm]
    rfl

/-- The filter looks for all recorded stages but two. -/
theorem recorded_listed : ∀ stage ∈ recordedStages, stage ∈ processedStages ∨ stage ∈ unlisted := by
  decide

variable {ops : List MetricsOp}

/-- What the counter of a stage holds after a run. -/
theorem balance_stage (hc : client.Documented) (hr : FloatReads reader)
    (hops : FromRequests reader ops) {family : Family} {value : Aggregate.Exported → Flt}
    (hname : family.name ∈ eventCounters) (stage : String)
    (hsum : ∀ event, (postedTo
        (fun child => decide (child = family.labels (labels.values ++ [stage])))
        (postings labels event)).sum =
      if stage ∈ processedStages then ((event.stages.get? stage).map value).getD 0 else 0) :
    balance (run (step client reader labels) (create labels) ops).numbers
        (family.labels (labels.values ++ [stage])) =
      if stage ∈ processedStages then
        ((eventsOf ops).filterMap fun event => (event.stages.get? stage).map value).sum
      else 0 := by
  have hg : OfEvents fun child => decide (child = family.labels (labels.values ++ [stage])) := by
    intro child hchild
    refine decide_eq_false ?_
    rintro rfl
    exact hchild hname
  rw [← holdings_single, holdings_events hc hr hg hops, holdings_create hg, zero_add]
  simp only [hsum]
  split
  · exact sum_map_getD _ _
  · simp

/-- **The metrics account for all requests that came through no other hook.** -/
theorem accounted_iff (hc : client.Documented) (hr : FloatReads reader) (labels : Labels)
    (hops : FromRequests reader ops) :
    Accounted labels (eventsOf ops) (run (step client reader labels) (create labels) ops).numbers ↔
      ∀ event ∈ eventsOf ops, ∀ stage ∈ unlisted, stage ∉ event.stages.keys := by
  have hproduced : ∀ event ∈ eventsOf ops, ∃ stages, Exports event stages := by
    intro event hmem
    obtain ⟨op, hop, hsome⟩ := List.mem_filterMap.mp hmem
    cases op with
    | process settings event' =>
      cases hsome
      exact produced_exports (hops settings event hop)
    | _ => cases hsome
  constructor
  · -- a stage that the filter does not look for was counted, but stands at zero
    intro h event hmem stage hstage hkey
    obtain ⟨stages, hexports⟩ := hproduced event hmem
    obtain ⟨value, hvalue⟩ := Dict.mem_keys_iff.mp hkey
    obtain ⟨a, ha, rfl⟩ := hexports.get?.mp hvalue
    have hcounted : a.count.toFlt.AtLeast 1 := (hexports.tallied stage a ha).counted (by
      rintro rfl
      exact absurd hstage (by decide))
    have hunlisted : stage ∉ processedStages := by
      intro hlisted
      simp only [unlisted, List.mem_cons, List.not_mem_nil, or_false] at hstage
      rcases hstage with rfl | rfl
      · exact absurd hlisted (by decide)
      · exact absurd hlisted (by decide)
    have hzero : stageCounts (eventsOf ops) stage = 0 := by
      rw [← (h.stages stage ⟨event, hmem, hkey⟩).2,
        balance_stage hc hr hops (by decide) stage fun event => sum_stageCount labels event stage,
        if_neg hunlisted]
    have hone : (stageCounts (eventsOf ops) stage).AtLeast 1 := by
      refine Flt.sum_atLeast hcounted ?_ (List.mem_filterMap.mpr ⟨event, hmem, by rw [hvalue]; rfl⟩)
      intro y hy
      obtain ⟨event', hmem', hy⟩ := List.mem_filterMap.mp hy
      obtain ⟨value', hvalue', rfl⟩ := Option.map_eq_some_iff.mp hy
      obtain ⟨stages', hexports'⟩ := hproduced event' hmem'
      obtain ⟨b, hb, rfl⟩ := hexports'.get?.mp hvalue'
      exact (hexports'.tallied stage b hb).count
    rw [hzero] at hone
    exact absurd (Flt.atLeast_fin.mp hone) (by norm_num)
  · intro h
    constructor
    · rintro stage ⟨event, hmem, hkey⟩
      have hlisted : stage ∈ processedStages := by
        obtain ⟨stages, hexports⟩ := hproduced event hmem
        obtain ⟨value, hvalue⟩ := Dict.mem_keys_iff.mp hkey
        obtain ⟨a, ha, rfl⟩ := hexports.get?.mp hvalue
        exact (recorded_listed stage (hexports.tallied stage a ha).recorded).resolve_right
          fun hun => h event hmem stage hun hkey
      refine ⟨(balance_stage hc hr hops (by decide) stage fun event =>
          sum_stageMs labels event stage).trans (if_pos hlisted),
        (balance_stage hc hr hops (by decide) stage fun event =>
          sum_stageCount labels event stage).trans (if_pos hlisted)⟩
    · have hg : OfEvents fun child => decide (child.1 = requests.name) := by
        intro child hchild
        refine decide_eq_false ?_
        intro hname
        exact hchild (hname ▸ by decide)
      rw [holdings_events hc hr hg hops, holdings_create hg, zero_add]
      simp only [sum_requests]
      exact sum_ones (eventsOf ops)

end Run

/-- One request, processed. -/
def processing (event : Event) : List MetricsOp := [.process ⟨none, none⟩ event]

theorem processing_timed : FromRequests someNumbers (processing timedEvent) := by
  refine timedEvent_fromRequests fun settings event hmem => ?_
  cases List.mem_singleton.mp hmem
  rfl

theorem accounted_timed : Accounted replica [timedEvent]
    (run (step counting someNumbers replica) (create replica) (processing timedEvent)).numbers :=
  (accounted_iff counting_documented someNumbers_reads replica processing_timed).mpr
    (by decide +kernel)

/-- A request that was given its sampling parameters. -/
def sampledTrace : RequestTrace :=
  run (Work.apply someNumbers) { traceId := "t", startedNs := 0, started := 1, rootSpanId := "r" }
    [.timed .samplingParams (.float (.fin (1 / 4)))]

def sampledNumbers : Dict Child Flt :=
  (run (step counting someNumbers replica) (create replica)
    (processing (sampledTrace.finish 3))).numbers

/-- Its stage took 250 ms, and the metrics do not have it. -/
theorem sampling_unaccounted :
    Produced someNumbers (sampledTrace.finish 3) ∧
    stageTotals [sampledTrace.finish 3] "sampling_params" = .fin 250 ∧
    stageCounts [sampledTrace.finish 3] "sampling_params" = .fin 1 ∧
    sampledNumbers.get? (stageMs.labels (replica.values ++ ["sampling_params"])) = none ∧
    sampledNumbers.get? (stageCount.labels (replica.values ++ ["sampling_params"])) = none ∧
    ¬ Accounted replica [sampledTrace.finish 3] sampledNumbers := by
  have htotal : stageTotals [sampledTrace.finish 3] "sampling_params" = .fin 250 := by
    decide +kernel
  have hnone : sampledNumbers.get? (stageMs.labels (replica.values ++ ["sampling_params"])) =
      none := by decide +kernel
  refine ⟨⟨sampledTrace, 3, reachable_works (.start rfl) _, rfl⟩, htotal, by decide +kernel, hnone,
    by decide +kernel, fun h => ?_⟩
  have hstage := (h.stages "sampling_params"
    ⟨_, List.mem_singleton_self _, by decide +kernel⟩).1
  rw [htotal, balance, hnone] at hstage
  cases hstage

end VllmObserver.Metrics
