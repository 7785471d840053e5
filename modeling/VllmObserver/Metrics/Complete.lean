import VllmObserver.Metrics.Sound
import VllmObserver.Middleware.Instrumented

/-! # No update stops half-way

The clamps of the adapter and of the aggregates keep every count and every sum
from becoming negative, and `finish` adds the total. So the filter comes to the
end of every event, and its counters only rise. -/
namespace VllmObserver.Metrics
open VllmObserver.Lib VllmObserver.Core VllmObserver.Exporter VllmObserver.Adapter
  VllmObserver.Middleware

/-! ## The events of requests -/

/-- An event of a request exports the aggregates of recorded stages. -/
structure Exports (event : Event) (stages : Dict String Aggregate) : Prop where
  tallied : Tallied stages
  exported : event.stages = stages.mapValues fun _ a => a.toExported
  total : ∃ a, stages.get? "http_total" = some a

section Events
variable {reader : Reader} {event : Event} {stages : Dict String Aggregate}

theorem produced_exports (h : Produced reader event) : ∃ stages, Exports event stages := by
  obtain ⟨trace, perf, hreach, heq⟩ := h
  have hs : event.stages = (trace.finish perf).stages := (congrArg Event.stages heq :)
  refine ⟨(trace.add "http_total" (.float (.fin (perf - trace.started)))).stages, ?_, hs, ?_⟩
  · exact (tallied_additive _ _ _ _ hreach.tallied (by decide) (counts_one _)).1
  · exact ⟨_, (Dict.get?_set ..).trans (if_pos rfl)⟩

theorem Exports.get? (h : Exports event stages) {name : String} {value : Aggregate.Exported} :
    event.stages.get? name = some value ↔
      ∃ a, stages.get? name = some a ∧ value = a.toExported := by
  rw [h.exported, Dict.get?_mapValues, Option.map_eq_some_iff]
  simp only [eq_comm]

theorem Exports.countable (h : Exports event stages) : ∃ total, Countable event total := by
  obtain ⟨a, ha⟩ := h.total
  refine ⟨a.toExported, h.get?.mpr ⟨a, ha, rfl⟩, fun name value hvalue => ?_⟩
  obtain ⟨b, hb, rfl⟩ := h.get?.mp hvalue
  exact ⟨(h.tallied name b hb).count, (h.tallied name b hb).total⟩

end Events

/-! ## Counters -/

def counterNames : List String :=
  [requests.name, stageMs.name, stageCount.name, slowTpot.name, failures.name]

/-- No counter is negative. -/
def Counting (numbers : Dict Child Flt) : Prop :=
  ∀ child x, child.1 ∈ counterNames → numbers.get? child = some x → x.Nonneg

/-- No counter has become less. -/
def Risen (before after : Dict Child Flt) : Prop :=
  ∀ child x, child.1 ∈ counterNames → before.get? child = some x →
    ∃ y, after.get? child = some y ∧ x.le y = true

/-- A sound registry whose counters have risen since `base`. -/
structure Rose (labels : Labels) (base r : Registry) : Prop where
  sound : Sound labels r
  counting : Counting r.numbers
  risen : Risen base.numbers r.numbers

section Counters
variable {labels : Labels} {base r : Registry} {numbers : Dict Child Flt}

theorem Risen.refl (h : Counting numbers) : Risen numbers numbers :=
  fun child x hc hx => ⟨x, hx, Flt.le_refl_of_nonneg (h child x hc hx)⟩

theorem Risen.trans {a b c : Dict Child Flt} (h : Risen a b) (h' : Risen b c) : Risen a c := by
  intro child x hc hx
  obtain ⟨y, hy, hle⟩ := h child x hc hx
  obtain ⟨z, hz, hle'⟩ := h' child y hc hy
  exact ⟨z, hz, Flt.le_trans hle hle'⟩

/-- A counter takes an amount that is not negative. -/
theorem risen_post (h : Counting numbers) (child : Child) {amount : Flt} (ha : amount.Nonneg) :
    Counting (post numbers (child, amount)) ∧ Risen numbers (post numbers (child, amount)) := by
  have hbalance : child.1 ∈ counterNames → (balance numbers child).Nonneg := by
    intro hc
    unfold balance
    cases hx : numbers.get? child with
    | none => exact rfl
    | some x => exact h child x hc hx
  constructor
  · intro child' x hc hx
    rcases Dict.get?_set_some hx with ⟨rfl, rfl⟩ | ⟨_, hx⟩
    · exact (hbalance hc).add ha
    · exact h child' x hc hx
  · intro child' x hc hx
    rw [post, Dict.get?_set]
    split
    · rename_i heq
      subst heq
      refine ⟨_, rfl, ?_⟩
      rw [balance, hx]
      exact Flt.le_add (h child' x hc hx) ha
    · exact ⟨x, hx, Flt.le_refl_of_nonneg (h child' x hc hx)⟩

theorem risen_run : ∀ (entries : List (Child × Flt)) {numbers : Dict Child Flt},
    Counting numbers → (∀ entry ∈ entries, entry.2.Nonneg) →
      Counting (run post numbers entries) ∧ Risen numbers (run post numbers entries)
  | [], _, h, _ => ⟨h, .refl h⟩
  | entry :: rest, _, h, ha => by
    obtain ⟨hcount, hrise⟩ := risen_post h entry.1 (ha entry List.mem_cons_self)
    obtain ⟨hcount', hrise'⟩ := risen_run rest hcount fun e he => ha e (List.mem_cons_of_mem _ he)
    exact ⟨hcount', hrise.trans hrise'⟩

/-- Gauges are no counters. -/
theorem risen_set (h : Counting numbers) {child : Child} (hc : child.1 ∉ counterNames)
    (value : Flt) :
    Counting (numbers.set child value) ∧ Risen numbers (numbers.set child value) := by
  have hother : ∀ child' : Child, child'.1 ∈ counterNames →
      (numbers.set child value).get? child' = numbers.get? child' := by
    intro child' hc'
    rw [Dict.get?_set, if_neg]
    rintro rfl
    exact hc hc'
  refine ⟨fun child' x hc' hx => h child' x hc' (hother child' hc' ▸ hx), fun child' x hc' hx => ?_⟩
  exact ⟨x, (hother child' hc').trans hx, Flt.le_refl_of_nonneg (h child' x hc' hx)⟩

/-- A child that was not there begins with nothing. -/
theorem risen_new (h : Counting numbers) {child : Child} (hnew : child ∉ numbers.keys) :
    Counting (numbers.set child 0) ∧ Risen numbers (numbers.set child 0) := by
  constructor
  · intro child' x hc hx
    rcases Dict.get?_set_some hx with ⟨rfl, rfl⟩ | ⟨_, hx⟩
    · rfl
    · exact h child' x hc hx
  · intro child' x hc hx
    refine ⟨x, ?_, Flt.le_refl_of_nonneg (h child' x hc hx)⟩
    rw [Dict.get?_set, if_neg, hx]
    rintro rfl
    exact hnew (Dict.mem_keys_iff.mpr ⟨x, hx⟩)

theorem Rose.next (h : Rose labels base r) {r' : Registry} (hs : Sound labels r')
    (hr : Counting r'.numbers ∧ Risen r.numbers r'.numbers) : Rose labels base r' :=
  ⟨hs, hr.1, h.risen.trans hr.2⟩

/-! ## The updates -/

theorem rises_set {family : Family} {value : Flt} {values : List String}
    (hs : Keeps (Sound labels) (.set family values value)) (hn : family.name ∉ counterNames) :
    Keeps (Rose labels base) (.set family values value) :=
  fun r h => h.next (hs r h.sound) (risen_set h.counting hn value)

theorem gauges_not_counters : ∀ family ∈ addedGauges, family.name ∉ counterNames := by decide

theorem rises_setRegistered {family : Family} {value : Flt} (hk : family.kind ≠ .histogram)
    (hl : family.labelNames = []) (hn : family.name ∉ counterNames) :
    Keeps (Rose labels base) (setRegistered family value) :=
  .ifRegistered fun _ hf h =>
    h.next (h.sound.setNumber hf hk (childOf_nil hl) value) (risen_set h.counting hn value)

/-- A metric is registered before it has a child. -/
theorem Sound.unregistered (h : Sound labels r) {family : Family}
    (hn : family.name ∉ r.families.map Family.name) (values : List String) :
    family.labels values ∉ r.numbers.keys := by
  intro hmem
  obtain ⟨family', hf, _, hc⟩ := h.numbers _ hmem
  exact hn (List.mem_map.mpr ⟨family', hf, hc.name.symm⟩)

theorem rises_register {family : Family} (hm : family ∈ allMetrics)
    (hk : family.kind ≠ .histogram) (hl : family.labelNames = []) :
    Keeps (Rose labels base) (.register family) := by
  intro r h
  have hsound := keeps_register hm hk hl r h.sound
  refine h.next hsound ?_
  unfold Update.register Registry.register
  by_cases hn : family.name ∈ r.families.map Family.name
  · rw [if_pos hn]
    exact ⟨h.counting, .refl h.counting⟩
  · rw [if_neg hn]
    simp only [if_pos hl]
    exact risen_new h.counting (h.sound.unregistered hn [])

/-- What counters take of a countable event is not negative. -/
theorem increments_nonneg {event : Event} {total : Aggregate.Exported} {threshold : Flt}
    (h : Countable event total) :
    ∀ entry ∈ increments (changesOf labels threshold event total), entry.2.Nonneg := by
  have hinc : ∀ change ∈ changesOf labels threshold event total, ∀ child amount,
      change = .inc child amount → amount.Nonneg := by
    intro change hmem child amount heq
    subst heq
    simp only [changesOf, List.cons_append, List.mem_cons, List.mem_append,
      List.mem_flatMap] at hmem
    rcases hmem with heq | heq | hdecode | ⟨name, _, hstage⟩
    · cases heq
      exact one_nonneg
    · cases heq
    · unfold decodeChanges at hdecode
      split at hdecode
      · cases hdecode
      · split at hdecode
        · cases hdecode
        · simp only [List.mem_cons] at hdecode
          rcases hdecode with heq | hslow
          · cases heq
          · split at hslow
            · cases List.mem_singleton.mp hslow
              exact one_nonneg
            · cases hslow
    · unfold stageChanges at hstage
      split at hstage
      · cases hstage
      · rename_i value hvalue
        obtain ⟨hcount, hseconds⟩ := h.nonneg name value hvalue
        simp only [List.mem_cons, List.not_mem_nil, or_false] at hstage
        rcases hstage with heq | heq | heq
        · cases heq
          exact hseconds.scale (by norm_num)
        · cases heq
          exact hcount
        · cases heq
  intro entry hmem
  obtain ⟨change, hchange, hsome⟩ := List.mem_filterMap.mp hmem
  cases change with
  | inc child amount =>
    cases hsome
    exact hinc _ hchange child amount rfl
  | observe child amount => cases hsome

theorem rises_process {client : Client} (hc : client.Documented) {reader : Reader}
    (hr : FloatReads reader) (settings : TpotSettings) {event : Event}
    (h : Produced reader event) :
    Keeps (Rose labels base) (process client reader settings labels event) := by
  intro r hrose
  obtain ⟨stages, hexports⟩ := produced_exports h
  obtain ⟨total, hcountable⟩ := hexports.countable
  obtain ⟨threshold, ht⟩ := threshold_ok hr settings
  refine hrose.next (keeps_process client reader settings labels event r hrose.sound) ?_
  rw [performs_process hc hcountable ht r, numbers_record]
  exact risen_run _ hrose.counting (increments_nonneg hcountable)

end Counters

/-! ## Runs -/

/-- The events that are processed are those of instrumented requests. -/
def FromRequests (reader : Reader) (ops : List MetricsOp) : Prop :=
  ∀ settings event, .process settings event ∈ ops → Produced reader event

section Runs
variable {client : Client} {reader : Reader} {labels : Labels} {base r : Registry}

theorem Rose.step (hc : client.Documented) (hr : FloatReads reader) (h : Rose labels base r)
    {op : MetricsOp} (hop : FromRequests reader [op]) :
    Rose labels base (Metrics.step client reader labels r op) := by
  refine keeps_step ?_
    (fun value => rises_set (keeps_set (by decide) (by decide) (childOf_values rfl)) (by decide))
    (rises_set (keeps_set (by decide) (by decide) (childOf_nil rfl)) (by decide)) ?_ ?_ ?_ r h
  · rintro settings event rfl
    exact rises_process hc hr settings (hop settings event (List.mem_singleton_self _))
  · intro family hmem value
    obtain ⟨_, hk, hl⟩ := added_metrics family (added_gauges hmem)
    exact rises_setRegistered hk hl (gauges_not_counters family hmem)
  · intro family hmem
    obtain ⟨hm, hk, hl⟩ := added_metrics family hmem
    exact rises_register hm hk hl
  · refine Keeps.ifRegistered fun r hf h => ?_
    rw [Performs.inc hc failures [] one_nonneg r]
    exact h.next (h.sound.setNumber hf (by decide) (childOf_nil rfl) _)
      (risen_post h.counting _ one_nonneg)

theorem counting_create (labels : Labels) : Counting (create labels).numbers := by
  intro child x hc hx
  have hmem := Dict.mem_keys_iff.mpr ⟨x, hx⟩
  simp only [create, Dict.ofList, Dict.mem_keys_update, List.map_cons, List.map_nil,
    List.mem_cons, List.not_mem_nil, or_false, Dict.keys_empty] at hmem
  rcases hmem with rfl | rfl | rfl
  · exact absurd hc (show info.name ∉ counterNames by decide)
  · exact absurd hc (show Metrics.inflight.name ∉ counterNames by decide)
  · exact absurd hc (show langfuseUnavailable.name ∉ counterNames by decide)

theorem rose_run (hc : client.Documented) (hr : FloatReads reader) {ops : List MetricsOp}
    (hops : FromRequests reader ops) (h : Rose labels base r) :
    Rose labels base (run (step client reader labels) r ops) :=
  run_invariant _ (fun _ _ h hop => h.step hc hr hop)
    (RunMeets.of_forall _ _ fun op hmem settings event hop => by
      obtain rfl := List.mem_singleton.mp hop
      exact hops settings event hmem) h

/-- Concurrent calls of instrumented applications hand over such events. -/
theorem served_fromRequests {ε κ : Type} [DecidableEq κ] (config : Config) {calls : κ → Call ε}
    {turns : List (κ × Turn ε)} (h : Scheduled calls turns)
    (hacts : ∀ k, (calls k).app.Instrumented reader) {ops : List MetricsOp}
    (hops : ∀ settings event, .process settings event ∈ ops →
      event ∈ (run (Tasks.step config) Tasks.start turns).shared.events) :
    FromRequests reader ops :=
  fun settings event hmem => tasks_produced config h hacts event (hops settings event hmem)

theorem rose_self (hs : Sound labels r) (hc : Counting r.numbers) : Rose labels r r :=
  ⟨hs, hc, .refl hc⟩

/-- **No metrics update stops half-way.** -/
theorem metrics_complete (hc : client.Documented) (hr : FloatReads reader) (labels : Labels) :
    (∀ trace, Reachable reader trace → ∀ stage a, trace.stages.get? stage = some a →
      a.count.toFlt.Nonneg ∧ a.totalSeconds.Nonneg) ∧
    ∀ ops, FromRequests reader ops → ∀ before op after, ops = before ++ op :: after →
      let r := run (step client reader labels) (create labels) before
      let r' := step client reader labels r op
      Risen r.numbers r'.numbers ∧
      ∀ settings event, op = .process settings event → ∃ total threshold,
        event.stages.get? "http_total" = some total ∧
        tpotThresholdSeconds reader settings = .ok threshold ∧
        process client reader settings labels event r =
          (run Registry.record r (changesOf labels threshold event total), .ok ()) := by
  refine ⟨fun trace h stage a ha =>
    ⟨(h.tallied stage a ha).count, (h.tallied stage a ha).total⟩, ?_⟩
  rintro ops hops before op after rfl r r'
  have hbefore : FromRequests reader before :=
    fun settings event hmem => hops settings event (List.mem_append_left _ hmem)
  have hop : FromRequests reader [op] := fun settings event hmem =>
    hops settings event (by simp [List.mem_singleton.mp hmem])
  have hrose := rose_run hc hr hbefore (rose_self (sound_create labels) (counting_create labels))
  refine ⟨((rose_self hrose.sound hrose.counting).step hc hr hop).risen, ?_⟩
  rintro settings event rfl
  obtain ⟨stages, hexports⟩ := produced_exports (hop settings event (List.mem_singleton_self _))
  obtain ⟨total, hcountable⟩ := hexports.countable
  obtain ⟨threshold, ht⟩ := threshold_ok hr settings
  exact ⟨total, threshold, hcountable.total, ht, performs_process hc hcountable ht r⟩

end Runs

/-- A request whose first timer goes back and whose second gives no number. -/
def timedCall : Call String where
  scope := chatScope
  readings := readings
  app :=
    ⟨[Act.work (.timed .renderInput (.float (.fin (-3)))),
      .work (.timed .inputProcess (.float .nan))].map (Act.op someNumbers), .returned⟩

/-- The call, which nothing interrupts. -/
def timedTurns : List (Unit × Turn String) := timedCall.program.map (Prod.mk ())

theorem timedTurns_scheduled : Scheduled (fun _ => timedCall) timedTurns := by
  intro k
  rw [timedTurns, project_same]

theorem timedCall_instrumented : timedCall.app.Instrumented someNumbers := ⟨_, rfl⟩

/-- The event that the call hands over. -/
def timedEvent : Event :=
  (run (Tasks.step capturing) Tasks.start timedTurns).shared.events.head (by decide +kernel)

theorem timedEvent_only :
    [timedEvent] = (run (Tasks.step capturing) Tasks.start timedTurns).shared.events := by
  have hlength :
      (run (Tasks.step capturing) Tasks.start timedTurns).shared.events.length = 1 := by
    decide +kernel
  obtain ⟨event, hevent⟩ := List.length_eq_one_iff.mp hlength
  simp only [timedEvent, hevent, List.head_cons]

theorem timedEvent_fromRequests {ops : List MetricsOp}
    (hops : ∀ settings event, .process settings event ∈ ops → event = timedEvent) :
    FromRequests someNumbers ops := by
  refine served_fromRequests capturing timedTurns_scheduled (fun _ => timedCall_instrumented)
    fun settings event hmem => ?_
  rw [hops settings event hmem, ← timedEvent_only]
  exact List.mem_singleton_self _

theorem metrics_complete_timed :
    (∃ total threshold,
      timedEvent.stages.get? "http_total" = some total ∧
      tpotThresholdSeconds someNumbers ⟨none, none⟩ = .ok threshold ∧
      process counting someNumbers ⟨none, none⟩ replica timedEvent (create replica) =
        (run Registry.record (create replica) (changesOf replica threshold timedEvent total),
          .ok ())) ∧
    balance (run (step counting someNumbers replica) (create replica)
        [.process ⟨none, none⟩ timedEvent]).numbers
      (stageCount.labels (replica.values ++ ["input_process"])) = .fin 1 := by
  have hops : FromRequests someNumbers [.process ⟨none, none⟩ timedEvent] := by
    refine timedEvent_fromRequests fun settings event hmem => ?_
    cases List.mem_singleton.mp hmem
    rfl
  have h := (metrics_complete counting_documented someNumbers_reads replica).2 _ hops [] _ [] rfl
  exact ⟨h.2 _ _ rfl, by decide +kernel⟩

end VllmObserver.Metrics
