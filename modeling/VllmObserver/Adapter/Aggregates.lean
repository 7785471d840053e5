import VllmObserver.Adapter.Recorders

/-! # The aggregates of a trace

The adapter adds to the aggregates of a trace between changes of its
observations. Apart from those the trace stays as it is, and every aggregate
remains one that a counter accepts, whatever numbers a statistic or a payload
carries. -/
namespace VllmObserver.Adapter
open VllmObserver.Lib VllmObserver.Core VllmObserver.Stages

/-- Nothing is said about the observations. -/
def Blind (P : RequestTrace → Prop) : Prop :=
  ∀ trace nodes, P trace → P { trace with observations := nodes }

section Blind
variable {P : RequestTrace → Prop} {reader : Reader} {uuid : ℕ → String} {perf : ℕ → ℚ} {gen : ℕ}
  {r next : Recording}

theorem Blind.onGeneration (hP : Blind P) (f : Node → Node) :
    Leaves P P (.onGeneration gen f) := fun trace h => hP trace _ h

theorem Blind.setMetadata (hP : Blind P) (entries : List (String × Json)) :
    Leaves P P (setMetadata gen entries) := hP.onGeneration _

theorem Blind.interval (hP : Blind P) (uuid name : String) (a b : ℤ) (metadata : Metadata) :
    Leaves P P (.interval uuid gen name a b metadata) := by
  intro trace h
  unfold Recording.interval
  split
  · exact h
  · rename_i generation _
    unfold RequestTrace.interval
    split
    · rename_i trace' heq
      split at heq
      · cases heq
      · cases heq
        exact hP trace _ h
    · exact h

theorem leaves_ifWithin {startNs endNs : ℤ} {now : ℚ} {inside outside : Recording}
    (hin : Leaves P P inside) (hout : Leaves P P outside) :
    Leaves P P (.ifWithin gen now startNs endNs inside outside) := by
  intro trace h
  unfold Recording.ifWithin
  split
  · exact h
  · split
    · exact hin trace h
    · exact hout trace h

theorem Leaves.then (h1 : Leaves P P r) (h2 : Leaves P P next) : Leaves P P (r.andThen next) :=
  h1.andThen (fun _ h => h) h2

theorem Leaves.given {α : Type} {value : Except PyError α} {next : α → Recording}
    (h : ∀ a, Leaves P P (next a)) : Leaves P P (.withValue value next) :=
  .withValue (fun _ h => h) fun a _ => h a

theorem Blind.recordStages (hP : Blind P) (clock : Dict String String) (sequence : Json)
    (stat : FinishedStat) (stamps : Stamps) :
    Leaves P P (recordStages reader uuid gen clock sequence stat stamps) := by
  have hstage : ∀ i name repetitions a b,
      Leaves P P (recordStage reader uuid gen clock sequence i name repetitions a b) :=
    fun i name repetitions a b => .given fun error => .given fun _ => hP.interval _ _ _ _ _
  exact (hP.onGeneration _).then <| .given fun count =>
    (hstage _ _ _ _ _).then <| (hstage _ _ _ _ _).then (hstage _ _ _ _ _)

theorem Blind.recordTimeline (hP : Blind P) (stat : FinishedStat) (raw : RawStats) :
    Leaves P P (recordTimeline reader uuid perf gen stat raw) := by
  refine (hP.onGeneration _).then fun trace h => ?_
  split
  · exact h
  · refine Leaves.given (fun n => (hP.setMetadata _).then ?_) trace h
    split
    · exact hP.setMetadata _
    · refine .given fun mono => .given fun wall => ?_
      split
      · refine .given fun stamps => ?_
        split
        · exact leaves_ifWithin (hP.recordStages _ _ _ _) (hP.setMetadata _)
        · exact hP.setMetadata _
      · exact hP.setMetadata _

theorem Blind.recordExecute (hP : Blind P) (clock : Dict String String) (error : ℤ)
    (stages : List (String × Json)) :
    Leaves P P (recordExecute reader uuid perf gen clock error stages) := by
  have hskip : ∀ e, Leaves P P (if clockErrors e then
      Stages.setMetadata gen [("execute_interval_unavailable", .str "invalid_calibration_clock")]
      else .raise e) := by
    intro e
    split
    · exact hP.setMetadata _
    · exact Leaves.raise e
  unfold Stages.recordExecute
  simp only
  split
  · split
    · exact leaves_ifWithin (hP.interval _ _ _ _ _) Leaves.done
    · exact hskip _
    · exact hskip _
  · exact Leaves.done

theorem Blind.recordWaiting (hP : Blind P) (clock : Dict String String)
    (stages : List (String × Json)) :
    Leaves P P (recordWaiting reader uuid perf gen clock stages) := by
  unfold Stages.recordWaiting
  split
  · split
    · exact hP.setMetadata _
    · exact Leaves.raise _
  · exact .given fun startNs => .given fun endNs =>
      leaves_ifWithin ((hP.interval _ _ _ _ _).then (hP.recordExecute _ _ _)) (hP.setMetadata _)

/-- `record_engine_stages` adds to two aggregates. -/
theorem Blind.recordEngineStages (hP : Blind P)
    (hadd : ∀ name ∈ engineSums, ∀ duration count, Leaves P P (addValues name duration count))
    (raw : RawStats) : Leaves P P (recordEngineStages reader uuid perf gen raw) := by
  unfold Stages.recordEngineStages
  split
  · exact Leaves.done
  · split
    · exact Leaves.done
    · split
      · refine (hP.setMetadata _).then <| (hadd _ (by decide) _ _).then <|
          (hadd _ (by decide) _ _).then ?_
        split
        · exact hP.setMetadata _
        · refine .given fun finite => ?_
          split
          · exact hP.recordWaiting _ _
          · exact hP.setMetadata _
      · exact Leaves.raise _
      · exact Leaves.done
      · exact Leaves.done
      · exact Leaves.raise _

end Blind

/-! ## What counters accept -/

/-- The stages that the instrumentation records, by the names they are added under. -/
def recordedStages : List String := ["http_total", "http_first_body", "render_input",
  "sampling_params", "input_process", "submit_engine", "output_processor_add", "queue", "prefill",
  "decode", "schedule_total", "execute_model"]

/-- The aggregate of a recorded stage: neither its count nor its seconds are
negative, and only a decode may count nothing. -/
structure TallyOf (stage : String) (a : Aggregate) : Prop where
  recorded : stage ∈ recordedStages
  count : a.count.toFlt.Nonneg
  total : a.totalSeconds.Nonneg
  counted : stage ≠ "decode" → a.count.toFlt.AtLeast 1

/-- The aggregates of a trace that was only instrumented. -/
def Tallied (stages : Dict String Aggregate) : Prop :=
  ∀ stage a, stages.get? stage = some a → TallyOf stage a

/-- A count that an addition may take: at least one, but for decodes. -/
def Counts (stage : String) (count : Number) : Prop :=
  count.toFlt.Nonneg ∧ (stage ≠ "decode" → count.toFlt.AtLeast 1)

/-- Additions to recorded stages keep it, also where only the count is added. -/
def Additive (sums : Dict String Aggregate → Prop) : Prop :=
  ∀ stages stage duration count, sums stages → stage ∈ recordedStages → Counts stage count →
    sums (stages.set stage (((stages.get? stage).getD {}).add duration count)) ∧
      sums (stages.set stage { (stages.get? stage).getD {} with
        count := ((stages.get? stage).getD {}).count.add count })

/-- The same trace, with other observations and aggregates that satisfy `sums`. -/
structure Tracked (sums : Dict String Aggregate → Prop) (base trace : RequestTrace) : Prop where
  traceId : trace.traceId = base.traceId
  parentSpanId : trace.parentSpanId = base.parentSpanId
  status : trace.status = base.status
  stages : sums trace.stages

section Tallied
variable {stage : String} {a : Aggregate} {stages : Dict String Aggregate}

theorem Tallied.empty : Tallied Dict.empty := by
  intro stage a h
  cases h

/-- Before its first addition the aggregate is empty. -/
theorem Tallied.getD (h : Tallied stages) (stage : String) :
    ((stages.get? stage).getD {}).count.toFlt.Nonneg ∧
      ((stages.get? stage).getD {}).totalSeconds.Nonneg := by
  cases hs : stages.get? stage with
  | none => exact ⟨rfl, rfl⟩
  | some a => exact ⟨(h stage a hs).count, (h stage a hs).total⟩

theorem Tallied.set (h : Tallied stages) (ha : TallyOf stage a) : Tallied (stages.set stage a) := by
  intro stage' a' h'
  rcases Dict.get?_set_some h' with ⟨rfl, rfl⟩ | ⟨_, h'⟩
  · exact ha
  · exact h stage' a' h'

theorem Tallied.counted (h : Tallied stages) {count : Number} (hc : Counts stage count) :
    (((stages.get? stage).getD {}).count.add count).toFlt.Nonneg ∧
      (stage ≠ "decode" →
        (((stages.get? stage).getD {}).count.add count).toFlt.AtLeast 1) := by
  have h0 := (h.getD stage).1
  rw [Number.toFlt_add]
  refine ⟨h0.add hc.1, fun hne => ?_⟩
  have h1 := Flt.AtLeast.add h0 (hc.2 hne)
  rwa [zero_add] at h1

/-- **Whatever the duration, the sum does not become negative.** -/
theorem tallied_additive : Additive Tallied := by
  intro stages stage duration count h hs hc
  refine ⟨h.set ⟨hs, (h.counted hc).1, ?_, (h.counted hc).2⟩,
    h.set ⟨hs, (h.counted hc).1, (h.getD stage).2, (h.counted hc).2⟩⟩
  exact (h.getD stage).2.add (Number.max_atLeast rfl duration)

/-- The default count. -/
theorem counts_one (stage : String) : Counts stage (.int 1) := by
  have h1 : (Number.int 1).toFlt.AtLeast 1 := Flt.atLeast_fin.mpr (by norm_num)
  exact ⟨Flt.atLeast_fin.mpr (by norm_num), fun _ => h1⟩

/-- `max(1, count)`, also of NaN. -/
theorem counts_max_one (stage : String) (count : Number) :
    Counts stage (Number.max (.int 1) count) := by
  have h1 : (Number.max (.int 1) count).toFlt.AtLeast 1 :=
    Number.max_atLeast (by simp [Number.toFlt]) count
  exact ⟨h1.mono zero_le_one, fun _ => h1⟩

/-- `max(0, tokens - 1)`. -/
theorem counts_decode {stat : FinishedStat} {count : ℤ} (h : decodeCount stat = .ok count) :
    Counts "decode" (.int count) := by
  unfold decodeCount at h
  split at h
  · cases h
    exact ⟨Flt.atLeast_fin.mpr (by exact_mod_cast le_max_left _ _), fun hne => absurd rfl hne⟩
  · cases h

end Tallied

section Tracked
variable {sums : Dict String Aggregate → Prop} {base trace : RequestTrace} {stage : String}

theorem Tracked.blind : Blind (Tracked sums base) :=
  fun _ _ h => ⟨h.traceId, h.parentSpanId, h.status, h.stages⟩

theorem Tracked.setStages (h : Tracked sums base trace) {stages : Dict String Aggregate}
    (hs : sums stages) : Tracked sums base { trace with stages := stages } :=
  ⟨h.traceId, h.parentSpanId, h.status, hs⟩

theorem Tracked.add (hsums : Additive sums) (h : Tracked sums base trace)
    (hs : stage ∈ recordedStages) (duration : Number) {count : Number} (hc : Counts stage count) :
    Tracked sums base (trace.add stage duration count) :=
  h.setStages (hsums _ _ duration _ h.stages hs hc).1

theorem Tracked.addValues (hsums : Additive sums) (hs : stage ∈ recordedStages)
    (duration count : Json) :
    Leaves (Tracked sums base) (Tracked sums base) (addValues stage duration count) := by
  intro trace h
  unfold Stages.addValues
  split
  · exact h
  · split
    · exact h.add hsums hs _ (counts_max_one stage _)
    · exact h.setStages (hsums _ _ (.int 0) _ h.stages hs (counts_max_one stage _)).2

/-- **What a finished request leaves of the aggregates.** -/
theorem Tracked.observedUpdate (hsums : Additive sums) (h : Tracked sums base trace)
    (reader : Reader) (uuid : ℕ → String) (perf : ℕ → ℚ) (gen : ℕ) (stat : FinishedStat)
    (raw : RawStats) : Tracked sums base (observedUpdate reader uuid perf gen stat raw trace) := by
  have hcounted : Tracked sums base { trace with engineRequests := trace.engineRequests + 1 } :=
    ⟨h.traceId, h.parentSpanId, h.status, h.stages⟩
  have hqueue := hcounted.add hsums (by decide) stat.queuedTime (counts_one "queue")
  have hprefill := hqueue.add hsums (by decide) stat.prefillTime (counts_one "prefill")
  refine Leaves.withValue (fun _ h => h) (fun count hc => ?_) _ hprefill
  have hsub : engineSums ⊆ recordedStages := by simp [engineSums, recordedStages]
  refine Leaves.then (fun _ h => h.add hsums (by decide) _ (counts_decode hc)) ?_
  exact (Tracked.blind.recordTimeline _ _).then
    (Tracked.blind.recordEngineStages (fun name hname => Tracked.addValues hsums (hsub hname)) _)

end Tracked

end VllmObserver.Adapter
