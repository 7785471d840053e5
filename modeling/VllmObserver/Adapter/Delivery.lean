import VllmObserver.Adapter.Recorders

/-! # Delivering a statistic

`observed_update` counts the statistic of a finished request in the trace and in
the node of its generation. Nothing else in the trace changes but that spans of
this generation are appended. -/
namespace VllmObserver.Adapter
open VllmObserver.Lib VllmObserver.Core VllmObserver.Stages VllmObserver.Exporter

/-- An aggregate after one more duration. -/
def added (stages : Dict String Aggregate) (name : String) (duration : Number)
    (count : Number := .int 1) : Option Aggregate :=
  some (((stages.get? name).getD {}).add duration count)

/-- The statistic was added to the trace and to its generation at `gen`. -/
structure Delivered (stat : FinishedStat) (gen : ℕ) (before after : RequestTrace) : Prop where
  engineRequests : after.engineRequests = before.engineRequests + 1
  queue : after.stages.get? "queue" = added before.stages "queue" stat.queuedTime
  prefill : after.stages.get? "prefill" = added before.stages "prefill" stat.prefillTime
  decode : ∃ count, decodeCount stat = .ok count ∧
    after.stages.get? "decode" = added before.stages "decode" stat.decodeTime (.int count)
  generation : ∃ g g' n, before.observations[gen]? = some g ∧
    after.observations[gen]? = some g' ∧ Keeps g g' ∧
    g'.usage = (countTokens stat g).usage ∧ sequenceIndex g = .int n ∧
    sequenceIndex g' = .int (n + 1) ∧
    ∀ (i : ℕ) (o : Node), before.observations.length ≤ i → after.observations[i]? = some o →
      o.type = .span ∧ o.parentId = some g.id
  others : ∀ i, i < before.observations.length → i ≠ gen →
    after.observations[i]? = before.observations[i]?

/-- The trace before the decode stage is added. -/
def counted (stat : FinishedStat) (trace : RequestTrace) : RequestTrace :=
  ((({ trace with engineRequests := trace.engineRequests + 1 } : RequestTrace).add "queue"
    stat.queuedTime).add "prefill" stat.prefillTime)

/-- Only the aggregates of the engine stages may have changed. -/
def SumsKept (base : RequestTrace) (stages : Dict String Aggregate) : Prop :=
  ∀ name, name ∉ engineSums → stages.get? name = base.stages.get? name

theorem SumsKept.set {base : RequestTrace} {stages : Dict String Aggregate}
    (h : SumsKept base stages) {name : String} (hn : name ∈ engineSums) (a : Aggregate) :
    SumsKept base (stages.set name a) := by
  intro other ho
  have hne : other ≠ name := by
    rintro rfl
    exact ho hn
  rw [Dict.get?_set, if_neg hne]
  exact h other ho

/-- The last of the instants at which the recorders read the clock. -/
def lastRead (trace : RequestTrace) (perf : ℕ → ℚ) : ℤ :=
  max (trace.nowNs (perf 0)) (max (trace.nowNs (perf 1)) (trace.nowNs (perf 2)))

section Update
variable (reader : Reader) (uuid : ℕ → String) (perf : ℕ → ℚ) {gen : ℕ} {stat : FinishedStat}
  (raw : RawStats) {trace : RequestTrace} {g : Node}

/-- Without a number of tokens the observer's exception ends the update. -/
theorem observedUpdate_uncounted {e : PyError} (hc : decodeCount stat = .error e) :
    observedUpdate reader uuid perf gen stat raw trace = counted stat trace := by
  rw [observedUpdate, hc]
  rfl

/-- Both recorders, one after the other. -/
theorem leaves_recorders {base : RequestTrace} (hlt : gen < base.observations.length) :
    Leaves (Grew base gen (· = g) (Stamped reader raw g (lastRead base perf)) (SumsKept base))
      (Grew base gen (Counted stat g) (Stamped reader raw g (lastRead base perf)) (SumsKept base))
      ((recordTimeline reader uuid perf gen stat raw).andThen
        (recordEngineStages reader (fun i => uuid (i + 3)) (fun i => perf (i + 1)) gen raw)) := by
  refine Leaves.andThen (Grew.recordTimeline hlt (le_max_left _ _)) (fun _ h => h) ?_
  refine Grew.recordEngineStages hlt (fun g' h => ⟨h.id, h.startNs⟩)
    (fun g' entries he h => h.withMetadata (he _ List.mem_cons_self))
    (fun s name a hn h => h.set hn a) ?_ ?_ fun _ _ h => h
  · exact le_trans (le_max_left _ _) (le_max_right _ _)
  · exact le_trans (le_max_right _ _) (le_max_right _ _)

theorem observedUpdate_counted {count : ℤ} (hg : trace.observations[gen]? = some g)
    (hc : decodeCount stat = .ok count) :
    Grew ((counted stat trace).add "decode" stat.decodeTime (.int count)) gen (Counted stat g)
      (Stamped reader raw g (lastRead trace perf))
      (SumsKept ((counted stat trace).add "decode" stat.decodeTime (.int count)))
      (observedUpdate reader uuid perf gen stat raw trace) := by
  have hg' : ((counted stat trace).add "decode" stat.decodeTime
      (.int count)).observations[gen]? = some g := hg
  have hlt := (List.getElem?_eq_some_iff.mp hg').1
  rw [observedUpdate, hc]
  exact leaves_recorders reader uuid perf raw hlt _ (Grew.refl hg' rfl fun _ _ => rfl)

/-- **A statistic is delivered** to the generation it is recorded for. -/
theorem observedUpdate_delivered {count n : ℤ} (hg : trace.observations[gen]? = some g)
    (hc : decodeCount stat = .ok count) (hn : sequenceIndex g = .int n) :
    Delivered stat gen trace (observedUpdate reader uuid perf gen stat raw trace) := by
  have h := observedUpdate_counted reader uuid perf raw hg hc
  obtain ⟨g', hg', hcount⟩ := h.generation
  have hsum : ∀ name, name ∉ engineSums →
      (observedUpdate reader uuid perf gen stat raw trace).stages.get? name =
        ((counted stat trace).add "decode" stat.decodeTime (.int count)).stages.get? name :=
    h.stages
  refine ⟨h.engineRequests, ?_, ?_, ⟨count, hc, ?_⟩, ?_, h.others⟩
  · rw [hsum "queue" (by decide)]
    simp [counted, RequestTrace.add, Dict.get?_set, added]
  · rw [hsum "prefill" (by decide)]
    simp [counted, RequestTrace.add, Dict.get?_set, added]
  · rw [hsum "decode" (by decide)]
    simp [counted, RequestTrace.add, Dict.get?_set, added]
  · refine ⟨g, g', n, hg, hg', hcount.toKeeps, hcount.usage, hn, hcount.sequence n hn, ?_⟩
    intro i o hi ho
    have hspan := h.added i o hi ho
    exact ⟨hspan.isSpan, hspan.parent⟩

/-- Whatever the statistic, a generation stays one whose sequences are counted. -/
theorem observedUpdate_others {i : ℕ} (hi : i ≠ gen) (hlt : i < trace.observations.length)
    (hg : trace.observations[gen]? = some g) :
    (observedUpdate reader uuid perf gen stat raw trace).observations[i]? =
      trace.observations[i]? := by
  cases hc : decodeCount stat with
  | error e =>
    rw [observedUpdate_uncounted reader uuid perf raw hc]
    rfl
  | ok count => exact (observedUpdate_counted reader uuid perf raw hg hc).others i hlt hi

end Update

end VllmObserver.Adapter
