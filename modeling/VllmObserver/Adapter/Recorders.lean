import VllmObserver.Adapter.Growth
import VllmObserver.Adapter.Accepted

/-! # What the recorders record

Whatever a statistic carries, `record_timeline` and `record_engine_stages` only
append spans of their generation that lie between its start and the present, at
calibrated instants of the engine. -/
namespace VllmObserver.Adapter
open VllmObserver.Lib VllmObserver.Core VllmObserver.Stages VllmObserver.Exporter

/-- The node of a generation, up to its usage and metadata. -/
structure Keeps (g₀ g : Node) : Prop where
  id : g.id = g₀.id
  parentId : g.parentId = g₀.parentId
  name : g.name = g₀.name
  type : g.type = g₀.type
  startNs : g.startNs = g₀.startNs
  endNs : g.endNs = g₀.endNs

/-- The statistic was counted in the node of its generation. -/
structure Counted (stat : FinishedStat) (g₀ g : Node) : Prop extends Keeps g₀ g where
  usage : g.usage = (countTokens stat g₀).usage
  sequence : ∀ n, sequenceIndex g₀ = .int n → sequenceIndex g = .int (n + 1)

/-- The instants of the engine that the statistics of a request carry. -/
def EngineTime (reader : Reader) (raw : RawStats) (x : Flt) : Prop :=
  x ∈ edges raw ∨ ∃ payload stages, raw.observerStages = some payload ∧
    reader.loads payload = .ok (.obj stages) ∧
    (reader.floatOf (field stages "waiting_enter" .null) = .ok x ∨
      reader.floatOf (field stages "first_schedule" .null) = .ok x ∨
      ∃ i j n, (((field stages "execute_intervals" .null).orElse (.arr [])).index i >>=
        (·.index j) >>= Json.number) = .ok n ∧ x = n.toFlt)

/-- A span of the generation: from its start on and up to `limit`, between two
calibrated instants of the engine. -/
structure Stamped (reader : Reader) (raw : RawStats) (g : Node) (limit : ℤ) (o : Node) :
    Prop where
  isSpan : o.type = .span
  parent : o.parentId = some g.id
  bounds : ∃ e, o.endNs = some e ∧ g.startNs ≤ o.startNs ∧ o.startNs ≤ e ∧ e ≤ limit ∧
    ∃ clock mono wall a b, raw.clock? = some clock ∧
      (lookup clock clockMono >>= reader.float) = .ok mono ∧
      (lookup clock clockUnix >>= reader.int) = .ok wall ∧
      EngineTime reader raw a ∧ EngineTime reader raw b ∧
      calibrated wall mono a = .ok o.startNs ∧ calibrated wall mono b = .ok e

theorem Keeps.refl (g : Node) : Keeps g g := ⟨rfl, rfl, rfl, rfl, rfl, rfl⟩

theorem Keeps.withMetadata {g₀ g : Node} (h : Keeps g₀ g) (entries : List (String × Json)) :
    Keeps g₀ (withMetadata entries g) := ⟨h.id, h.parentId, h.name, h.type, h.startNs, h.endNs⟩

theorem sequenceIndex_withMetadata {entries : List (String × Json)}
    (h : "sequence_count" ∉ entries.map Prod.fst) (g : Node) :
    sequenceIndex (withMetadata entries g) = sequenceIndex g := by
  rw [sequenceIndex, withMetadata, Dict.get?_update_of_not_mem h]
  rfl

theorem sequenceIndex_count (v : Json) (g : Node) :
    sequenceIndex (withMetadata [("sequence_count", v)] g) = v := by
  rw [sequenceIndex, withMetadata, Dict.get?_update (by simp)]
  rfl

theorem Counted.withMetadata {stat : FinishedStat} {g₀ g : Node} (h : Counted stat g₀ g)
    {entries : List (String × Json)} (he : "sequence_count" ∉ entries.map Prod.fst) :
    Counted stat g₀ (withMetadata entries g) :=
  ⟨h.toKeeps.withMetadata entries, h.usage, fun n hn => by
    rw [sequenceIndex_withMetadata he]
    exact h.sequence n hn⟩

section Timeline
variable {base : RequestTrace} {gen : ℕ} {g₀ : Node} {sums : Dict String Aggregate → Prop}
  {reader : Reader} {uuid : ℕ → String} {perf : ℕ → ℚ} {raw : RawStats} {stat : FinishedStat}
  {limit : ℤ} {new : Node → Prop}

/-- One stage, between two instants in order. -/
theorem Grew.recordStage {clock : Dict String String} {sequence : Json} {i : ℕ} {name : String}
    {repetitions a b : ℤ} (hn : ∀ g error, Counted stat g₀ g →
      new (intervalNode (uuid i) g name a b (stageMetadata error sequence repetitions a b))) :
    Leaves (Grew base gen (Counted stat g₀) new sums) (Grew base gen (Counted stat g₀) new sums)
      (recordStage reader uuid gen clock sequence i name repetitions a b) :=
  Leaves.withValue (fun _ h => h) fun error _ => Leaves.withValue (fun _ h => h) fun _ _ =>
    Grew.interval fun g hg => hn g error hg

theorem Grew.recordStages {clock : Dict String String} {sequence : Json} {stamps : Stamps}
    {mono : Flt} {wall : ℤ} (hlt : gen < base.observations.length)
    (hclock : raw.clock? = some clock)
    (hmono : (lookup clock clockMono >>= reader.float) = .ok mono)
    (hwall : (lookup clock clockUnix >>= reader.int) = .ok wall)
    (hstamps : stampsOf wall mono raw = .ok stamps) (hsorted : stamps.sorted)
    (hstart : g₀.startNs ≤ stamps.queued) (hend : stamps.lastToken ≤ limit) :
    Leaves (Grew base gen (Counted stat g₀) (Stamped reader raw g₀ limit) sums)
      (Grew base gen (Counted stat g₀) (Stamped reader raw g₀ limit) sums)
      (recordStages reader uuid gen clock sequence stat stamps) := by
  obtain ⟨h1, h2, h3⟩ := hsorted
  obtain ⟨q, hq, hrest⟩ := bind_eq_ok.mp hstamps
  obtain ⟨s, hs, hrest⟩ := bind_eq_ok.mp hrest
  obtain ⟨f, hf, hrest⟩ := bind_eq_ok.mp hrest
  obtain ⟨l, hl, hrest⟩ := bind_eq_ok.mp hrest
  cases hrest
  -- a span between two of the stamps
  have hnew : ∀ (i : ℕ) (name : String) (metadata : ℤ → Metadata) (x y : Flt) (a b : ℤ),
      x ∈ edges raw → y ∈ edges raw → calibrated wall mono x = .ok a →
      calibrated wall mono y = .ok b → q ≤ a → a ≤ b → b ≤ l →
      ∀ g error, Counted stat g₀ g →
        Stamped reader raw g₀ limit (intervalNode (uuid i) g name a b (metadata error)) := by
    intro i name metadata x y a b hx hy hca hcb hqa hab hbl g error hg
    refine ⟨rfl, congrArg some hg.id, b, rfl, le_trans hstart hqa, hab, le_trans hbl hend,
      clock, mono, wall, x, y, hclock, hmono, hwall, Or.inl hx, Or.inl hy, hca, hcb⟩
  refine Leaves.andThen (Grew.onGeneration hlt fun g hg => ?_) (fun _ h => h) ?_
  · exact ⟨⟨hg.id, hg.parentId, hg.name, hg.type, hg.startNs, hg.endNs⟩, hg.usage, hg.sequence⟩
  refine Leaves.withValue (fun _ h => h) fun count _ => ?_
  refine Leaves.andThen (Grew.recordStage ?_) (fun _ h => h)
    (Leaves.andThen (Grew.recordStage ?_) (fun _ h => h) (Grew.recordStage ?_))
  · exact hnew 0 "queue" _ _ _ q s (by simp [edges]) (by simp [edges]) hq hs (le_refl _) h1
      (le_trans h2 h3)
  · exact hnew 1 "prefill" _ _ _ s f (by simp [edges]) (by simp [edges]) hs hf h1 h2 h3
  · exact hnew 2 "decode" _ _ _ f l (by simp [edges]) (by simp [edges]) hf hl (le_trans h1 h2) h3
      (le_refl _)

/-- **What `record_timeline` leaves.** -/
theorem Grew.recordTimeline (hlt : gen < base.observations.length)
    (hlimit : base.nowNs (perf 0) ≤ limit) :
    Leaves (Grew base gen (· = g₀) (Stamped reader raw g₀ limit) sums)
      (Grew base gen (Counted stat g₀) (Stamped reader raw g₀ limit) sums)
      (recordTimeline reader uuid perf gen stat raw) := by
  intro trace h
  have h1 : Grew base gen (· = countTokens stat g₀) (Stamped reader raw g₀ limit) sums
      { trace with observations := trace.observations.modify gen (countTokens stat) } :=
    h.modify hlt fun g hg => by rw [hg]
  obtain ⟨g, hg, rfl⟩ := h1.generation
  have hkeeps : Keeps g₀ (countTokens stat g₀) := ⟨rfl, rfl, rfl, rfl, rfl, rfl⟩
  rw [Adapter.recordTimeline, andThen_ok rfl]
  simp only [hg]
  have hseq : sequenceIndex (countTokens stat g₀) = sequenceIndex g₀ := rfl
  rw [hseq]
  cases hn : (sequenceIndex g₀).number with
  | error e =>
    -- no number of a sequence could be read
    refine h1.imp (fun g hg => ?_) (fun _ => id) fun _ => id
    subst hg
    refine ⟨hkeeps, rfl, fun n hi => ?_⟩
    rw [hi] at hn
    cases hn
  | ok n =>
    have hmark : ∀ v, Leaves (Grew base gen (Counted stat g₀) (Stamped reader raw g₀ limit) sums)
        (Grew base gen (Counted stat g₀) (Stamped reader raw g₀ limit) sums)
        (Stages.setMetadata gen [("timeline_unavailable", v)]) := fun v =>
      Grew.setMetadata hlt fun g hg => hg.withMetadata (by simp)
    refine Leaves.andThen (Grew.setMetadata hlt fun g hg => ?_) (fun _ h => h) ?_ _ h1
    · subst hg
      refine ⟨⟨rfl, rfl, rfl, rfl, rfl, rfl⟩, rfl, fun m hm => ?_⟩
      rw [hm] at hn
      cases hn
      exact sequenceIndex_count _ _
    · split
      · exact hmark _
      · rename_i clock hclock
        refine Leaves.withValue (fun _ h => h) fun mono hmono =>
          Leaves.withValue (fun _ h => h) fun wall hwall => ?_
        split
        · refine Leaves.withValue (fun _ h => h) fun stamps hstamps => ?_
          split
          · rename_i hsorted
            refine Grew.ifWithin (fun hstart hle hnow => ?_) (hmark _)
            obtain ⟨g, hk, hstart⟩ := hstart
            rw [hk.startNs] at hstart
            exact Grew.recordStages hlt hclock hmono hwall (stampsWithin_ok_iff.mp hstamps).2
              hsorted hstart (le_trans hnow hlimit)
          · exact hmark _
        · exact hmark _

end Timeline

/-! ## The engine stages -/

/-- The marks that `record_engine_stages` leaves where a time is missing. -/
def missingMarks : List String := ["waiting_unavailable", "execute_interval_unavailable"]

/-- The spans that `record_engine_stages` appends. -/
def engineSpans : List String := ["waiting_to_first_schedule", "execute_model"]

/-- What `record_timeline` alone notes in the metadata of its generation. -/
def timelineKeys : List String := ["sequence_count", "timeline_unavailable"]

section EngineStages
variable {base : RequestTrace} {gen : ℕ} {g₀ : Node} {keep : Node → Prop}
  {sums : Dict String Aggregate → Prop} {reader : Reader} {uuid : ℕ → String} {perf : ℕ → ℚ}
  {raw : RawStats} {limit : ℤ} {text : String} {payload : List (String × Json)}
  {clock : Dict String String} {new : Node → Prop}

/-- A number that a float holds is calibrated as that float. -/
theorem calibrated_number {n : Number} {mono : Flt} {wall s : ℤ}
    (h : (floatOfNumber n >>= instant wall mono) = .ok s) :
    calibrated wall mono n.toFlt = .ok s := by
  obtain ⟨x, hx, h⟩ := bind_eq_ok.mp h
  rw [← floatOfNumber_ok hx]
  exact (instant_ok_iff.mp h).2

theorem executeBounds_spec {intervals : Json} {a b : ℤ}
    (h : executeBounds reader clock intervals = .ok (a, b)) : ∃ mono wall x y,
      (lookup clock clockMono >>= reader.float) = .ok mono ∧
      (lookup clock clockUnix >>= reader.int) = .ok wall ∧
      (intervals.index 0 >>= (·.index 0) >>= Json.number) = .ok x ∧
      (intervals.index (-1) >>= (·.index 1) >>= Json.number) = .ok y ∧
      calibrated wall mono x.toFlt = .ok a ∧ calibrated wall mono y.toFlt = .ok b := by
  obtain ⟨mono, hmono, h⟩ := bind_eq_ok.mp h
  obtain ⟨wall, hwall, h⟩ := bind_eq_ok.mp h
  obtain ⟨x, hx, h⟩ := bind_eq_ok.mp h
  obtain ⟨firstStart, hcx, h⟩ := bind_eq_ok.mp h
  obtain ⟨y, hy, h⟩ := bind_eq_ok.mp h
  obtain ⟨lastEnd, hcy, h⟩ := bind_eq_ok.mp h
  cases h
  exact ⟨mono, wall, x, y, hmono, hwall, hx, hy, calibrated_number hcx, calibrated_number hcy⟩

theorem calibration_spec {mono : Flt} {wall error : ℤ}
    (h : calibration reader clock = .ok (mono, wall, error)) :
    (lookup clock clockMono >>= reader.float) = .ok mono ∧
      (lookup clock clockUnix >>= reader.int) = .ok wall ∧
      (lookup clock clockError >>= reader.int) = .ok error := by
  obtain ⟨mono, hmono, h⟩ := bind_eq_ok.mp h
  obtain ⟨wall, hwall, h⟩ := bind_eq_ok.mp h
  obtain ⟨error, herror, h⟩ := bind_eq_ok.mp h
  cases h
  exact ⟨hmono, hwall, herror⟩

theorem calibration_of {mono : Flt} {wall error : ℤ}
    (hmono : (lookup clock clockMono >>= reader.float) = .ok mono)
    (hwall : (lookup clock clockUnix >>= reader.int) = .ok wall)
    (herror : (lookup clock clockError >>= reader.int) = .ok error) :
    calibration reader clock = .ok (mono, wall, error) := by
  rw [calibration, hmono, ok_bind, hwall, ok_bind, herror, ok_bind]

theorem Grew.recordExecute (error : ℤ) (hlt : gen < base.observations.length)
    (hid : ∀ g, keep g → g.id = g₀.id ∧ g.startNs = g₀.startNs)
    (hmark : ∀ g key v, key ∈ missingMarks → keep g → keep (withMetadata [(key, v)] g))
    (hclock : raw.clock? = some clock) (htext : raw.observerStages = some text)
    (hloads : reader.loads text = .ok (.obj payload)) (hlimit : base.nowNs (perf 1) ≤ limit)
    (hnew : ∀ o, o.name ∈ engineSpans → Stamped reader raw g₀ limit o → new o) :
    Leaves (Grew base gen keep new sums)
      (Grew base gen keep new sums)
      (recordExecute reader uuid perf gen clock error payload) := by
  have hskip : ∀ e, Leaves (Grew base gen keep new sums)
      (Grew base gen keep new sums)
      (if clockErrors e then
        Stages.setMetadata gen [("execute_interval_unavailable", .str "invalid_calibration_clock")]
      else .raise e) := by
    intro e
    split
    · exact Grew.setMetadata hlt fun g hg => hmark g _ _ (by decide) hg
    · exact Leaves.raise e
  unfold Stages.recordExecute
  simp only
  split
  · split
    · rename_i firstStart lastEnd captured hbounds _
      obtain ⟨mono, wall, x, y, hmono, hwall, hx, hy, hcx, hcy⟩ := executeBounds_spec hbounds
      refine Grew.ifWithin (fun hstart hle hnow => ?_) Leaves.done
      obtain ⟨g, hk, hstart⟩ := hstart
      rw [(hid g hk).2] at hstart
      refine Grew.interval fun g hg => hnew _ (List.mem_cons_of_mem _ List.mem_cons_self)
        ⟨rfl, congrArg some (hid g hg).1, lastEnd, rfl, hstart, hle, le_trans hnow hlimit,
        clock, mono, wall, x.toFlt, y.toFlt, hclock, hmono, hwall,
        Or.inr ⟨text, payload, htext, hloads, Or.inr (Or.inr ⟨0, 0, x, hx, rfl⟩)⟩,
        Or.inr ⟨text, payload, htext, hloads, Or.inr (Or.inr ⟨-1, 1, y, hy, rfl⟩)⟩, hcx, hcy⟩
    · exact hskip _
    · exact hskip _
  · exact Leaves.done

theorem Grew.recordWaiting (hlt : gen < base.observations.length)
    (hid : ∀ g, keep g → g.id = g₀.id ∧ g.startNs = g₀.startNs)
    (hmark : ∀ g key v, key ∈ missingMarks → keep g → keep (withMetadata [(key, v)] g))
    (hclock : raw.clock? = some clock) (htext : raw.observerStages = some text)
    (hloads : reader.loads text = .ok (.obj payload)) (hlimit₀ : base.nowNs (perf 0) ≤ limit)
    (hlimit₁ : base.nowNs (perf 1) ≤ limit)
    (hnew : ∀ o, o.name ∈ engineSpans → Stamped reader raw g₀ limit o → new o) :
    Leaves (Grew base gen keep new sums)
      (Grew base gen keep new sums)
      (recordWaiting reader uuid perf gen clock payload) := by
  have hset : ∀ v, Leaves (Grew base gen keep new sums)
      (Grew base gen keep new sums)
      (Stages.setMetadata gen [("waiting_unavailable", v)]) := fun v =>
    Grew.setMetadata hlt fun g hg => hmark g _ _ (by decide) hg
  unfold Stages.recordWaiting
  split
  · rename_i e _
    split
    · exact hset _
    · exact Leaves.raise e
  · rename_i mono wall error hcal
    obtain ⟨hmono, hwall, _⟩ := calibration_spec hcal
    refine Leaves.withValue (fun _ h => h) fun startNs hs =>
      Leaves.withValue (fun _ h => h) fun endNs he => ?_
    obtain ⟨x, hx, hcx⟩ := bind_eq_ok.mp hs
    obtain ⟨y, hy, hcy⟩ := bind_eq_ok.mp he
    refine Grew.ifWithin (fun hstart hle hnow => ?_) (hset _)
    obtain ⟨g, hk, hstart⟩ := hstart
    rw [(hid g hk).2] at hstart
    refine Leaves.andThen (Grew.interval fun g hg => ?_) (fun _ h => h)
      (Grew.recordExecute error hlt hid hmark hclock htext hloads hlimit₁ hnew)
    refine hnew _ List.mem_cons_self ⟨rfl, congrArg some (hid g hg).1, endNs, rfl, hstart, hle,
      le_trans hnow hlimit₀, clock, mono, wall, x, y, hclock, hmono, hwall,
      Or.inr ⟨text, payload, htext, hloads, Or.inl hx⟩,
      Or.inr ⟨text, payload, htext, hloads, Or.inr (Or.inl hy)⟩, (instant_ok_iff.mp hcx).2,
      (instant_ok_iff.mp hcy).2⟩

/-- Behind the counters only the calibrated spans and the marks are left to do. -/
theorem Grew.recordCalibrated (hlt : gen < base.observations.length)
    (hid : ∀ g, keep g → g.id = g₀.id ∧ g.startNs = g₀.startNs)
    (hmark : ∀ g key v, key ∈ missingMarks → keep g → keep (withMetadata [(key, v)] g))
    (htext : raw.observerStages = some text) (hloads : reader.loads text = .ok (.obj payload))
    (hlimit₀ : base.nowNs (perf 0) ≤ limit) (hlimit₁ : base.nowNs (perf 1) ≤ limit)
    (hnew : ∀ o, o.name ∈ engineSpans → Stamped reader raw g₀ limit o → new o) :
    Leaves (Grew base gen keep new sums)
      (Grew base gen keep new sums)
      (match raw.clock? with
      | none => Stages.setMetadata gen
          [("waiting_unavailable", .str "missing_clock_or_timestamps")]
      | some clock =>
        .withValue (allFinite reader
          [field payload "waiting_enter" .null, field payload "first_schedule" .null]) fun finite =>
        if finite then Stages.recordWaiting reader uuid perf gen clock payload
        else Stages.setMetadata gen
          [("waiting_unavailable", .str "missing_clock_or_timestamps")]) := by
  have hset : ∀ v, Leaves (Grew base gen keep new sums)
      (Grew base gen keep new sums)
      (Stages.setMetadata gen [("waiting_unavailable", v)]) := fun v =>
    Grew.setMetadata hlt fun g hg => hmark g _ _ (by decide) hg
  split
  · exact hset _
  · rename_i clock hclock
    refine Leaves.withValue (fun _ h => h) fun finite _ => ?_
    split
    · exact Grew.recordWaiting hlt hid hmark hclock htext hloads hlimit₀ hlimit₁ hnew
    · exact hset _

/-- The names of the aggregates that `record_engine_stages` adds to. -/
def engineSums : List String := ["schedule_total", "execute_model"]

theorem Grew.addSum {stage : String} (duration count : Json)
    (hs : ∀ s a, sums s → sums (s.set stage a)) :
    Leaves (Grew base gen keep new sums) (Grew base gen keep new sums)
      (Stages.addValues stage duration count) :=
  Grew.addValues (fun _ _ h => h) fun _ _ _ h => ⟨fun _ _ => hs _ _ h, fun _ => hs _ _ h⟩

/-- **What `record_engine_stages` leaves.** -/
theorem Grew.recordEngineStages (hlt : gen < base.observations.length)
    (hid : ∀ g, keep g → g.id = g₀.id ∧ g.startNs = g₀.startNs)
    (hkeep : ∀ g entries, (∀ k ∈ timelineKeys, k ∉ entries.map Prod.fst) → keep g →
      keep (withMetadata entries g))
    (hsums : ∀ s name a, name ∈ engineSums → sums s → sums (s.set name a))
    (hlimit₀ : base.nowNs (perf 0) ≤ limit) (hlimit₁ : base.nowNs (perf 1) ≤ limit)
    (hnew : ∀ o, o.name ∈ engineSpans → Stamped reader raw g₀ limit o → new o) :
    Leaves (Grew base gen keep new sums)
      (Grew base gen keep new sums)
      (recordEngineStages reader uuid perf gen raw) := by
  unfold Stages.recordEngineStages
  split
  · exact Leaves.done
  · rename_i text htext
    split
    · exact Leaves.done
    · split
      · rename_i payload hloads
        have hmark : ∀ g key v, key ∈ missingMarks → keep g → keep (withMetadata [(key, v)] g) :=
          fun g key v hk hg => hkeep g _ (by
            simp only [missingMarks, List.mem_cons, List.not_mem_nil, or_false] at hk
            rcases hk with rfl | rfl <;> simp [timelineKeys]) hg
        refine Leaves.andThen
          (Grew.setMetadata hlt fun g hg => hkeep g _ (by simp [timelineKeys]) hg)
          (fun _ h => h) ?_
        refine Leaves.andThen (Grew.addSum _ _ fun s a h => hsums s _ a (by decide) h)
          (fun _ h => h) ?_
        refine Leaves.andThen (Grew.addSum _ _ fun s a h => hsums s _ a (by decide) h)
          (fun _ h => h) ?_
        exact Grew.recordCalibrated hlt hid hmark htext hloads hlimit₀ hlimit₁ hnew
      · exact Leaves.raise _
      · exact Leaves.done
      · exact Leaves.done
      · exact Leaves.raise _

end EngineStages

end VllmObserver.Adapter
