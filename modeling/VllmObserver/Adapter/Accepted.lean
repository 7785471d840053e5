import VllmObserver.Adapter.Traced

/-! # What a finished request leaves in its trace

`record_engine_stages` adds at most a waiting interval, whatever the final output
carried. `record_timeline` adds the three stages of a statistic it accepts. -/
namespace VllmObserver.Adapter
open VllmObserver.Lib VllmObserver.Core VllmObserver.Stages VllmObserver.Exporter

/-! ## The engine stages -/

/-- At most one waiting interval was added, from inside the generation. -/
def Waited (base : RequestTrace) (gen : ℕ) (g₀ : Node) (stages : List Node)
    (trace : RequestTrace) : Prop :=
  Held base gen g₀ stages trace ∨
    ∃ o, o.name = "waiting_to_first_schedule" ∧ g₀.startNs ≤ o.startNs ∧
      Held base gen g₀ (stages ++ [o]) trace

section EngineStages
variable {base : RequestTrace} {gen : ℕ} {g₀ : Node} {stages : List Node}
  {reader : Reader} {uuid : ℕ → String} {perf : ℕ → ℚ}

theorem leaves_recordExecute (clock : Dict String String) (error : ℤ)
    (payload : List (String × Json)) :
    Leaves (Held base gen g₀ stages) (Held base gen g₀ stages)
      (recordExecute reader uuid perf gen clock error payload) := by
  have hskip : ∀ e, Leaves (Held base gen g₀ stages) (Held base gen g₀ stages)
      (if clockErrors e then
        setMetadata gen [("execute_interval_unavailable", .str "invalid_calibration_clock")]
      else .raise e) := by
    intro e
    split
    · exact leaves_setMetadata (by simp [segmentParameters])
    · exact Leaves.raise e
  unfold recordExecute
  simp only
  split
  · split
    · rename_i firstStart lastEnd captured _ _
      refine Leaves.ifWithin (fun _ h => h) (fun hle => ?_) Leaves.done
      have hk : FreeKeys (executeMetadata error captured payload) :=
        freeKeys_ofList (by simp [segmentParameters])
      have h := leaves_interval base gen g₀ stages (uuid 1) "execute_model" hk hle
      rw [stagesOf_other (by decide), List.append_nil] at h
      exact h.pre fun _ hp => hp.1
    · exact hskip _
    · exact hskip _
  · exact Leaves.done

theorem leaves_recordWaiting (clock : Dict String String) (payload : List (String × Json)) :
    Leaves (Held base gen g₀ stages) (Waited base gen g₀ stages)
      (recordWaiting reader uuid perf gen clock payload) := by
  have hkeep : ∀ trace, Held base gen g₀ stages trace → Waited base gen g₀ stages trace :=
    fun _ h => Or.inl h
  unfold recordWaiting
  split
  · rename_i e _
    split
    · exact (leaves_setMetadata (by simp [segmentParameters])).mono hkeep
    · exact (Leaves.raise e).mono hkeep
  · rename_i mono wall error _
    refine Leaves.withValue hkeep fun startNs _ => Leaves.withValue hkeep fun endNs _ =>
      Leaves.ifWithin hkeep (fun hle => ?_)
        ((leaves_setMetadata (by simp [segmentParameters])).mono hkeep)
    rintro trace ⟨⟨g, ht, hid⟩, g', hg', hstart⟩
    obtain rfl := Option.some.inj (ht.generation.symm.trans hg')
    rw [hid.2.1] at hstart
    -- the waiting interval is recorded, and the steps behind it are no stage
    have hk : FreeKeys (waitingIntervalMetadata error payload) :=
      freeKeys_ofList (by simp [segmentParameters])
    have h := leaves_interval base gen g₀ stages (uuid 0) "waiting_to_first_schedule" hk hle
    rw [stagesOf_stage (by decide)] at h
    have hwait : ∀ trace, Held base gen g₀ (stages ++ [intervalNode (uuid 0) g₀
        "waiting_to_first_schedule" startNs endNs (waitingIntervalMetadata error payload)]) trace →
        Waited base gen g₀ stages trace :=
      fun _ hh => Or.inr ⟨_, rfl, hstart, hh⟩
    exact Leaves.andThen h hwait ((leaves_recordExecute clock error payload).mono hwait)
      trace ⟨_, ht, hid⟩

theorem leaves_mergeStages (clock : Option (Dict String String))
    (payload : List (String × Json)) :
    Leaves (Held base gen g₀ stages) (Waited base gen g₀ stages)
      (mergeStages reader uuid perf gen clock payload) := by
  have hkeep : ∀ trace, Held base gen g₀ stages trace → Waited base gen g₀ stages trace :=
    fun _ h => Or.inl h
  refine Leaves.andThen (leaves_setMetadata (by simp [segmentParameters])) hkeep ?_
  refine Leaves.andThen (leaves_addValues _ _ _) hkeep ?_
  refine Leaves.andThen (leaves_addValues _ _ _) hkeep ?_
  split
  · exact (leaves_setMetadata (by simp [segmentParameters])).mono hkeep
  · refine Leaves.withValue hkeep fun finite _ => ?_
    split
    · exact leaves_recordWaiting _ _
    · exact (leaves_setMetadata (by simp [segmentParameters])).mono hkeep

/-- Whatever the final output carried, a waiting interval is all that the
timeline can see of it. -/
theorem leaves_recordEngineStages (raw : RawStats) :
    Leaves (Held base gen g₀ stages) (Waited base gen g₀ stages)
      (recordEngineStages reader uuid perf gen raw) := by
  have hkeep : ∀ trace, Held base gen g₀ stages trace → Waited base gen g₀ stages trace :=
    fun _ h => Or.inl h
  unfold recordEngineStages
  split
  · exact Leaves.done.mono hkeep
  · split
    · exact Leaves.done.mono hkeep
    · split
      · exact leaves_mergeStages _ _
      · exact (Leaves.raise _).mono hkeep
      · exact Leaves.done.mono hkeep
      · exact Leaves.done.mono hkeep
      · exact (Leaves.raise _).mono hkeep

end EngineStages

/-! ## An accepted statistic -/

/-- `record_timeline` accepts the statistic: the clock can be read, and the
stamps are finite, positive, within reach, in order, and inside the generation so
far, and a float holds the count. -/
structure Accepted (reader : Reader) (stat : FinishedStat) (raw : RawStats) (startNs nowNs : ℤ)
    (stamps : Stamps) (count : ℤ) : Prop where
  reads : ∃ clock mono wall error, raw.clock? = some clock ∧
    (lookup clock clockMono >>= reader.float) = .ok mono ∧
    (lookup clock clockUnix >>= reader.int) = .ok wall ∧
    (lookup clock clockError >>= reader.int) = .ok error ∧
    stampsWithin wall mono raw = .ok stamps
  edges : (edges raw).all (fun value => value.isFinite && (Flt.fin 0).lt value) = true
  sorted : stamps.sorted
  inside : startNs ≤ stamps.queued ∧ stamps.lastToken ≤ nowNs
  divides : (Flt.fin count).inRange = true
  count : decodeCount stat = .ok count

/-- The three recorded stages. -/
def stageNodes (uuid : ℕ → String) (g : Node) (error count : ℤ) (stamps : Stamps) : List Node := [
  intervalNode (uuid 0) g "queue" stamps.queued stamps.scheduled
    (stageMetadata error (.int 0) 1 stamps.queued stamps.scheduled),
  intervalNode (uuid 1) g "prefill" stamps.scheduled stamps.firstToken
    (stageMetadata error (.int 0) 1 stamps.scheduled stamps.firstToken),
  intervalNode (uuid 2) g "decode" stamps.firstToken stamps.lastToken
    (stageMetadata error (.int 0) count stamps.firstToken stamps.lastToken)]

section Timeline
variable {base trace : RequestTrace} {gen : ℕ} {g : Node} {stages : List Node}
  {reader : Reader} {uuid : ℕ → String} {perf : ℕ → ℚ}

theorem stageMetadata_free (error : ℤ) (sequence : Json) (repetitions a b : ℤ) :
    FreeKeys (stageMetadata error sequence repetitions a b) :=
  freeKeys_ofList (by simp [segmentParameters])

/-- Where a float holds the divisor, a stage is its interval. -/
theorem recordStage_divided {clock : Dict String String} {error : ℤ} (sequence : Json) (i : ℕ)
    (name : String) {repetitions : ℤ} (a b : ℤ)
    (he : (lookup clock clockError >>= reader.int) = .ok error)
    (hr : (Flt.fin repetitions).inRange = true) :
    recordStage reader uuid gen clock sequence i name repetitions a b =
      Recording.interval (uuid i) gen name a b
        (stageMetadata error sequence repetitions a b) := by
  rw [recordStage, he, Recording.withValue, floatOfNumber_int hr]
  rfl

/-- Where no float does, nothing is recorded. -/
theorem recordStage_undivided (uuid : ℕ → String) (gen : ℕ) {clock : Dict String String}
    {error : ℤ} (sequence : Json) (i : ℕ) (name : String) {repetitions : ℤ} (a b : ℤ)
    (he : (lookup clock clockError >>= reader.int) = .ok error)
    (hr : (Flt.fin repetitions).inRange = false) :
    ∃ e, recordStage reader uuid gen clock sequence i name repetitions a b = .raise e := by
  rw [recordStage, he, Recording.withValue, floatOfNumber_large hr]
  exact ⟨_, rfl⟩

theorem recordStage_run (uuid : ℕ → String) {clock : Dict String String} {error : ℤ}
    (sequence : Json) (i : ℕ) (name : String) (repetitions : ℤ) {a b : ℤ}
    (h : Traced base gen g stages trace)
    (he : (lookup clock clockError >>= reader.int) = .ok error)
    (hr : (Flt.fin repetitions).inRange = true) (hle : a ≤ b)
    (hn : name ∈ stageNames) : ∃ trace',
      recordStage reader uuid gen clock sequence i name repetitions a b trace =
        (trace', .ok ()) ∧
      Traced base gen g (stages ++ [intervalNode (uuid i) g name a b
        (stageMetadata error sequence repetitions a b)]) trace' := by
  have ht := h.interval (uuid i) name a b (stageMetadata_free error sequence repetitions a b)
  rw [stagesOf_stage hn] at ht
  refine ⟨_, ?_, ht⟩
  rw [recordStage_divided sequence i name a b he hr]
  exact interval_run h hle

theorem onGeneration_run {f : Node → Node} (h : Traced base gen g stages trace)
    (htype : (f g).type = g.type) (hname : (f g).name = g.name)
    (hkeys : FreeKeys g.metadata → FreeKeys (f g).metadata) : ∃ trace',
      Recording.onGeneration gen f trace = (trace', .ok ()) ∧ Traced base gen (f g) stages trace' :=
  ⟨_, rfl, h.modify htype hname hkeys⟩

theorem recordStages_run (uuid : ℕ → String) (stat : FinishedStat) {clock : Dict String String}
    {error count : ℤ} {stamps : Stamps} (h : Traced base gen g stages trace)
    (he : (lookup clock clockError >>= reader.int) = .ok error) (hs : stamps.sorted)
    (hc : decodeCount stat = .ok count) (hr : (Flt.fin count).inRange = true) : ∃ trace',
      recordStages reader uuid gen clock (.int 0) stat stamps trace = (trace', .ok ()) ∧
      Held base gen g (stages ++ stageNodes uuid g error count stamps) trace' := by
  obtain ⟨h1, h2, h3⟩ := hs
  -- the completion start, then one stage after the other
  obtain ⟨t0, r0, k0⟩ := onGeneration_run (f := completedBy stamps.firstToken) h rfl rfl id
  obtain ⟨t1, r1, k1⟩ :=
    recordStage_run uuid (.int 0) 0 "queue" 1 k0 he Flt.inRange_one h1 (by decide)
  obtain ⟨t2, r2, k2⟩ :=
    recordStage_run uuid (.int 0) 1 "prefill" 1 k1 he Flt.inRange_one h2 (by decide)
  obtain ⟨t3, r3, k3⟩ := recordStage_run uuid (.int 0) 2 "decode" count k2 he hr h3 (by decide)
  rw [List.append_assoc, List.append_assoc] at k3
  refine ⟨t3, ?_, _, k3, rfl, rfl, rfl⟩
  rw [recordStages, andThen_ok r0, hc]
  exact (andThen_ok r1).trans ((andThen_ok r2).trans r3)

theorem ifWithin_inside {perf : ℚ} {a b : ℤ} {inside outside : Recording}
    (h : Traced base gen g stages trace) (h1 : g.startNs ≤ a) (h2 : a ≤ b)
    (h3 : b ≤ base.nowNs perf) :
    Recording.ifWithin gen perf a b inside outside trace = inside trace := by
  simp only [Recording.ifWithin, h.generation]
  rw [if_pos ⟨h1, h2, by rw [h.nowNs]; exact h3⟩]

theorem recordTimeline_accepted (uuid : ℕ → String) {stat : FinishedStat} {raw : RawStats}
    {stamps : Stamps} {count : ℤ} (h : Traced base gen g stages trace)
    (hseq : g.metadata.get? "sequence_count" = none)
    (hacc : Accepted reader stat raw g.startNs (base.nowNs (perf 0)) stamps count) :
    ∃ error trace', recordTimeline reader uuid perf gen stat raw trace = (trace', .ok ()) ∧
      Held base gen g (stages ++ stageNodes uuid g error count stamps) trace' := by
  obtain ⟨clock, mono, wall, error, hclock, hmono, hwall, herror, hstamps⟩ := hacc.reads
  obtain ⟨t1, r1, k1⟩ := onGeneration_run (f := countTokens stat) h rfl rfl id
  obtain ⟨t2, r2, k2⟩ := onGeneration_run (f := withMetadata [("sequence_count", .int 1)]) k1
    rfl rfl fun hk => freeKeys_update hk (by simp [segmentParameters])
  obtain ⟨t3, r3, g', k3, hid⟩ := recordStages_run uuid stat k2 herror
    hacc.sorted hacc.count hacc.divides
  refine ⟨error, t3, ?_, g', k3, hid⟩
  have hindex : sequenceIndex (countTokens stat g) = .int 0 := by
    rw [sequenceIndex, show (countTokens stat g).metadata = g.metadata from rfl, hseq]
    rfl
  have hle : stamps.queued ≤ stamps.lastToken := by
    obtain ⟨h1, h2, h3⟩ := hacc.sorted
    omega
  rw [recordTimeline, andThen_ok r1]
  simp only [k1.generation, hindex]
  rw [show (Json.int 0).number = .ok (.int 0) from rfl]
  refine (andThen_ok r2).trans ?_
  simp only [hclock, hmono, hwall, hstamps, Recording.withValue, if_pos hacc.edges,
    if_pos hacc.sorted]
  exact (ifWithin_inside k2 hacc.inside.1 hle hacc.inside.2).trans r3

/-- The statistic of a request records its stages, and at most a waiting. -/
theorem observedUpdate_accepted (uuid : ℕ → String) {stat : FinishedStat} {raw : RawStats}
    {stamps : Stamps} {count : ℤ} (h : Traced base gen g stages trace)
    (hseq : g.metadata.get? "sequence_count" = none)
    (hacc : Accepted reader stat raw g.startNs (base.nowNs (perf 0)) stamps count) :
    ∃ error, Waited base gen g (stages ++ stageNodes uuid g error count stamps)
      (observedUpdate reader uuid perf gen stat raw trace) := by
  have k : Traced base gen g stages (((({ trace with
      engineRequests := trace.engineRequests + 1 } : RequestTrace).add "queue" stat.queuedTime).add
        "prefill" stat.prefillTime).add "decode" stat.decodeTime (.int count)) :=
    h.congr rfl h.apiEnds rfl rfl
  obtain ⟨error, t1, r1, k1⟩ := recordTimeline_accepted uuid k hseq hacc
  refine ⟨error, ?_⟩
  simp only [observedUpdate, hacc.count, Recording.withValue]
  rw [andThen_ok rfl, andThen_ok r1]
  exact leaves_recordEngineStages raw t1 k1

end Timeline

end VllmObserver.Adapter
