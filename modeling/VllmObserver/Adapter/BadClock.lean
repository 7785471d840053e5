import VllmObserver.Adapter.TimelineCalls
import VllmObserver.Adapter.Delivery

/-! # A bad calibration clock

`record_engine_stages` handles a clock that it cannot read, and the mark for a
statistic without a timeline is there for one that cannot be used. But
`record_timeline` raises on an entry that is no number, one of them behind the
completion start, and on one that is too far from the edges, and the stages of the
engine are then left out. So they are where the mean decode step cannot be divided, and
so are those of a payload that is no object of numbers. -/
namespace VllmObserver.Adapter
open VllmObserver.Lib VllmObserver.Core VllmObserver.Stages

def timelineStages : List String := ["queue", "prefill", "decode"]

/-- The payload is a dictionary with durations and counts that can be added. -/
def PayloadSums (reader : Reader) (text : String)
    (scheduleSeconds scheduleSteps executeSeconds executeSteps : Number) : Prop :=
  ∃ payload, reader.loads text = .ok (.obj payload) ∧
    addedSeconds (field payload "schedule_seconds" (.float (.fin 0))) = .ok scheduleSeconds ∧
    (field payload "schedule_steps" (.int 0)).number = .ok scheduleSteps ∧
    addedSeconds (field payload "execute_seconds" (.float (.fin 0))) = .ok executeSeconds ∧
    (field payload "execute_steps" (.int 0)).number = .ok executeSteps

/-- There is no payload, or one that can be merged. -/
def PayloadServes (reader : Reader) (raw : RawStats) : Prop :=
  ∀ text, raw.observerStages = some text → text ≠ "" →
    ∃ scheduleSeconds scheduleSteps executeSeconds executeSteps,
      PayloadSums reader text scheduleSeconds scheduleSteps executeSeconds executeSteps

/-- The durations and the counts of the payload, if there is one, were added to the
aggregates. -/
def PayloadMerged (reader : Reader) (raw : RawStats) (before after : RequestTrace) : Prop :=
  ∀ text, raw.observerStages = some text → text ≠ "" →
    ∃ scheduleSeconds scheduleSteps executeSeconds executeSteps,
      PayloadSums reader text scheduleSeconds scheduleSteps executeSeconds executeSteps ∧
      after.stages.get? "schedule_total" = added before.stages "schedule_total" scheduleSeconds
        (Number.max (.int 1) scheduleSteps) ∧
      after.stages.get? "execute_model" = added before.stages "execute_model" executeSeconds
        (Number.max (.int 1) executeSteps)

/-- The complete timeline was recorded, with the completion start. -/
def WholeTimeline (reader : Reader) (raw : RawStats) (n nowNs : ℤ) (g g' : Node)
    (spans : List Node) : Prop :=
  ∃ stamps stages rest, StampsRead reader raw stamps ∧ spans = stages ++ rest ∧
    ThreeStages g n g.startNs nowNs stamps stages ∧
    (∀ o ∈ rest, o.name ∉ timelineStages) ∧
    g'.completionStartNs = g.completionStartNs.or (some stamps.firstToken)

/-- Nothing of the timeline was recorded, and the generation is marked. -/
def NoTimeline (g g' : Node) (spans : List Node) : Prop :=
  (∀ o ∈ spans, o.name ∉ timelineStages) ∧
    g'.metadata.get? "timeline_unavailable" ≠ none ∧
    g'.completionStartNs = g.completionStartNs

/-- The update degraded cleanly. -/
def CleanUpdate (reader : Reader) (raw : RawStats) (gen : ℕ) (n nowNs : ℤ)
    (before after : RequestTrace) : Prop :=
  (∃ g g', before.observations[gen]? = some g ∧ after.observations[gen]? = some g' ∧
    (WholeTimeline reader raw n nowNs g g' (after.observations.drop before.observations.length) ∨
      NoTimeline g g' (after.observations.drop before.observations.length))) ∧
  PayloadMerged reader raw before after

/-- The entries of the clock can be read as far as the edges need them, and floats
reach from it to the edges: the error is needed only if the three stages are
recorded. -/
def ClockServes (reader : Reader) (raw : RawStats) (clock : Dict String String)
    (startNs nowNs : ℤ) : Prop :=
  ∃ mono wall, (lookup clock clockMono >>= reader.float) = .ok mono ∧
    (lookup clock clockUnix >>= reader.int) = .ok wall ∧
    ∀ q s f l, edges raw = [.fin q, .fin s, .fin f, .fin l] → (0 < q ∧ 0 < s ∧ 0 < f ∧ 0 < l) →
      ∃ m, mono = .fin m ∧ InReach mono raw ∧ (StampsInside wall m q s f l startNs nowNs →
        ∃ error, (lookup clock clockError >>= reader.int) = .ok error)

/-! ## Behind the timeline -/

/-- What `record_engine_stages` leaves of a trace and the node of its generation. -/
structure Behind (reader : Reader) (raw : RawStats) (gen : ℕ) (g : Node)
    (before after : RequestTrace) : Prop where
  generation : ∃ g', after.observations[gen]? = some g' ∧
    g'.completionStartNs = g.completionStartNs ∧
    g'.metadata.get? "timeline_unavailable" = g.metadata.get? "timeline_unavailable"
  spans : ∀ k, gen < k → k ≤ before.observations.length → ∃ rest,
    after.observations.drop k = before.observations.drop k ++ rest ∧
      ∀ o ∈ rest, o.name ∉ timelineStages
  merged : PayloadServes reader raw → PayloadMerged reader raw before after

section Behind
variable {reader : Reader} {uuid : ℕ → String} {perf : ℕ → ℚ} {gen : ℕ} {raw : RawStats}
  {trace : RequestTrace} {g : Node}

/-- The last of the instants at which `record_engine_stages` reads the clock. -/
def lastWait (trace : RequestTrace) (perf : ℕ → ℚ) : ℤ :=
  max (trace.nowNs (perf 0)) (trace.nowNs (perf 1))

theorem payloadMerged_recordEngineStages (reader : Reader) (uuid : ℕ → String) (perf : ℕ → ℚ)
    (raw : RawStats) (hg : trace.observations[gen]? = some g)
    (hserves : PayloadServes reader raw) :
    PayloadMerged reader raw trace (recordEngineStages reader uuid perf gen raw trace).1 := by
  intro text htext hne
  obtain ⟨d₁, n₁, d₂, n₂, hsums⟩ := hserves text htext hne
  obtain ⟨payload, hloads, hd₁, hn₁, hd₂, hn₂⟩ := hsums
  refine ⟨d₁, n₁, d₂, n₂, ⟨payload, hloads, hd₁, hn₁, hd₂, hn₂⟩, ?_⟩
  have hlt := lt_of_generation hg
  let scheduled := trace.stages.set "schedule_total"
    (((trace.stages.get? "schedule_total").getD {}).add d₁ (Number.max (.int 1) n₁))
  let executed := scheduled.set "execute_model"
    (((scheduled.get? "execute_model").getD {}).add d₂ (Number.max (.int 1) n₂))
  have hset : ∀ entries, Leaves
      (Grew trace gen (Keeps g) (Stamped reader raw g (lastWait trace perf)) (· = trace.stages))
      (Grew trace gen (Keeps g) (Stamped reader raw g (lastWait trace perf)) (· = trace.stages))
      (setMetadata gen entries) := fun entries =>
    Grew.setMetadata hlt fun _ h => h.withMetadata entries
  have hmerge : Leaves
      (Grew trace gen (Keeps g) (Stamped reader raw g (lastWait trace perf)) (· = trace.stages))
      (Grew trace gen (Keeps g) (Stamped reader raw g (lastWait trace perf)) (· = executed))
      (recordEngineStages reader uuid perf gen raw) := by
    unfold recordEngineStages
    simp only [htext, if_neg hne, hloads]
    refine Leaves.andThen_of_ok (hset _) (fun _ => rfl) ?_
    refine Leaves.andThen_of_ok (Grew.addNumber _ hd₁ hn₁) (addValues_ok _ hd₁ hn₁) ?_
    refine Leaves.andThen_of_ok (Grew.addNumber _ hd₂ hn₂) (addValues_ok _ hd₂ hn₂) ?_
    exact Grew.recordCalibrated hlt (fun _ h => ⟨h.id, h.startNs⟩)
      (fun _ _ _ _ h => h.withMetadata _) htext hloads (le_max_left _ _) (le_max_right _ _)
      fun _ _ h => h
  have h := (hmerge trace (Grew.refl hg (Keeps.refl g) rfl)).stages
  rw [h]
  constructor
  · rw [Dict.get?_set, if_neg (by decide), Dict.get?_set, if_pos rfl]
    rfl
  · rw [Dict.get?_set, if_pos rfl, Dict.get?_set, if_neg (by decide)]
    rfl

/-- The node as `record_engine_stages` keeps it. -/
def Untouched (g g' : Node) : Prop :=
  Keeps g g' ∧ g'.completionStartNs = g.completionStartNs ∧
    g'.metadata.get? "timeline_unavailable" = g.metadata.get? "timeline_unavailable"

theorem Untouched.withMetadata {g' : Node} (h : Untouched g g') {entries : List (String × Json)}
    (he : ∀ k ∈ timelineKeys, k ∉ entries.map Prod.fst) :
    Untouched g (withMetadata entries g') := by
  refine ⟨h.1.withMetadata entries, h.2.1, ?_⟩
  rw [Stages.withMetadata, Dict.get?_update_of_not_mem (he _ (by decide))]
  exact h.2.2

/-- **The engine stages are merged** and leave the timeline as it is. -/
theorem recordEngineStages_behind (reader : Reader) (uuid : ℕ → String) (perf : ℕ → ℚ)
    (raw : RawStats) (hg : trace.observations[gen]? = some g) :
    Behind reader raw gen g trace (recordEngineStages reader uuid perf gen raw trace).1 := by
  have hname : ∀ o : Node, o.name ∈ engineSpans → o.name ∉ timelineStages := by
    intro o ho
    simp only [engineSpans, List.mem_cons, List.not_mem_nil, or_false] at ho
    rcases ho with ho | ho <;> rw [ho] <;> decide
  have hleaves : Leaves
      (Grew trace gen (Untouched g) (fun o => o.name ∉ timelineStages) fun _ => True)
      (Grew trace gen (Untouched g) (fun o => o.name ∉ timelineStages) fun _ => True)
      (recordEngineStages reader uuid perf gen raw) := by
    have hspan : ∀ o, o.name ∈ engineSpans → Stamped reader raw g (lastWait trace perf) o →
        o.name ∉ timelineStages := fun o ho _ => hname o ho
    exact Grew.recordEngineStages (lt_of_generation hg) (fun _ h => ⟨h.1.id, h.1.startNs⟩)
      (fun _ _ he h => h.withMetadata he) (fun _ _ _ _ _ => trivial) (le_max_left _ _)
      (le_max_right _ _) hspan
  have h := hleaves trace (Grew.refl hg ⟨Keeps.refl g, rfl, rfl⟩ trivial)
  obtain ⟨g', hg', _, hcompletion, hmark⟩ := h.generation
  exact ⟨⟨g', hg', hcompletion, hmark⟩, fun k hk hle => h.drop hk hle,
    payloadMerged_recordEngineStages reader uuid perf raw hg⟩

end Behind

/-! ## The judgement on any clock -/

section Clock
variable {reader : Reader} {raw : RawStats} {clock : Dict String String} {startNs nowNs : ℤ}

theorem stampsWithin_finite {wall : ℤ} {mono : Flt} {stamps : Stamps} {q s f l : ℚ}
    (h : edges raw = [.fin q, .fin s, .fin f, .fin l])
    (hstamps : stampsWithin wall mono raw = .ok stamps) : ∃ m, mono = .fin m := by
  simp only [edges, List.cons.injEq, and_true] at h
  have hexact := (stampsWithin_ok_iff.mp hstamps).2
  rw [stampsOf, h.1] at hexact
  cases mono with
  | fin m => exact ⟨m, rfl⟩
  | inf sign => cases hexact
  | nan => cases hexact

/-- A clock that does not serve raises, or leaves out the error of stamps that
are accepted. -/
theorem judge_cases (reader : Reader) (startNs nowNs : ℤ) (hraw : raw.clock? = some clock) :
    (∃ reason, judge reader raw startNs nowNs = .refused reason ∧
      ClockServes reader raw clock startNs nowNs) ∨
    (∃ stamps, judge reader raw startNs nowNs = .accepted clock stamps ∧ stamps.sorted ∧
      startNs ≤ stamps.queued ∧ stamps.lastToken ≤ nowNs ∧
      (ClockServes reader raw clock startNs nowNs ↔
        ∃ error, (lookup clock clockError >>= reader.int) = .ok error) ∧
      (ClockServes reader raw clock startNs nowNs →
        StampsRead reader raw stamps ∧ ValidTimeline reader raw startNs nowNs)) ∨
    (∃ e, judge reader raw startNs nowNs = .raised e ∧
      ¬ ClockServes reader raw clock startNs nowNs) := by
  unfold judge
  rw [hraw]
  dsimp only
  cases hmono : lookup clock clockMono >>= reader.float with
  | error e =>
    refine Or.inr (Or.inr ⟨e, rfl, ?_⟩)
    rintro ⟨mono, _, hok, _⟩
    cases hmono.symm.trans hok
  | ok mono =>
    cases hwall : lookup clock clockUnix >>= reader.int with
    | error e =>
      refine Or.inr (Or.inr ⟨e, rfl, ?_⟩)
      rintro ⟨_, wall, _, hok, _⟩
      cases hwall.symm.trans hok
    | ok wall =>
      dsimp only [judgeEdges]
      by_cases hedges : (edges raw).all (fun value => value.isFinite && (Flt.fin 0).lt value) = true
      · obtain ⟨q, s, f, l, heq, hpos⟩ := edges_positive.mp hedges
        rw [if_pos hedges]
        cases hstamps : stampsWithin wall mono raw with
        | error e =>
          refine Or.inr (Or.inr ⟨e, rfl, ?_⟩)
          rintro ⟨mono', _, hok, _, hserves⟩
          cases hmono.symm.trans hok
          obtain ⟨m, rfl, hreach, _⟩ := hserves q s f l heq hpos
          cases hstamps.symm.trans (stampsWithin_ok_iff.mpr ⟨hreach, stampsOf_fin heq⟩)
        | ok stamps =>
          obtain ⟨m, rfl⟩ := stampsWithin_finite heq hstamps
          obtain ⟨hreach, hexact⟩ := stampsWithin_ok_iff.mp hstamps
          obtain rfl := Except.ok.inj ((stampsOf_fin heq).symm.trans hexact)
          dsimp only [judgeStamps]
          split
          · rename_i hin
            obtain ⟨⟨h1, h2, h3⟩, h0, h4⟩ := hin
            have herror : ClockServes reader raw clock startNs nowNs →
                ∃ error, (lookup clock clockError >>= reader.int) = .ok error := by
              rintro ⟨mono', wall', hok, hok', hserves⟩
              cases hmono.symm.trans hok
              cases hwall.symm.trans hok'
              obtain ⟨m', hm, _, herror⟩ := hserves q s f l heq hpos
              cases hm
              exact herror ⟨h0, h1, h2, h3, h4⟩
            refine Or.inr (Or.inl ⟨_, rfl, ⟨h1, h2, h3⟩, h0, h4, ⟨herror, ?_⟩, fun hserves => ?_⟩)
            · exact fun herror => ⟨.fin m, wall, hmono, hwall, fun _ _ _ _ _ _ =>
                ⟨m, rfl, hreach, fun _ => herror⟩⟩
            · obtain ⟨error, herror⟩ := herror hserves
              have hcal := calibration_of hmono hwall herror
              exact ⟨⟨clock, .fin m, wall, error, hraw, hcal, hstamps⟩, clock, m, wall, error,
                q, s, f, l, hraw, hcal, heq, hpos, hreach, ⟨h0, h1, h2, h3, h4⟩⟩
          · rename_i hout
            refine Or.inl ⟨_, rfl, .fin m, wall, hmono, hwall, fun q' s' f' l' heq' _ =>
              ⟨m, rfl, hreach, fun hin => ?_⟩⟩
            cases heq.symm.trans heq'
            exact absurd ⟨⟨hin.scheduled, hin.firstToken, hin.lastToken⟩, hin.queued, hin.now⟩ hout
      · rw [if_neg hedges]
        refine Or.inl ⟨_, rfl, mono, wall, hmono, hwall, fun q s f l heq hpos => ?_⟩
        exact absurd (edges_positive.mpr ⟨q, s, f, l, heq, hpos⟩) hedges

end Clock

/-! ## The update -/

section Update
variable {reader : Reader} {uuid : ℕ → String} {perf : ℕ → ℚ} {gen : ℕ} {stat : FinishedStat}
  {raw : RawStats} {clock : Dict String String} {trace : RequestTrace} {g : Node} {n count : ℤ}

/-- The trace as the recorders find it. -/
def statistic (stat : FinishedStat) (count : ℤ) (trace : RequestTrace) : RequestTrace :=
  (counted stat trace).add "decode" stat.decodeTime (.int count)

theorem observedUpdate_eq (hc : decodeCount stat = .ok count) :
    observedUpdate reader uuid perf gen stat raw trace =
      ((recordTimeline reader uuid perf gen stat raw).andThen
        (recordEngineStages reader (fun i => uuid (i + 3)) (fun i => perf (i + 1)) gen raw)
        (statistic stat count trace)).1 := by
  rw [observedUpdate, hc]
  rfl

theorem statistic_sums (stat : FinishedStat) (count : ℤ) (trace : RequestTrace) :
    ∀ name ∈ engineSums, (statistic stat count trace).stages.get? name =
      trace.stages.get? name := by
  intro name hname
  simp only [engineSums, List.mem_cons, List.not_mem_nil, or_false] at hname
  rcases hname with rfl | rfl <;> simp [statistic, counted, RequestTrace.add, Dict.get?_set]

theorem PayloadMerged.of_sums {before after : RequestTrace}
    (h : PayloadMerged reader raw before after)
    (hs : ∀ name ∈ engineSums, before.stages.get? name = trace.stages.get? name) :
    PayloadMerged reader raw trace after := by
  intro text htext hne
  obtain ⟨d₁, n₁, d₂, n₂, hsums, hmerged⟩ := h text htext hne
  rw [added, added, hs _ (by decide), hs _ (by decide)] at hmerged
  exact ⟨d₁, n₁, d₂, n₂, hsums, hmerged⟩

theorem drop_modify_append (nodes spans : List Node) (f : Node → Node) (gen : ℕ) :
    (nodes.modify gen f ++ spans).drop nodes.length = spans := by
  rw [List.drop_append_of_le_length (by rw [List.length_modify]),
    List.drop_of_length_le (by rw [List.length_modify]), List.nil_append]

theorem recordTimeline_statistic (reader : Reader) (uuid : ℕ → String) (perf : ℕ → ℚ)
    (stat : FinishedStat) (raw : RawStats) (count : ℤ) (hg : trace.observations[gen]? = some g)
    (hn : sequenceIndex g = .int n) :
    recordTimeline reader uuid perf gen stat raw (statistic stat count trace) =
      (judge reader raw g.startNs (trace.nowNs (perf 0))).recording reader uuid gen n stat
        (changed gen (counting stat n) (statistic stat count trace)) :=
  recordTimeline_eq reader uuid perf stat raw hg hn

/-- A refused statistic leaves its mark. -/
theorem observedUpdate_refused (uuid : ℕ → String) (hg : trace.observations[gen]? = some g)
    (hn : sequenceIndex g = .int n) (hc : decodeCount stat = .ok count) {reason : String}
    (hjudge : judge reader raw g.startNs (trace.nowNs (perf 0)) = .refused reason) :
    Behind reader raw gen (marked reason (counting stat n g))
      (changed gen (marked reason ∘ counting stat n) (statistic stat count trace))
      (observedUpdate reader uuid perf gen stat raw trace) := by
  have htimeline := recordTimeline_statistic reader uuid perf stat raw count hg hn
  have hg0 : (statistic stat count trace).observations[gen]? = some g := hg
  rw [hjudge, refused_recording] at htimeline
  rw [observedUpdate_eq hc, andThen_ok htimeline]
  exact recordEngineStages_behind reader _ _ raw
    (changed_generation (f := marked reason ∘ counting stat n) hg0)

/-- An accepted statistic leaves its stages. -/
theorem observedUpdate_recorded (uuid : ℕ → String) (hg : trace.observations[gen]? = some g)
    (hn : sequenceIndex g = .int n) (hc : decodeCount stat = .ok count) {stamps : Stamps}
    {error : ℤ} (hs : stamps.sorted)
    (hjudge : judge reader raw g.startNs (trace.nowNs (perf 0)) = .accepted clock stamps)
    (he : (lookup clock clockError >>= reader.int) = .ok error)
    (hdivides : (Flt.fin count).inRange = true) :
    Behind reader raw gen (completedBy stamps.firstToken (counting stat n g))
      (completedTrace gen stat n stamps (sequenceNodes uuid g error n count stamps)
        (statistic stat count trace))
      (observedUpdate reader uuid perf gen stat raw trace) := by
  have htimeline := recordTimeline_statistic reader uuid perf stat raw count hg hn
  have hg0 : (statistic stat count trace).observations[gen]? = some g := hg
  rw [hjudge] at htimeline
  rw [observedUpdate_eq hc,
    andThen_ok (htimeline.trans ((accepted_recording reader uuid hg0 hs he hc).1 hdivides))]
  exact recordEngineStages_behind reader _ _ raw (completedTrace_generation _ _ _ hg0)

/-- Where the mean cannot be divided, an accepted statistic leaves two of its stages. -/
theorem observedUpdate_part (uuid : ℕ → String) (hg : trace.observations[gen]? = some g)
    (hn : sequenceIndex g = .int n) (hc : decodeCount stat = .ok count) {stamps : Stamps}
    {error : ℤ} (hs : stamps.sorted)
    (hjudge : judge reader raw g.startNs (trace.nowNs (perf 0)) = .accepted clock stamps)
    (he : (lookup clock clockError >>= reader.int) = .ok error)
    (hlarge : (Flt.fin count).inRange = false) :
    observedUpdate reader uuid perf gen stat raw trace =
      completedTrace gen stat n stamps ((sequenceNodes uuid g error n count stamps).take 2)
        (statistic stat count trace) := by
  have htimeline := recordTimeline_statistic reader uuid perf stat raw count hg hn
  have hg0 : (statistic stat count trace).observations[gen]? = some g := hg
  obtain ⟨e, hleft⟩ := (accepted_recording reader uuid (n := n) hg0 hs he hc).2 hlarge
  rw [hjudge] at htimeline
  rw [observedUpdate_eq hc, Recording.andThen, htimeline.trans hleft]

/-- A clock and a payload that serve let the update degrade cleanly. -/
theorem clean_of_serves (uuid : ℕ → String) (hg : trace.observations[gen]? = some g)
    (hn : sequenceIndex g = .int n) (hclock : raw.clock? = some clock)
    (hcount : stat.numGenerationTokens ≠ none)
    (hserves : ClockServes reader raw clock g.startNs (trace.nowNs (perf 0)))
    (hdivides : MeanDivides reader raw stat g.startNs (trace.nowNs (perf 0)))
    (hpayload : PayloadServes reader raw) :
    CleanUpdate reader raw gen n (trace.nowNs (perf 0)) trace
      (observedUpdate reader uuid perf gen stat raw trace) := by
  obtain ⟨tokens, htokens⟩ := Option.ne_none_iff_exists'.mp hcount
  have hdecode := decodeCount_some htokens
  have hlt := lt_of_generation hg
  rcases judge_cases reader g.startNs (trace.nowNs (perf 0)) hclock with
    ⟨reason, hjudge, _⟩ | ⟨stamps, hjudge, hs, hstart, hnow, hiff, hread⟩ |
      ⟨_, _, hnot⟩
  · have hbehind := observedUpdate_refused uuid hg hn hdecode hjudge
    obtain ⟨g', hg', hcompletion, hmark⟩ := hbehind.generation
    obtain ⟨rest, hrest, hnames⟩ := hbehind.spans trace.observations.length hlt
      (by rw [changed, List.length_modify]; exact le_refl _)
    refine ⟨⟨g, g', hg, hg', Or.inr ⟨?_, ?_, hcompletion⟩⟩,
      (hbehind.merged hpayload).of_sums (statistic_sums stat _ trace)⟩
    · rw [hrest, List.drop_of_length_le (by rw [changed, List.length_modify]; exact le_refl _)]
      exact hnames
    · rw [hmark, marked, withMetadata, Dict.get?_update (by simp)]
      exact Option.some_ne_none _
  · obtain ⟨error, herror⟩ := hiff.mp hserves
    obtain ⟨hread, hvalid⟩ := hread hserves
    have hbehind := observedUpdate_recorded uuid hg hn hdecode hs hjudge herror
      (hdivides hvalid _ hdecode)
    obtain ⟨g', hg', hcompletion, _⟩ := hbehind.generation
    obtain ⟨rest, hrest, hnames⟩ := hbehind.spans trace.observations.length hlt
      (by rw [completedTrace, List.length_append, List.length_modify]; exact Nat.le_add_right _ _)
    have hthree := threeStages_sequenceNodes uuid g error n (max 0 (tokens - 1)) hs hstart hnow
    refine ⟨⟨g, g', hg, hg', Or.inl ⟨stamps, _, rest, hread, ?_, hthree, hnames,
      hcompletion⟩⟩,
      (hbehind.merged hpayload).of_sums (statistic_sums stat _ trace)⟩
    rw [hrest]
    change (trace.observations.modify gen _ ++ _).drop trace.observations.length ++ rest = _
    rw [drop_modify_append]
  · exact absurd hserves hnot

/-- No span was appended, and the generation is not marked. -/
theorem not_clean_of_modify {f : Node → Node} {after : RequestTrace}
    (hg : trace.observations[gen]? = some g)
    (hafter : after.observations = trace.observations.modify gen f)
    (hmark : (f g).metadata.get? "timeline_unavailable" = none) {nowNs : ℤ} :
    ¬ CleanUpdate reader raw gen n nowNs trace after := by
  rintro ⟨⟨g₀, g', hg₀, hg', hwhole | hno⟩, _⟩
  · obtain ⟨_, _, _, _, hspans, hstages, _⟩ := hwhole
    obtain ⟨_, _, _, _, _, _, rfl, _⟩ := hstages
    rw [hafter, List.drop_of_length_le (by rw [List.length_modify])] at hspans
    cases hspans
  · rw [hafter, List.getElem?_modify_eq, hg] at hg'
    obtain rfl := Option.some.inj hg'
    exact hno.2.1 hmark

/-- Two of the three stages are no whole timeline, and no timeline is without them. -/
theorem not_clean_of_part (uuid : ℕ → String) (error count : ℤ) (stamps : Stamps)
    (before : RequestTrace) (hobs : before.observations = trace.observations) {nowNs : ℤ} :
    ¬ CleanUpdate reader raw gen n nowNs trace
      (completedTrace gen stat n stamps ((sequenceNodes uuid g error n count stamps).take 2)
        before) := by
  rintro ⟨⟨g₀, g', _, _, h⟩, _⟩
  rw [completedTrace, hobs, drop_modify_append] at h
  rcases h with ⟨_, _, _, _, hspans, ⟨_, _, _, _, _, _, rfl, _⟩, _⟩ | hno
  · have hlength := congrArg List.length hspans
    simp only [sequenceNodes, List.take_succ_cons, List.take_zero, List.length_append,
      List.length_cons, List.length_nil] at hlength
    omega
  · have hqueue : "queue" ∈ timelineStages := List.mem_cons_self
    exact hno.1 _ List.mem_cons_self hqueue

/-- An update that degrades cleanly has a mean that can be divided. -/
theorem divides_of_clean (uuid : ℕ → String) (perf : ℕ → ℚ)
    (hg : trace.observations[gen]? = some g) (hn : sequenceIndex g = .int n)
    (hclean : CleanUpdate reader raw gen n (trace.nowNs (perf 0)) trace
      (observedUpdate reader uuid perf gen stat raw trace)) :
    MeanDivides reader raw stat g.startNs (trace.nowNs (perf 0)) := by
  intro hvalid count hdecode
  obtain ⟨clock, stamps, error, hjudge, hs, herror, _⟩ := judge_valid hvalid
  cases hdivides : (Flt.fin count).inRange with
  | true => rfl
  | false =>
    rw [observedUpdate_part uuid hg hn hdecode hs hjudge herror hdivides] at hclean
    have hobs : (statistic stat count trace).observations = trace.observations := rfl
    exact absurd hclean (not_clean_of_part uuid error count stamps _ hobs)

/-- An update that degrades cleanly has a clock and a payload that serve. -/
theorem serves_of_clean (uuid : ℕ → String) (perf : ℕ → ℚ) (stat : FinishedStat)
    (raw : RawStats) (trace : RequestTrace) (g : Node)
    (hg : trace.observations[gen]? = some g) (hn : sequenceIndex g = .int n)
    (hclock : raw.clock? = some clock)
    (hmark : g.metadata.get? "timeline_unavailable" = none)
    (hclean : CleanUpdate reader raw gen n (trace.nowNs (perf 0)) trace
      (observedUpdate reader uuid perf gen stat raw trace)) :
    stat.numGenerationTokens ≠ none ∧
      ClockServes reader raw clock g.startNs (trace.nowNs (perf 0)) ∧
      PayloadServes reader raw := by
  have hpayload : PayloadServes reader raw := fun text htext hne => by
    obtain ⟨d₁, n₁, d₂, n₂, hsums, _⟩ := hclean.2 text htext hne
    exact ⟨d₁, n₁, d₂, n₂, hsums⟩
  cases htokens : stat.numGenerationTokens with
  | none =>
    have hdecode : ∃ e, decodeCount stat = .error e := ⟨_, by rw [decodeCount, htokens]⟩
    obtain ⟨e, hdecode⟩ := hdecode
    have hobs : (counted stat trace).observations = trace.observations.modify gen id :=
      (List.modify_id ..).symm
    rw [observedUpdate_uncounted reader uuid perf raw hdecode] at hclean
    exact absurd hclean (not_clean_of_modify hg hobs hmark)
  | some tokens =>
    refine ⟨Option.some_ne_none _, ?_, hpayload⟩
    have hdecode := decodeCount_some htokens
    rw [observedUpdate_eq hdecode] at hclean
    have htimeline := recordTimeline_statistic reader uuid perf stat raw (max 0 (tokens - 1)) hg hn
    have hcounted := (counting_mark stat n g).trans hmark
    rcases judge_cases reader g.startNs (trace.nowNs (perf 0)) hclock with
      ⟨_, _, hserves⟩ | ⟨stamps, hjudge, _, _, _, hiff, _⟩ | ⟨e, hjudge, _⟩
    · exact hserves
    · refine hiff.mpr ?_
      cases herror : lookup clock clockError >>= reader.int with
      | ok error => exact ⟨error, rfl⟩
      | error e =>
        rw [hjudge, Judgement.recording, recordStages_raised herror hdecode,
          changed_changed] at htimeline
        rw [Recording.andThen, htimeline] at hclean
        exact absurd hclean (not_clean_of_modify
          (f := completedBy stamps.firstToken ∘ counting stat n) hg rfl hcounted)
    · rw [hjudge] at htimeline
      rw [Recording.andThen, htimeline] at hclean
      exact absurd hclean (not_clean_of_modify (f := counting stat n) hg rfl hcounted)

end Update

/-- **A bad clock degrades cleanly exactly if it serves, and so does the payload**:
the update leaves a whole timeline or a mark, and merges the engine stages, if the
number of tokens is there, the entries of the clock can be read as far as they are
needed and are near enough to the edges, a float holds the number of decode steps of
a valid timeline, and the payload has numbers to add. Only the mark of an earlier
sequence can stand in for the missing one. -/
theorem bad_clock_clean_iff (reader : Reader) (uuid : ℕ → String) (perf : ℕ → ℚ) (gen : ℕ)
    (stat : FinishedStat) (raw : RawStats) (clock : Dict String String) (trace : RequestTrace)
    (g : Node) (n : ℤ) (hg : trace.observations[gen]? = some g) (hn : sequenceIndex g = .int n)
    (hclock : raw.clock? = some clock) :
    (stat.numGenerationTokens ≠ none ∧
        ClockServes reader raw clock g.startNs (trace.nowNs (perf 0)) ∧
        MeanDivides reader raw stat g.startNs (trace.nowNs (perf 0)) ∧
        PayloadServes reader raw →
      CleanUpdate reader raw gen n (trace.nowNs (perf 0)) trace
        (observedUpdate reader uuid perf gen stat raw trace)) ∧
    (g.metadata.get? "timeline_unavailable" = none →
      (CleanUpdate reader raw gen n (trace.nowNs (perf 0)) trace
          (observedUpdate reader uuid perf gen stat raw trace) ↔
        stat.numGenerationTokens ≠ none ∧
          ClockServes reader raw clock g.startNs (trace.nowNs (perf 0)) ∧
          MeanDivides reader raw stat g.startNs (trace.nowNs (perf 0)) ∧
          PayloadServes reader raw)) := by
  have hif := fun h : stat.numGenerationTokens ≠ none ∧
      ClockServes reader raw clock g.startNs (trace.nowNs (perf 0)) ∧
      MeanDivides reader raw stat g.startNs (trace.nowNs (perf 0)) ∧ PayloadServes reader raw =>
    clean_of_serves uuid hg hn hclock h.1 h.2.1 h.2.2.1 h.2.2.2
  refine ⟨hif, fun hmark => ⟨fun hclean => ?_, hif⟩⟩
  obtain ⟨hcount, hserves, hpayload⟩ :=
    serves_of_clean uuid perf stat raw trace g hg hn hclock hmark hclean
  exact ⟨hcount, hserves, divides_of_clean uuid perf hg hn hclean, hpayload⟩

def sampleBegunNode : Node := (sampleBegun.observations[0]?).getD sampleRoot

/-- The sample with one entry of its clock. -/
def halfClock : Dict String String := Dict.ofList [(clockMono, "7.0")]

def halfRaw : RawStats := { sampleRaw with observerClock := some halfClock }

theorem bad_clock_clean_iff_half :
    (sampleSequence.stat.numGenerationTokens ≠ none ∧
        ClockServes sampleReader halfRaw halfClock sampleBegunNode.startNs (sampleBegun.nowNs 8) ∧
        MeanDivides sampleReader halfRaw sampleSequence.stat sampleBegunNode.startNs
          (sampleBegun.nowNs 8) ∧
        PayloadServes sampleReader halfRaw →
      CleanUpdate sampleReader halfRaw 0 0 (sampleBegun.nowNs 8) sampleBegun
        (observedUpdate sampleReader (fun _ => "o") (fun _ => 8) 0 sampleSequence.stat halfRaw
          sampleBegun)) ∧
    (sampleBegunNode.metadata.get? "timeline_unavailable" = none →
      (CleanUpdate sampleReader halfRaw 0 0 (sampleBegun.nowNs 8) sampleBegun
          (observedUpdate sampleReader (fun _ => "o") (fun _ => 8) 0 sampleSequence.stat halfRaw
            sampleBegun) ↔
        sampleSequence.stat.numGenerationTokens ≠ none ∧
          ClockServes sampleReader halfRaw halfClock sampleBegunNode.startNs
            (sampleBegun.nowNs 8) ∧
          MeanDivides sampleReader halfRaw sampleSequence.stat sampleBegunNode.startNs
            (sampleBegun.nowNs 8) ∧
          PayloadServes sampleReader halfRaw)) :=
  bad_clock_clean_iff sampleReader (fun _ => "o") (fun _ => 8) 0 sampleSequence.stat halfRaw
    halfClock sampleBegun sampleBegunNode 0 rfl rfl rfl

/-- The update of the sample with another clock. -/
def clockedUpdate (clock : Dict String String) : RequestTrace :=
  observedUpdate sampleReader (fun _ => "o") (fun _ => 8) 0 sampleSequence.stat
    { sampleRaw with observerClock := some clock } sampleBegun

/-- With a monotonic entry that is no number neither a span nor the mark is
there and the engine stages are left out; with such an error entry there is a
completion start besides. -/
theorem unreadable_clock_skips :
    (clockedUpdate (Dict.ofList [(clockMono, "abc"), (clockUnix, "7000000010"),
      (clockError, "80")])).observations.length = 1 ∧
    ((clockedUpdate (Dict.ofList [(clockMono, "abc"), (clockUnix, "7000000010"),
      (clockError, "80")])).observations.map fun o =>
        ((o.metadata.get? "timeline_unavailable").isSome, o.completionStartNs)) =
      [(false, none)] ∧
    (clockedUpdate (Dict.ofList [(clockMono, "abc"), (clockUnix, "7000000010"),
      (clockError, "80")])).stages.get? "schedule_total" = none ∧
    ((clockedUpdate (Dict.ofList [(clockMono, "7.0"), (clockUnix, "7000000010"),
      (clockError, "abc")])).observations.map fun o =>
        ((o.metadata.get? "timeline_unavailable").isSome, o.completionStartNs)) =
      [(false, some 6000000010)] ∧
    ¬ CleanUpdate sampleReader { sampleRaw with observerClock := some (Dict.ofList
        [(clockMono, "abc"), (clockUnix, "7000000010"), (clockError, "80")]) } 0 0
      (sampleBegun.nowNs 8) sampleBegun
      (clockedUpdate (Dict.ofList [(clockMono, "abc"), (clockUnix, "7000000010"),
        (clockError, "80")])) := by
  refine ⟨by decide +kernel, by decide +kernel, by decide +kernel, by decide +kernel, ?_⟩
  intro hclean
  have hserves := (serves_of_clean (fun _ => "o") (fun _ => 8) sampleSequence.stat
    { sampleRaw with observerClock := some (Dict.ofList
      [(clockMono, "abc"), (clockUnix, "7000000010"), (clockError, "80")]) }
    sampleBegun sampleBegunNode rfl rfl rfl rfl hclean).2.1
  obtain ⟨mono, _, hmono, _⟩ := hserves
  have hraised : ∀ mono, (lookup (Dict.ofList [(clockMono, "abc"), (clockUnix, "7000000010"),
      (clockError, "80")]) clockMono >>= sampleReader.float) ≠ .ok mono := fun mono h => by
    cases h
  exact hraised mono hmono

end VllmObserver.Adapter
