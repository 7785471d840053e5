import VllmObserver.Adapter.BadClock
import Mathlib.Data.List.Perm.Basic

/-! # The order in which sequences finish

What parallel sequences add to their generation and trace are sums, so their
order does not matter. But the completion start is set once, by the sequence
that finishes first: that need not be the one whose first token came first. -/
namespace VllmObserver.Adapter
open VllmObserver.Lib VllmObserver.Core VllmObserver.Stages

/-- The statistic of a finished sequence arrives. -/
def TimelineCall.deliver (reader : Reader) (gen : ℕ) (trace : RequestTrace)
    (call : TimelineCall) : RequestTrace :=
  observedUpdate reader call.uuid call.perf gen call.stat call.raw trace

/-- The trace after the statistics arrived one after the other. -/
def delivered (reader : Reader) (gen : ℕ) (trace : RequestTrace) (calls : List TimelineCall) :
    RequestTrace :=
  run (TimelineCall.deliver reader gen) trace calls

/-- The first token on the wall clock. -/
def firstTokenNs (reader : Reader) (raw : RawStats) : Option ℤ :=
  match raw.clock? with
  | none => none
  | some clock => match calibration reader clock, raw.firstTokenTs with
    | .ok (.fin mono, wall, _), .fin f => some (stampAt wall mono f)
    | _, _ => none

/-- The first tokens of the sequences, in the order in which they finish. -/
def firstTokens (reader : Reader) (calls : List TimelineCall) : List ℤ :=
  calls.filterMap fun call => firstTokenNs reader call.raw

/-- What a sequence adds under a key of the usage. -/
def usageOf (key : String) (stat : FinishedStat) : Option ℤ :=
  if key = "output" then stat.numGenerationTokens
  else if key = "input" then stat.numPromptTokens
  else none

def addUsage (old value : Option ℤ) : Option ℤ :=
  match value with
  | some n => some (old.getD 0 + n)
  | none => old

/-- What a sequence adds to an aggregate: a duration and a count. -/
def durationOf (name : String) (stat : FinishedStat) : Number × ℤ :=
  if name = "queue" then (stat.queuedTime, 1)
  else if name = "prefill" then (stat.prefillTime, 1)
  else (stat.decodeTime, max 0 (stat.numGenerationTokens.getD 0 - 1))

def addDuration (old : Option Aggregate) (value : Number × ℤ) : Option Aggregate :=
  some ((old.getD {}).add value.1 (.int value.2))

/-! ## Sums in any order -/

theorem addUsage_swap (old a b : Option ℤ) :
    addUsage (addUsage old a) b = addUsage (addUsage old b) a := by
  cases a <;> cases b <;> simp [addUsage, add_right_comm]

theorem addDuration_swap (old : Option Aggregate) (a b : Number × ℤ) :
    addDuration (addDuration old a) b = addDuration (addDuration old b) a := by
  simp only [addDuration, Option.getD_some, Aggregate.add, Number.add_int_swap _ a.2 b.2,
    Flt.add_swap _ (Number.max _ a.1).toFlt]

theorem foldl_addUsage_perm {l l' : List (Option ℤ)} (h : l.Perm l') (old : Option ℤ) :
    l.foldl addUsage old = l'.foldl addUsage old :=
  h.foldl_eq' (fun a _ b _ old => addUsage_swap old a b) old

theorem foldl_addDuration_perm {l l' : List (Number × ℤ)} (h : l.Perm l')
    (old : Option Aggregate) : l.foldl addDuration old = l'.foldl addDuration old :=
  h.foldl_eq' (fun a _ b _ old => addDuration_swap old a b) old

theorem min?_perm {l l' : List ℤ} (h : l.Perm l') : l.min? = l'.min? := by
  cases hl : l.min? with
  | none =>
    rw [List.min?_eq_none_iff.mp hl] at h
    rw [List.nil_perm.mp h, List.min?_nil]
  | some t =>
    obtain ⟨hmem, hle⟩ := List.min?_eq_some_iff.mp hl
    exact (List.min?_eq_some_iff.mpr
      ⟨h.mem_iff.mp hmem, fun t' ht' => hle t' (h.mem_iff.mpr ht')⟩).symm

/-! ## One sequence -/

section Deliver
variable {reader : Reader} {gen : ℕ} {trace : RequestTrace} {g : Node} {n : ℤ} {stat : FinishedStat}
  {raw : RawStats} {uuid : ℕ → String} {perf : ℕ → ℚ}

/-- The first token of a valid timeline is where its clock puts it. -/
theorem firstTokenNs_read {startNs nowNs : ℤ} {stamps : Stamps}
    (h : ValidTimeline reader raw startNs nowNs) (hread : StampsRead reader raw stamps) :
    firstTokenNs reader raw = some stamps.firstToken := by
  obtain ⟨clock, mono, wall, error, q, s, f, l, hraw, hcal, heq, _⟩ := h
  obtain ⟨clock', mono', wall', error', hraw', hcal', hstamps⟩ := hread
  cases hraw.symm.trans hraw'
  cases hcal.symm.trans hcal'
  obtain rfl := Except.ok.inj ((stampsOf_fin heq).symm.trans (stampsWithin_ok_iff.mp hstamps).2)
  simp only [edges, List.cons.injEq, and_true] at heq
  rw [firstTokenNs, hraw]
  dsimp only
  rw [hcal, heq.2.2.1]

/-- The completion start is that of the sequence if there is none yet. -/
theorem completion_observedUpdate (uuid : ℕ → String) (hg : trace.observations[gen]? = some g)
    (hn : sequenceIndex g = .int n) (hcount : stat.numGenerationTokens ≠ none)
    (hvalid : ValidTimeline reader raw g.startNs (trace.nowNs (perf 0))) :
    ∃ g', (observedUpdate reader uuid perf gen stat raw trace).observations[gen]? = some g' ∧
      g'.completionStartNs = g.completionStartNs.or (firstTokenNs reader raw) := by
  obtain ⟨count, hdecode⟩ := exists_decodeCount hcount
  obtain ⟨clock, stamps, error, hjudge, hs, herror, hread⟩ := judge_valid hvalid
  rw [firstTokenNs_read hvalid hread]
  cases hdivides : (Flt.fin count).inRange with
  | true =>
    obtain ⟨g', hg', hcompletion, _⟩ :=
      (observedUpdate_recorded uuid hg hn hdecode hs hjudge herror hdivides).generation
    exact ⟨g', hg', hcompletion⟩
  | false =>
    rw [observedUpdate_part uuid hg hn hdecode hs hjudge herror hdivides]
    have hg0 : (statistic stat count trace).observations[gen]? = some g := hg
    exact ⟨_, completedTrace_generation n stamps _ hg0, rfl⟩

theorem countTokens_get? (stat : FinishedStat) (g : Node) (key : String) :
    (countTokens stat g).usage.get? key = addUsage (g.usage.get? key) (usageOf key stat) := by
  unfold countTokens usageOf
  by_cases hout : key = "output"
  · subst hout
    cases stat.numPromptTokens <;> cases stat.numGenerationTokens <;>
      simp [addUsage, Dict.get?_set]
  · by_cases hin : key = "input"
    · subst hin
      cases stat.numPromptTokens <;> cases stat.numGenerationTokens <;>
        simp [addUsage, Dict.get?_set]
    · cases stat.numPromptTokens <;> cases stat.numGenerationTokens <;>
        simp [addUsage, Dict.get?_set, hout, hin]

end Deliver

/-! ## All of them -/

def sequenceSums : List String := ["queue", "prefill", "decode"]

/-- What the sequences have added to their generation `g` and to the trace. -/
structure Tally (reader : Reader) (gen : ℕ) (base : RequestTrace) (g : Node) (n : ℤ)
    (calls : List TimelineCall) (trace : RequestTrace) : Prop where
  generation : ∃ g', trace.observations[gen]? = some g' ∧ g'.startNs = g.startNs ∧
    sequenceIndex g' = .int (n + calls.length) ∧
    (∀ key, g'.usage.get? key =
      (calls.map fun call => usageOf key call.stat).foldl addUsage (g.usage.get? key)) ∧
    g'.completionStartNs = g.completionStartNs.or (firstTokens reader calls).head?
  engineRequests : trace.engineRequests = base.engineRequests + calls.length
  sums : ∀ name ∈ sequenceSums, trace.stages.get? name =
    (calls.map fun call => durationOf name call.stat).foldl addDuration (base.stages.get? name)
  startedNs : trace.startedNs = base.startedNs
  started : trace.started = base.started

/-- The timeline of a sequence is valid when its statistic arrives. -/
def ValidCall (reader : Reader) (base : RequestTrace) (g : Node) (call : TimelineCall) : Prop :=
  call.stat.numGenerationTokens ≠ none ∧
    ValidTimeline reader call.raw g.startNs (base.nowNs (call.perf 0))

section Run
variable {reader : Reader} {gen : ℕ} {base trace : RequestTrace} {g : Node} {n : ℤ}
  {calls : List TimelineCall} {call : TimelineCall}

/-- One more sequence. -/
theorem Tally.deliver (h : Tally reader gen base g n calls trace)
    (hvalid : ValidCall reader base g call) :
    Tally reader gen base g n (calls ++ [call]) (call.deliver reader gen trace) := by
  obtain ⟨g₁, hg₁, hstart, hindex, husage, hcompletion⟩ := h.generation
  obtain ⟨hcount, hvalid⟩ := hvalid
  obtain ⟨tokens, htokens⟩ := Option.ne_none_iff_exists'.mp hcount
  have hdecode := decodeCount_some htokens
  have hnow : trace.nowNs (call.perf 0) = base.nowNs (call.perf 0) :=
    RequestTrace.nowNs_congr h.startedNs h.started _
  rw [← hstart, ← hnow] at hvalid
  have hd := observedUpdate_delivered reader call.uuid call.perf call.raw hg₁ hdecode hindex
  have hgrew := observedUpdate_counted reader call.uuid call.perf call.raw hg₁ hdecode
  obtain ⟨g₂, hg₂, hc⟩ := completion_observedUpdate call.uuid hg₁ hindex hcount hvalid
  obtain ⟨g₀, g₃, m, hg₀, hg₃, hkeeps, hu, hi, hi', _⟩ := hd.generation
  obtain rfl := Option.some.inj (hg₁.symm.trans hg₀)
  obtain rfl := Option.some.inj (hg₂.symm.trans hg₃)
  rw [hindex] at hi
  obtain rfl : n + calls.length = m := by simpa [Json.int] using hi
  refine ⟨⟨g₂, hg₂, hkeeps.startNs.trans hstart, ?_, ?_, ?_⟩, ?_, ?_, hgrew.startedNs.trans
    h.startedNs, hgrew.started.trans h.started⟩
  · rw [hi', List.length_append]
    push_cast
    rw [add_assoc]
    rfl
  · intro key
    rw [hu, countTokens_get?, husage, List.map_append, List.foldl_append]
    rfl
  · rw [hc, hcompletion, firstTokens, firstTokens, List.filterMap_append, List.head?_append,
      Option.or_assoc]
    congr 2
    cases hfirst : firstTokenNs reader call.raw <;> simp [hfirst]
  · rw [List.length_append, ← Nat.add_assoc, ← h.engineRequests]
    exact hd.engineRequests
  · intro name hname
    rw [List.map_append, List.foldl_append, ← h.sums name hname]
    simp only [sequenceSums, List.mem_cons, List.not_mem_nil, or_false] at hname
    rcases hname with rfl | rfl | rfl
    · exact hd.queue
    · exact hd.prefill
    · obtain ⟨count, hcount', hsum⟩ := hd.decode
      rw [hdecode] at hcount'
      obtain rfl := Except.ok.inj hcount'
      refine hsum.trans ?_
      simp [addDuration, durationOf, added, htokens]

theorem tally_run (hg : base.observations[gen]? = some g) (hn : sequenceIndex g = .int n)
    (hvalid : ∀ call ∈ calls, ValidCall reader base g call) :
    Tally reader gen base g n calls (delivered reader gen base calls) := by
  induction calls using List.reverseRecOn with
  | nil =>
    exact ⟨⟨g, hg, rfl, by simpa using hn, fun _ => rfl, (Option.or_none ..).symm⟩, rfl,
      fun _ _ => rfl, rfl, rfl⟩
  | append_singleton calls call ih =>
    rw [delivered, run_append]
    exact (ih fun c hc => hvalid c (List.mem_append_left _ hc)).deliver
      (hvalid call (List.mem_append_right _ List.mem_cons_self))

end Run

/-- The sums on the generation and in the trace are the same. -/
structure SameTotals (gen : ℕ) (after₁ after₂ : RequestTrace) : Prop where
  generation : ∃ g₁ g₂, after₁.observations[gen]? = some g₁ ∧
    after₂.observations[gen]? = some g₂ ∧ (∀ key, g₁.usage.get? key = g₂.usage.get? key) ∧
    sequenceIndex g₁ = sequenceIndex g₂
  engineRequests : after₁.engineRequests = after₂.engineRequests
  sums : ∀ name ∈ sequenceSums, after₁.stages.get? name = after₂.stages.get? name

/-- The completion start of the generation is the earliest first token. -/
def CompletedEarliest (reader : Reader) (gen : ℕ) (calls : List TimelineCall)
    (after : RequestTrace) : Prop :=
  ∃ g, after.observations[gen]? = some g ∧ g.completionStartNs = (firstTokens reader calls).min?

/-- The same statistics, and the same completion start, that is the earliest
first token. -/
def SameOutcome (reader : Reader) (gen : ℕ) (calls₁ calls₂ : List TimelineCall)
    (after₁ after₂ : RequestTrace) : Prop :=
  SameTotals gen after₁ after₂ ∧
    (after₁.observations[gen]?).map (·.completionStartNs) =
      (after₂.observations[gen]?).map (·.completionStartNs) ∧
    CompletedEarliest reader gen calls₁ after₁ ∧ CompletedEarliest reader gen calls₂ after₂

/-- **The order of the sequences does not matter exactly if** in both orders the
one that finishes first has the earliest first token. -/
theorem finish_order_iff (reader : Reader) (gen : ℕ) (trace : RequestTrace) (g : Node) (n : ℤ)
    (calls₁ calls₂ : List TimelineCall) (hg : trace.observations[gen]? = some g)
    (hn : sequenceIndex g = .int n) (hfresh : g.completionStartNs = none)
    (hperm : (calls₁.map fun call => (call.stat, call.raw)).Perm
      (calls₂.map fun call => (call.stat, call.raw)))
    (hvalid₁ : ∀ call ∈ calls₁, ValidCall reader trace g call)
    (hvalid₂ : ∀ call ∈ calls₂, ValidCall reader trace g call) :
    SameOutcome reader gen calls₁ calls₂ (delivered reader gen trace calls₁)
        (delivered reader gen trace calls₂) ↔
      (firstTokens reader calls₁).head? = (firstTokens reader calls₁).min? ∧
        (firstTokens reader calls₂).head? = (firstTokens reader calls₂).min? := by
  have h₁ := tally_run hg hn hvalid₁
  have h₂ := tally_run hg hn hvalid₂
  obtain ⟨g₁, hg₁, _, hi₁, hu₁, hc₁⟩ := h₁.generation
  obtain ⟨g₂, hg₂, _, hi₂, hu₂, hc₂⟩ := h₂.generation
  rw [hfresh, Option.none_or] at hc₁ hc₂
  have hmap : ∀ {α : Type} (f : FinishedStat × RawStats → α) (calls : List TimelineCall),
      (calls.map fun call => f (call.stat, call.raw)) =
        (calls.map fun call => (call.stat, call.raw)).map f := fun f calls => by
    rw [List.map_map]
    rfl
  have hlen : calls₁.length = calls₂.length := by simpa using hperm.length_eq
  have htokens : (firstTokens reader calls₁).min? = (firstTokens reader calls₂).min? := by
    have hfilter : ∀ calls : List TimelineCall, firstTokens reader calls =
        (calls.map fun call => (call.stat, call.raw)).filterMap
          fun key => firstTokenNs reader key.2 := fun calls => by
      rw [List.filterMap_map]
      rfl
    rw [hfilter, hfilter]
    exact min?_perm (hperm.filterMap _)
  constructor
  · rintro ⟨_, _, ⟨g₁', hg₁', he₁⟩, g₂', hg₂', he₂⟩
    obtain rfl := Option.some.inj (hg₁.symm.trans hg₁')
    obtain rfl := Option.some.inj (hg₂.symm.trans hg₂')
    exact ⟨hc₁ ▸ he₁, hc₂ ▸ he₂⟩
  · rintro ⟨he₁, he₂⟩
    refine ⟨⟨⟨g₁, g₂, hg₁, hg₂, fun key => ?_, ?_⟩, ?_, fun name hname => ?_⟩, ?_,
      ⟨g₁, hg₁, hc₁.trans he₁⟩, g₂, hg₂, hc₂.trans he₂⟩
    · rw [hu₁, hu₂, hmap fun key' => usageOf key key'.1, hmap fun key' => usageOf key key'.1]
      exact foldl_addUsage_perm (hperm.map _) _
    · rw [hi₁, hi₂, hlen]
    · rw [h₁.engineRequests, h₂.engineRequests, hlen]
    · rw [h₁.sums name hname, h₂.sums name hname, hmap fun key => durationOf name key.1,
        hmap fun key => durationOf name key.1]
      exact foldl_addDuration_perm (hperm.map _) _
    · rw [hg₁, hg₂, Option.map_some, Option.map_some, hc₁, hc₂, he₁, he₂, htokens]

/-- The sample sequence, with its first token at an instant of the engine. -/
def sequenceAt (first : ℚ) : TimelineCall where
  stat := sampleSequence.stat
  raw := { sampleRaw with firstTokenTs := .fin first }
  uuid := fun _ => "o"
  perf := fun _ => 8

theorem inReach_near {mono edge : ℚ} (h1 : -1000 ≤ edge - mono) (h2 : edge - mono ≤ 1000) :
    inReach (.fin mono) (.fin edge) = true := by
  have hlimit : (10 : ℚ) ^ 13 < floatLimit := by norm_num [floatLimit]
  refine decide_eq_true ⟨?_, ?_⟩ <;> linarith

theorem sequenceAt_valid {first : ℚ} (h1 : 5 ≤ first) (h2 : first ≤ 7) :
    ValidCall sampleReader sampleBegun sampleBegunNode (sequenceAt first) := by
  have hstamp : ∀ {a b : ℚ}, a ≤ b → stampAt 7000000010 7 a ≤ stampAt 7000000010 7 b := by
    intro a b h
    have := truncate_mono (mul_le_mul_of_nonneg_right (sub_le_sub_right h 7)
      (by norm_num : (0 : ℚ) ≤ 1000000000))
    simpa [stampAt] using this
  refine ⟨Option.some_ne_none _, Dict.ofList [(clockMono, "7.0"), (clockUnix, "7000000010"),
    (clockError, "80")], 7, 7000000010, 80, 2, 5, first, 7, rfl, rfl, rfl,
    ⟨by norm_num, by norm_num, by linarith, by norm_num⟩, ?_, ?_⟩
  · intro edge hedge
    simp only [edges, sequenceAt, sampleRaw, List.mem_cons, List.not_mem_nil, or_false] at hedge
    rcases hedge with rfl | rfl | rfl | rfl <;> exact inReach_near (by linarith) (by linarith)
  have hnow : stampAt 7000000010 7 7 ≤ sampleBegun.nowNs 8 := by decide +kernel
  exact ⟨by decide +kernel, by decide +kernel, hstamp h1, hstamp h2, hnow⟩

/-- The two orders of a sequence and of one whose first token came earlier. -/
theorem finish_order_iff_two :
    SameOutcome sampleReader 0 [sequenceAt 6, sequenceAt (11 / 2)]
        [sequenceAt (11 / 2), sequenceAt 6]
        (delivered sampleReader 0 sampleBegun [sequenceAt 6, sequenceAt (11 / 2)])
        (delivered sampleReader 0 sampleBegun [sequenceAt (11 / 2), sequenceAt 6]) ↔
      (firstTokens sampleReader [sequenceAt 6, sequenceAt (11 / 2)]).head? =
        (firstTokens sampleReader [sequenceAt 6, sequenceAt (11 / 2)]).min? ∧
      (firstTokens sampleReader [sequenceAt (11 / 2), sequenceAt 6]).head? =
        (firstTokens sampleReader [sequenceAt (11 / 2), sequenceAt 6]).min? := by
  have h6 : ValidCall sampleReader sampleBegun sampleBegunNode (sequenceAt 6) :=
    sequenceAt_valid (by norm_num) (by norm_num)
  have h5 : ValidCall sampleReader sampleBegun sampleBegunNode (sequenceAt (11 / 2)) :=
    sequenceAt_valid (by norm_num) (by norm_num)
  refine finish_order_iff sampleReader 0 sampleBegun sampleBegunNode 0 _ _ rfl rfl rfl
    (List.Perm.swap _ _ _) ?_ ?_
  · intro call hcall
    rcases List.mem_cons.mp hcall with rfl | hcall
    · exact h6
    · rwa [List.mem_singleton.mp hcall]
  · intro call hcall
    rcases List.mem_cons.mp hcall with rfl | hcall
    · exact h5
    · rwa [List.mem_singleton.mp hcall]

/-- Each order keeps the first token of the sequence that finishes first. -/
theorem completion_of_the_first :
    (delivered sampleReader 0 sampleBegun
      [sequenceAt 6, sequenceAt (11 / 2)]).observations[0]?.map (·.completionStartNs) =
      some (some 6000000010) ∧
    (delivered sampleReader 0 sampleBegun
      [sequenceAt (11 / 2), sequenceAt 6]).observations[0]?.map (·.completionStartNs) =
      some (some 5500000010) ∧
    ¬ SameOutcome sampleReader 0 [sequenceAt 6, sequenceAt (11 / 2)]
        [sequenceAt (11 / 2), sequenceAt 6]
        (delivered sampleReader 0 sampleBegun [sequenceAt 6, sequenceAt (11 / 2)])
        (delivered sampleReader 0 sampleBegun [sequenceAt (11 / 2), sequenceAt 6]) := by
  have hlate : (delivered sampleReader 0 sampleBegun
      [sequenceAt 6, sequenceAt (11 / 2)]).observations[0]?.map (·.completionStartNs) =
      some (some 6000000010) := by decide +kernel
  have hearly : (delivered sampleReader 0 sampleBegun
      [sequenceAt (11 / 2), sequenceAt 6]).observations[0]?.map (·.completionStartNs) =
      some (some 5500000010) := by decide +kernel
  refine ⟨hlate, hearly, ?_⟩
  rintro ⟨_, hsame, _⟩
  rw [hlate, hearly] at hsame
  revert hsame
  decide

end VllmObserver.Adapter
