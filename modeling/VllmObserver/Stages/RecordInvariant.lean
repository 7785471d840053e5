import VllmObserver.Stages.Lifetime
import Mathlib.Data.List.Induction
import Mathlib.Tactic.Linarith

/-! # The counters of a record

Seven counters and timestamps of a record are updated by hooks that know nothing
of each other. Under a clock that does not go back they agree in every state. -/
namespace VllmObserver.Stages
open VllmObserver.Lib VllmObserver.Core

/-- How the fields of a record are related. -/
structure Record.Sound (r : Record) : Prop where
  steps : r.scheduleSteps = r.prefillChunks + r.decodeSteps
  done : r.prefillDone = true ↔ 0 < r.decodeSteps
  first : r.firstSchedule = none ↔ r.scheduleSteps = 0
  waiting : ∃ w, r.waitingEnter = some w ∧ ∀ f, r.firstSchedule = some f → w ≤ f
  contention : 0 < r.contentionSteps → r.firstSchedule ≠ none
  captured : r.executeIntervals.length = min 512 r.executeSteps
  ordered : ∀ i ∈ r.executeIntervals, i.1 ≤ i.2
  seconds : 0 ≤ r.scheduleSeconds ∧ 0 ≤ r.executeSeconds ∧ 0 ≤ r.contentionSeconds

namespace Record.Sound
variable {r : Record}

/-- A record of a request that was just added. -/
theorem added (now : ℚ) : Sound { waitingEnter := some now } where
  steps := rfl
  done := by simp
  first := by simp
  waiting := ⟨now, rfl, by simp⟩
  contention := by simp
  captured := rfl
  ordered := by simp
  seconds := ⟨le_refl _, le_refl _, le_refl _⟩

theorem scheduled (h : r.Sound) {now duration : ℚ} (hnow : ∀ w, r.waitingEnter = some w → w ≤ now)
    (hd : 0 ≤ duration) (tokens : ℤ) : (r.scheduled now duration tokens).Sound := by
  obtain ⟨w, hw, hfirst⟩ := h.waiting
  have hwait : ∀ f, r.firstSchedule.or (some now) = some f → w ≤ f := by
    intro f hf
    rcases Option.or_eq_some_iff.mp hf with hf | ⟨_, hf⟩
    · exact hfirst f hf
    · exact Option.some.inj hf ▸ hnow w hw
  have hsome : r.firstSchedule.or (some now) ≠ none := by
    cases r.firstSchedule <;> simp
  have hsec : 0 ≤ r.scheduleSeconds + duration := add_nonneg h.seconds.1 hd
  have hsteps := h.steps
  unfold Record.scheduled
  simp only
  split
  · -- a chunk of the prefill
    exact ⟨by simp only; omega, h.done, by simp, ⟨w, hw, hwait⟩, fun _ => hsome,
      h.captured, h.ordered, hsec, h.seconds.2⟩
  · -- a decode step ends the prefill
    exact ⟨by simp only; omega, by simp, by simp, ⟨w, hw, hwait⟩, fun _ => hsome,
      h.captured, h.ordered, hsec, h.seconds.2⟩

theorem contended (h : r.Sound) {duration : ℚ} (hd : 0 ≤ duration) :
    (r.contended duration).Sound := by
  unfold Record.contended
  split
  · rename_i hc
    have hsome : r.firstSchedule ≠ none := by
      intro hn
      simp [hn] at hc
    exact { h with
      contention := fun _ => hsome
      seconds := ⟨h.seconds.1, h.seconds.2.1, add_nonneg h.seconds.2.2 hd⟩ }
  · exact h

theorem executed (h : r.Sound) {started ended : ℚ} (hle : started ≤ ended) :
    (r.executed started ended).Sound := by
  have hcap := h.captured
  refine { h with captured := ?_, ordered := ?_, seconds := ⟨h.seconds.1, ?_, h.seconds.2.2⟩ }
  · simp only [Record.executed]
    split
    · rw [List.length_append, List.length_singleton]
      omega
    · omega
  · simp only [Record.executed]
    split
    · intro i hi
      rcases List.mem_append.mp hi with hi | hi
      · exact h.ordered i hi
      · rw [List.mem_singleton.mp hi]
        exact hle
    · exact h.ordered
  · exact add_nonneg h.seconds.2.1 (sub_nonneg.mpr hle)

end Record.Sound

/-! ## Every record of the registry -/

/-- Each record has the property. -/
def Registry.All (P : Record → Prop) (registry : Registry) : Prop :=
  ∀ requestId record, registry.get? requestId = some record → P record

namespace Registry.All
variable {P Q : Record → Prop} {registry : Registry}

theorem change (h : registry.All P) (requestId : String) {f : Record → Record}
    (hf : ∀ r, P r → P (f r)) : (registry.change requestId f).All P := by
  unfold Registry.change
  split
  · rename_i record hr
    intro other r hget
    rcases Dict.get?_set_some hget with ⟨_, rfl⟩ | ⟨_, hget⟩
    · exact hf record (h requestId record hr)
    · exact h other r hget
  · exact h

theorem foldl_change {f : String → Record → Record} (hf : ∀ id r, P r → P (f id r)) :
    ∀ (requestIds : List String) {registry : Registry}, registry.All P →
      (requestIds.foldl (fun registry requestId => registry.change requestId (f requestId))
        registry).All P
  | [], _, h => h
  | requestId :: rest, _, h => foldl_change hf rest (h.change requestId (hf requestId))

theorem mapValues {f : String → Record → Record} (h : registry.All P)
    (hf : ∀ id r, P r → P (f id r)) : Registry.All P (registry.mapValues f) := by
  intro id r hget
  rw [Dict.get?_mapValues] at hget
  obtain ⟨old, hold, rfl⟩ := Option.map_eq_some_iff.mp hget
  exact hf id old (h id old hold)

/-- A request that is added again keeps its record. -/
theorem observedAddRequest (h : registry.All P) (requestId : String) {now : ℚ}
    (hnew : P { waitingEnter := some now }) (hold : ∀ r, P r → r.waitingEnter ≠ none) :
    (registry.observedAddRequest requestId now).All P := by
  unfold Registry.observedAddRequest Registry.setDefault
  cases hr : registry.get? requestId with
  | some record =>
    refine h.change requestId fun r hP => ?_
    obtain ⟨w, hw⟩ := Option.ne_none_iff_exists'.mp (hold r hP)
    have hsame : { r with waitingEnter := r.waitingEnter.or (some now) } = r := by
      rw [hw, Option.some_or, ← hw]
    rw [hsame]
    exact hP
  | none =>
    have hget : (registry.set requestId {}).get? requestId = some {} := by
      rw [Dict.get?_set, if_pos rfl]
    simp only [Registry.change, hget]
    intro other r hother
    rcases Dict.get?_set_some hother with ⟨_, rfl⟩ | ⟨hne, hother⟩
    · exact hnew
    · rw [Dict.get?_set, if_neg hne] at hother
      exact h other r hother

theorem observedSchedule (h : registry.All P) (numScheduledTokens : Dict String ℤ)
    {now duration : ℚ} (hs : ∀ r tokens, P r → P (r.scheduled now duration tokens))
    (hc : ∀ r, P r → P (r.contended duration)) :
    (registry.observedSchedule numScheduledTokens now duration).All P := by
  have hfold := foldl_change (f := fun id r => r.scheduled now duration
    ((numScheduledTokens.get? id).getD 0)) (fun id r hP => hs r _ hP) numScheduledTokens.keys h
  unfold Registry.observedSchedule
  simp only
  split
  · exact hfold
  · refine hfold.mapValues fun id r hP => ?_
    split
    · exact hP
    · exact hc r hP

theorem attachStages (h : registry.All P) (dumps : Record → Except PyError String)
    (output : Output) : (attachStages dumps registry output).1.All P := by
  rw [attachStages_eq]
  cases entryOf registry output with
  | none => exact h
  | some entry => exact fun other r hget => h other r (Dict.get?_erase_some hget).2

theorem attachOutputs (dumps : Record → Except PyError String) :
    ∀ (outputs : List Output) {registry : Registry}, registry.All P →
      (attachOutputs dumps registry outputs).1.All P
  | [], _, h => h
  | output :: rest, registry, h => by
    simp only [Stages.attachOutputs]
    refine attachOutputs dumps rest ?_
    split
    · exact h.attachStages dumps output
    · exact h

end Registry.All

/-! ## Runs under a clock that does not go back -/

/-- The last reading of the monotonic clock in a step. -/
def EngineOp.reading? : EngineOp → Option ℚ
  | .addRequest _ now => some now
  | .schedule _ _ now _ => some now
  | .execute _ _ ended => some ended
  | .abort _ | .step _ => none

/-- What the step measured is not negative. -/
def EngineOp.Forward : EngineOp → Prop
  | .schedule _ _ _ duration => 0 ≤ duration
  | .execute _ started ended => started ≤ ended
  | _ => True

/-- The clocks of a run do not go back. -/
structure Clocked (ops : List EngineOp) : Prop where
  readings : (ops.filterMap EngineOp.reading?).Pairwise (· ≤ ·)
  forward : ∀ op ∈ ops, op.Forward

/-- A record is sound, and its request was added at one of the readings. -/
structure Timed (readings : List ℚ) (r : Record) : Prop extends r.Sound where
  entered : ∀ w, r.waitingEnter = some w → w ∈ readings

theorem waitingEnter_scheduled (r : Record) (now duration : ℚ) (tokens : ℤ) :
    (r.scheduled now duration tokens).waitingEnter = r.waitingEnter := by
  unfold Record.scheduled
  simp only
  split <;> rfl

theorem waitingEnter_contended (r : Record) (duration : ℚ) :
    (r.contended duration).waitingEnter = r.waitingEnter := by
  unfold Record.contended
  split <;> rfl

/-- Another step reads the clock no earlier. -/
theorem Clocked.le {ops : List EngineOp} {op : EngineOp} (hc : Clocked (ops ++ [op])) {now : ℚ}
    (hop : op.reading? = some now) : ∀ w ∈ ops.filterMap EngineOp.reading?, w ≤ now := by
  intro w hw
  have h := hc.readings
  rw [List.filterMap_append, List.pairwise_append] at h
  exact h.2.2 w hw now (by simp [hop])

section Run
variable (reader : Reader) (dumps : Record → Except PyError String)

/-- One step, at the end of a run, keeps every record sound. -/
theorem timed_step {s : EngineState} {ops : List EngineOp} {op : EngineOp}
    (hc : Clocked (ops ++ [op])) (h : s.registry.All (Timed (ops.filterMap EngineOp.reading?))) :
    (s.apply reader dumps op).registry.All
      (Timed ((ops ++ [op]).filterMap EngineOp.reading?)) := by
  have hfwd : op.Forward := hc.forward op (by simp)
  have hold : s.registry.All (Timed ((ops ++ [op]).filterMap EngineOp.reading?)) := by
    intro id r hget
    obtain ⟨hsound, hent⟩ := h id r hget
    refine ⟨hsound, fun w hw => ?_⟩
    rw [List.filterMap_append]
    exact List.mem_append_left _ (hent w hw)
  cases op with
  | addRequest request now =>
    refine hold.observedAddRequest request.requestId ⟨.added now, ?_⟩ ?_
    · intro w hw
      obtain rfl := Option.some.inj hw
      simp [EngineOp.reading?]
    · intro r hr
      obtain ⟨w, hw, _⟩ := hr.waiting
      simp [hw]
  | schedule guard tokens now duration =>
    -- the clock has not gone back since the request was added
    have hle : ∀ w ∈ (ops ++ [EngineOp.schedule guard tokens now duration]).filterMap
        EngineOp.reading?, w ≤ now := by
      intro w hw
      rw [List.filterMap_append, List.mem_append] at hw
      rcases hw with hw | hw
      · exact hc.le rfl w hw
      · rw [List.mem_singleton.mp hw]
    refine hold.observedSchedule tokens (fun r n hr => ?_) (fun r hr => ?_)
    · refine ⟨hr.toSound.scheduled (fun w hw => hle w (hr.entered w hw)) hfwd n, fun w hw => ?_⟩
      exact hr.entered w (waitingEnter_scheduled r now duration n ▸ hw)
    · refine ⟨hr.toSound.contended hfwd, fun w hw => ?_⟩
      exact hr.entered w (waitingEnter_contended r duration ▸ hw)
  | abort requestIds => exact hold
  | execute requestIds started ended =>
    exact Registry.All.foldl_change (f := fun _ r => r.executed started ended)
      (fun _ r hr => ⟨hr.toSound.executed hfwd, hr.entered⟩) requestIds hold
  | step outputs => exact Registry.All.attachOutputs dumps outputs hold

theorem Clocked.initial {pre post : List EngineOp} (h : Clocked (pre ++ post)) : Clocked pre where
  readings := by
    have hr := h.readings
    rw [List.filterMap_append] at hr
    exact (List.pairwise_append.mp hr).1
  forward := fun op hop => h.forward op (List.mem_append_left _ hop)

theorem timed_run {ops : List EngineOp} (hc : Clocked ops) :
    (run (EngineState.apply reader dumps) {} ops).registry.All
      (Timed (ops.filterMap EngineOp.reading?)) := by
  induction ops using List.reverseRecOn with
  | nil => exact fun _ _ h => by cases h
  | append_singleton ops op ih =>
    rw [run_append]
    exact timed_step reader dumps hc (ih hc.initial)

/-- **Every record is sound** in every state of a run whose clocks do not go back. -/
theorem registry_sound (ops : List EngineOp) (hc : Clocked ops) :
    ∀ pre post, ops = pre ++ post → ∀ requestId record,
      (run (EngineState.apply reader dumps) {} pre).registry.get? requestId = some record →
      record.Sound := by
  rintro pre post rfl requestId record hget
  exact (timed_run reader dumps hc.initial requestId record hget).toSound

end Run

/-- A request whose prefill takes two chunks, with another one in between. -/
def chunkedRun : List EngineOp := [
  .addRequest (request "a") 1,
  .schedule { deadline := none, importable := true, finishes := true, now := 1 }
    (Dict.ofList [("a", 4)]) 2 1,
  .addRequest (request "b") 2,
  .schedule { deadline := none, importable := true, finishes := true, now := 2 }
    (Dict.ofList [("b", 4)]) 3 1,
  .addRequest (request "a") 4,
  .execute ["a", "b"] 2 5]

theorem chunkedRun_clocked : Clocked chunkedRun where
  readings := by decide
  forward := by
    intro op hop
    simp only [chunkedRun, List.mem_cons, List.not_mem_nil, or_false] at hop
    rcases hop with rfl | rfl | rfl | rfl | rfl | rfl <;> norm_num [EngineOp.Forward]

theorem registry_sound_chunked : ∃ record,
    (run (EngineState.apply tenSeconds dumpSteps) {} chunkedRun).registry.get? "a" = some record ∧
      record.contentionSteps = 1 ∧ record.Sound := by
  have hget : (run (EngineState.apply tenSeconds dumpSteps) {} chunkedRun).registry.get? "a" =
      some { waitingEnter := some 1, firstSchedule := some 2, scheduleSteps := 1,
             prefillChunks := 1, scheduleSeconds := 1, executeSeconds := 3, executeSteps := 1,
             contentionSteps := 1, contentionSeconds := 1, executeIntervals := [(2, 5)] } := by
    decide +kernel
  exact ⟨_, hget, rfl, registry_sound tenSeconds dumpSteps chunkedRun chunkedRun_clocked chunkedRun
    [] (List.append_nil _).symm "a" _ hget⟩

end VllmObserver.Stages
