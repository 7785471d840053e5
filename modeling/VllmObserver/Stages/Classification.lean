import VllmObserver.Stages.Contention
import Mathlib.Algebra.Order.BigOperators.Group.List

/-! # Prefill and decode

A call of `schedule` counts as a chunk of the prefill if it gives the request more
than one token, and else as a decode step. So a chunk of one token is taken for a
decode step, and ends the prefill. -/
namespace VllmObserver.Stages
open VllmObserver.Lib VllmObserver.Core

/-- The tokens that a call of `schedule` gives the request. -/
def scheduledTokens (requestId : String) : EngineOp → Option ℤ
  | .schedule _ tokens _ _ => tokens.get? requestId
  | _ => none

def EngineOp.call : EngineOp → Option ScheduleCall
  | .schedule _ tokens _ duration => some ⟨tokens, duration⟩
  | _ => none

section Calls
variable {requestId : String}

theorem ScheduleCall.scheduled_eq (call : ScheduleCall) :
    call.scheduled requestId = (call.tokens.get? requestId).isSome := by
  rw [Bool.eq_iff_iff, ScheduleCall.scheduled, decide_eq_true_iff, Dict.mem_keys_iff,
    Option.isSome_iff_exists]

theorem filterMap_call (ops : List EngineOp) :
    (ops.filterMap EngineOp.call).filterMap (·.tokens.get? requestId) =
      ops.filterMap (scheduledTokens requestId) := by
  rw [List.filterMap_filterMap]
  congr 1
  funext op
  cases op <;> rfl

theorem countP_chunks (calls : List ScheduleCall) :
    (calls.countP fun call => call.scheduled requestId && !call.single requestId) =
      (calls.filterMap (·.tokens.get? requestId)).countP (1 < ·) := by
  rw [List.countP_filterMap]
  refine List.countP_congr fun call _ => ?_
  rw [ScheduleCall.single, ScheduleCall.scheduled_eq, ScheduleCall.tokensOf]
  cases call.tokens.get? requestId <;> simp

theorem countP_single (calls : List ScheduleCall) :
    calls.countP (·.single requestId) =
      (calls.filterMap (·.tokens.get? requestId)).countP (· ≤ 1) := by
  rw [List.countP_filterMap]
  refine List.countP_congr fun call _ => ?_
  rw [ScheduleCall.single, ScheduleCall.scheduled_eq, ScheduleCall.tokensOf]
  cases call.tokens.get? requestId <;> simp

/-- Until it finishes the request keeps its record, which sees every call. -/
theorem foldl_recallCalls {during : List EngineOp}
    (hkept : ∀ outputs, .step outputs ∈ during → requestId ∉ finishedIds outputs)
    (calls : List ScheduleCall) : during.foldl (recallCalls requestId) (some calls) =
      some (calls ++ during.filterMap EngineOp.call) := by
  induction during generalizing calls with
  | nil => simp
  | cons op rest ih =>
    have hrest := fun calls => ih (fun outputs h => hkept outputs (List.mem_cons_of_mem _ h)) calls
    rw [List.foldl_cons]
    cases op with
    | addRequest request now =>
      have hsame : recallCalls requestId (some calls) (.addRequest request now) = some calls := by
        simp only [recallCalls, Option.getD_some, ite_self]
      rw [hsame, hrest]
      rfl
    | schedule guard tokens now duration =>
      rw [recallCalls, Option.map_some, hrest, List.append_assoc]
      rfl
    | abort ids => exact hrest calls
    | execute ids started ended => exact hrest calls
    | step outputs =>
      have hnot := hkept outputs List.mem_cons_self
      rw [recallCalls, if_neg fun h => hnot h.1, hrest]
      rfl

end Calls

section Run
variable (reader : Reader) (dumps : Record → Except PyError String)

/-- The registry after a run. -/
def registryAfter (ops : List EngineOp) : Registry :=
  (run (EngineState.apply reader dumps) {} ops).registry

variable {reader dumps} {before during : List EngineOp} {request : Request} {now : ℚ}

/-- The record of an added request counts the tokens of the calls behind. -/
theorem tallied_since_added (now : ℚ)
    (hnew : (registryAfter reader dumps before).get? request.requestId = none)
    (hkept : ∀ outputs, .step outputs ∈ during → request.requestId ∉ finishedIds outputs) :
    ∃ record, (registryAfter reader dumps
        (before ++ .addRequest request now :: during)).get? request.requestId = some record ∧
      Tallied request.requestId (during.filterMap EngineOp.call) record := by
  have hbefore : sinceAdded request.requestId before = none := by
    have htracked := tracked_run reader dumps request.requestId before
    unfold Tracked at htracked
    cases hcalls : sinceAdded request.requestId before with
    | none => rfl
    | some calls =>
      rw [hcalls] at htracked
      obtain ⟨record, hrecord, _⟩ := htracked
      cases hnew.symm.trans hrecord
  have hcalls : sinceAdded request.requestId (before ++ .addRequest request now :: during) =
      some (during.filterMap EngineOp.call) := by
    have hadd : recallCalls request.requestId none (.addRequest request now) = some [] := if_pos rfl
    rw [sinceAdded, List.foldl_append, ← sinceAdded, hbefore, List.foldl_cons, hadd,
      foldl_recallCalls hkept, List.nil_append]
  have htracked := tracked_run reader dumps request.requestId
    (before ++ .addRequest request now :: during)
  unfold Tracked at htracked
  rw [hcalls] at htracked
  exact htracked

/-- **Prefill and decode steps are classified** as the scheduler meant them
exactly if every chunk of the prompt has at least two tokens. -/
theorem phases_classified_iff (reader : Reader) (dumps : Record → Except PyError String)
    (before during : List EngineOp) (request : Request) (now : ℚ) (chunks : List ℤ) (m : ℕ)
    (hnew : (registryAfter reader dumps before).get? request.requestId = none)
    (hkept : ∀ outputs, .step outputs ∈ during → request.requestId ∉ finishedIds outputs)
    (htokens : during.filterMap (scheduledTokens request.requestId) =
      chunks ++ List.replicate m 1) :
    ((∃ record, (registryAfter reader dumps
          (before ++ .addRequest request now :: during)).get? request.requestId = some record ∧
        record.prefillChunks = chunks.length ∧ record.decodeSteps = m) ∧
      ∀ pre post record, during = pre ++ post →
        (registryAfter reader dumps
          (before ++ .addRequest request now :: pre)).get? request.requestId = some record →
        record.prefillDone = true →
          chunks.sum ≤ (pre.filterMap (scheduledTokens request.requestId)).sum) ↔
      ∀ c ∈ chunks, 2 ≤ c := by
  obtain ⟨record, hrecord, htallied⟩ := tallied_since_added now hnew hkept
  have hchunks := htallied.chunks
  rw [countP_chunks, filterMap_call, htokens, List.countP_append] at hchunks
  have hdecodes := htallied.decodes
  rw [countP_single, filterMap_call, htokens, List.countP_append] at hdecodes
  have hones : ∀ p : ℤ → Bool, (List.replicate m 1).countP p = if p 1 then m else 0 := fun p =>
    List.countP_replicate
  rw [hones, if_neg (by decide), Nat.add_zero] at hchunks
  rw [hones, if_pos (by decide)] at hdecodes
  constructor
  · rintro ⟨⟨record', hrecord', hlen, _⟩, _⟩ c hc
    rw [hrecord] at hrecord'
    rw [Option.some.inj hrecord', hlen] at hchunks
    have hall := List.countP_eq_length.mp hchunks.symm c hc
    exact of_decide_eq_true hall
  · intro hall
    constructor
    · refine ⟨record, hrecord, ?_, ?_⟩
      · rw [hchunks, List.countP_eq_length]
        exact fun c hc => decide_eq_true (hall c hc)
      · rw [hdecodes, Nat.add_eq_right, List.countP_eq_zero]
        intro c hc
        have htwo := hall c hc
        simp only [decide_eq_true_eq]
        omega
    · rintro pre post early rfl hearly hdone
      have hpre : ∀ outputs, .step outputs ∈ pre → request.requestId ∉ finishedIds outputs :=
        fun outputs h => hkept outputs (List.mem_append_left _ h)
      obtain ⟨early', hearly', htallied'⟩ := tallied_since_added now hnew hpre
      cases hearly.symm.trans hearly'
      -- a call with at most one token is behind all of the chunks
      have hsome : 0 < (pre.filterMap (scheduledTokens request.requestId)).countP (· ≤ 1) := by
        rw [htallied'.done, List.any_eq_true, ← List.countP_pos_iff, countP_single,
          filterMap_call] at hdone
        exact hdone
      rw [List.filterMap_append, List.append_eq_append_iff] at htokens
      rcases htokens with ⟨rest, hrest, _⟩ | ⟨steps, hsteps, hones⟩
      · obtain ⟨c, hc, hle⟩ := List.countP_pos_iff.mp hsome
        have htwo := hall c (hrest ▸ List.mem_append_left _ hc)
        simp only [decide_eq_true_eq] at hle
        omega
      · rw [hsteps, List.sum_append]
        have hnonneg : 0 ≤ steps.sum := by
          refine List.sum_nonneg fun c hc => ?_
          have hone : c = 1 := List.eq_of_mem_replicate (hones ▸ List.mem_append_left _ hc)
          omega
        omega

end Run

/-- A request whose prompt is scheduled in the given chunks, and one decode step. -/
def twoChunkRun (first second : ℤ) : List EngineOp := [
  .schedule unguarded (Dict.ofList [("a", first)]) 2 1,
  .schedule unguarded (Dict.ofList [("b", 3)]) 3 1,
  .schedule unguarded (Dict.ofList [("a", second)]) 4 1,
  .schedule unguarded (Dict.ofList [("a", 1), ("b", 1)]) 5 1]

/-- Five tokens in chunks of two and three. -/
theorem phases_classified_two_chunks :
    ((∃ record, (registryAfter tenSeconds dumpSteps
          ([.addRequest (request "b") 1] ++ .addRequest (request "a") 1 ::
            twoChunkRun 2 3)).get? "a" = some record ∧
        record.prefillChunks = 2 ∧ record.decodeSteps = 1) ∧
      ∀ pre post record, twoChunkRun 2 3 = pre ++ post →
        (registryAfter tenSeconds dumpSteps
          ([.addRequest (request "b") 1] ++ .addRequest (request "a") 1 :: pre)).get? "a" =
            some record →
        record.prefillDone = true →
          ([2, 3] : List ℤ).sum ≤ (pre.filterMap (scheduledTokens "a")).sum) ↔
      ∀ c ∈ ([2, 3] : List ℤ), 2 ≤ c :=
  phases_classified_iff tenSeconds dumpSteps [.addRequest (request "b") 1] (twoChunkRun 2 3)
    (request "a") 1 [2, 3] 1 (by decide +kernel) (by simp [twoChunkRun]) (by decide +kernel)

/-- Of five tokens in chunks of one and four the first one counts as a decode
step, and the prefill as done with it. -/
theorem one_token_chunk_misread :
    ([1, 4] : List ℤ).sum = 5 ∧
    (twoChunkRun 1 4).filterMap (scheduledTokens "a") = [1, 4] ++ List.replicate 1 1 ∧
    ((registryAfter tenSeconds dumpSteps
        (.addRequest (request "a") 1 :: twoChunkRun 1 4)).get? "a").map
      (fun record => (record.prefillChunks, record.decodeSteps)) = some (1, 2) ∧
    ((registryAfter tenSeconds dumpSteps
        (.addRequest (request "a") 1 :: (twoChunkRun 1 4).take 1)).get? "a").map
      (·.prefillDone) = some true ∧
    ¬ ∃ record, (registryAfter tenSeconds dumpSteps
        (.addRequest (request "a") 1 :: twoChunkRun 1 4)).get? "a" = some record ∧
      record.prefillChunks = 2 ∧ record.decodeSteps = 1 := by
  have hcounts : ((registryAfter tenSeconds dumpSteps
      (.addRequest (request "a") 1 :: twoChunkRun 1 4)).get? "a").map
      (fun record => (record.prefillChunks, record.decodeSteps)) = some (1, 2) := by
    decide +kernel
  refine ⟨by decide, by decide +kernel, hcounts, by decide +kernel, ?_⟩
  rintro ⟨record, hrecord, hchunks, _⟩
  rw [hrecord, Option.map_some, hchunks] at hcounts
  cases hcounts

end VllmObserver.Stages
