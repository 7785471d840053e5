import VllmObserver.Stages.Lifetime
import Mathlib.Data.List.Induction
import Mathlib.Data.List.TakeWhile

/-! # Contention

`schedule` keeps three flags of a request and updates its counters in two loops.
The counters are determined by the history: by the calls of `schedule` since the
request's record was created. -/
namespace VllmObserver.Stages
open VllmObserver.Lib VllmObserver.Core

/-- What a call of `schedule` returned, and how long it took. -/
structure ScheduleCall where
  tokens : Dict String ℤ
  duration : ℚ

namespace ScheduleCall

def scheduledAny (call : ScheduleCall) : Bool := !call.tokens.keys.isEmpty

def scheduled (requestId : String) (call : ScheduleCall) : Bool :=
  decide (requestId ∈ call.tokens.keys)

def tokensOf (requestId : String) (call : ScheduleCall) : ℤ :=
  (call.tokens.get? requestId).getD 0

/-- The request was scheduled with at most one token. -/
def single (requestId : String) (call : ScheduleCall) : Bool :=
  call.scheduled requestId && decide (call.tokensOf requestId ≤ 1)

end ScheduleCall

section History
variable (requestId : String)

/-- One operation behind the calls since the current record of the request was
created; none without a record. A finished output takes the record out. -/
def recallCalls (calls : Option (List ScheduleCall)) : EngineOp → Option (List ScheduleCall)
  | .addRequest request _ =>
    if request.requestId = requestId then some (calls.getD []) else calls
  | .schedule _ tokens _ duration => calls.map (· ++ [⟨tokens, duration⟩])
  | .step outputs => if requestId ∈ finishedIds outputs ∧ requestId ≠ "" then none else calls
  | .abort _ | .execute _ _ _ => calls

/-- The calls since the current record of the request was created. -/
def sinceAdded (ops : List EngineOp) : Option (List ScheduleCall) :=
  ops.foldl (recallCalls requestId) none

/-- The calls from the first one on that scheduled the request. -/
def fromFirst (calls : List ScheduleCall) : List ScheduleCall :=
  calls.dropWhile fun call => !call.scheduled requestId

/-- Those of them before the first one that scheduled it with at most one token. -/
def midPrefill (calls : List ScheduleCall) : List ScheduleCall :=
  (fromFirst requestId calls).takeWhile fun call => !call.single requestId

/-- The calls that scheduled others in the middle of the request's prefill. -/
def contending (calls : List ScheduleCall) : List ScheduleCall :=
  (midPrefill requestId calls).filter fun call =>
    call.scheduledAny && !call.scheduled requestId

end History

/-! ## One more call -/

section Concat
variable {requestId : String} {calls : List ScheduleCall} {call : ScheduleCall}

theorem ScheduleCall.scheduled_of_single (h : call.single requestId = true) :
    call.scheduled requestId = true := (Bool.and_eq_true_iff.mp h).1

theorem ScheduleCall.scheduledAny_of_scheduled (h : call.scheduled requestId = true) :
    call.scheduledAny = true := by
  have hmem : requestId ∈ call.tokens.keys := of_decide_eq_true h
  cases hkeys : call.tokens.keys with
  | nil => simp [hkeys] at hmem
  | cons _ _ => simp [scheduledAny, hkeys]

theorem fromFirst_eq_nil_iff : fromFirst requestId calls = [] ↔
    calls.any (·.scheduled requestId) = false := by
  simp [fromFirst, List.dropWhile_eq_nil_iff]

theorem fromFirst_concat : fromFirst requestId (calls ++ [call]) =
    if calls.any (·.scheduled requestId) then fromFirst requestId calls ++ [call]
    else if call.scheduled requestId then [call] else [] := by
  rw [fromFirst, List.dropWhile_append]
  change (if (fromFirst requestId calls).isEmpty then _
    else fromFirst requestId calls ++ [call]) = _
  cases hany : calls.any (·.scheduled requestId) with
  | false =>
    rw [fromFirst_eq_nil_iff.mpr hany]
    cases hc : call.scheduled requestId <;> simp [hc]
  | true =>
    have hne : fromFirst requestId calls ≠ [] := by
      intro hnil
      rw [fromFirst_eq_nil_iff, hany] at hnil
      cases hnil
    simp [hne]

/-- What only scheduled calls have is not found before the first of them. -/
theorem countP_fromFirst {p : ScheduleCall → Bool}
    (hp : ∀ call, p call = true → call.scheduled requestId = true) (calls : List ScheduleCall) :
    (fromFirst requestId calls).countP p = calls.countP p := by
  have hnone : (calls.takeWhile fun call => !call.scheduled requestId).countP p = 0 := by
    rw [List.countP_eq_zero]
    intro c hc hpc
    have hnot := List.mem_takeWhile_imp hc
    rw [hp c hpc] at hnot
    cases hnot
  have hsplit : calls.countP p = ((calls.takeWhile fun call => !call.scheduled requestId) ++
      fromFirst requestId calls).countP p := by
    rw [fromFirst, List.takeWhile_append_dropWhile]
  rw [hsplit, List.countP_append, hnone, Nat.zero_add]

theorem any_single_fromFirst : (fromFirst requestId calls).any (·.single requestId) =
    calls.any (·.single requestId) := by
  rw [Bool.eq_iff_iff, List.any_eq_true, List.any_eq_true, ← List.countP_pos_iff,
    ← List.countP_pos_iff, countP_fromFirst fun _ => ScheduleCall.scheduled_of_single]

theorem midPrefill_of_not_done (h : calls.any (·.single requestId) = false) :
    midPrefill requestId calls = fromFirst requestId calls := by
  rw [← any_single_fromFirst, List.any_eq_false] at h
  exact List.takeWhile_eq_self_iff.mpr fun c hc => by simpa using h c hc

/-- A call that ends the prefill, or one behind it, is not in its middle. -/
theorem midPrefill_concat (h : calls.any (·.single requestId) = true ∨
    call.single requestId = true) :
    midPrefill requestId (calls ++ [call]) = midPrefill requestId calls := by
  rw [midPrefill, fromFirst_concat]
  cases hany : calls.any (·.scheduled requestId) with
  | true =>
    rw [if_pos rfl, List.takeWhile_append]
    split
    · rename_i hlen
      -- none of the calls before ended the prefill, so this one does
      have hself := (List.takeWhile_prefix _).eq_of_length hlen
      have hall := List.takeWhile_eq_self_iff.mp hself
      have hnone : calls.any (·.single requestId) = false := by
        rw [← any_single_fromFirst, List.any_eq_false]
        intro c hc
        simpa using hall c hc
      have hcall : call.single requestId = true := h.resolve_left (by simp [hnone])
      rw [midPrefill, hself]
      simp [hcall]
    · rfl
  | false =>
    have hnil : midPrefill requestId calls = [] := by
      rw [midPrefill, fromFirst_eq_nil_iff.mpr hany]
      rfl
    have hcall : call.single requestId = true := by
      refine h.resolve_left fun hdone => ?_
      obtain ⟨c, hc, hsingle⟩ := List.any_eq_true.mp hdone
      rw [List.any_eq_false] at hany
      exact hany c hc (ScheduleCall.scheduled_of_single hsingle)
    rw [hnil]
    simp [ScheduleCall.scheduled_of_single hcall, hcall]

/-- **A call contends** if the request has been scheduled, its prefill is not
done, and the call schedules others only. -/
theorem contending_concat (requestId : String) (calls : List ScheduleCall) (call : ScheduleCall) :
    contending requestId (calls ++ [call]) = contending requestId calls ++
    if calls.any (·.scheduled requestId) && !calls.any (·.single requestId) &&
      (call.scheduledAny && !call.scheduled requestId) then [call] else [] := by
  by_cases h : calls.any (·.single requestId) = true ∨ call.single requestId = true
  · rw [contending, midPrefill_concat h]
    rcases h with hdone | hcall
    · simp [contending, hdone]
    · simp [contending, ScheduleCall.scheduled_of_single hcall]
  · rw [not_or, Bool.not_eq_true, Bool.not_eq_true] at h
    have hnot : (calls ++ [call]).any (·.single requestId) = false := by
      simp only [List.any_append, h.1, List.any_cons, h.2, List.any_nil, Bool.or_self]
    rw [contending, contending, midPrefill_of_not_done hnot, midPrefill_of_not_done h.1,
      fromFirst_concat, h.1]
    cases hany : calls.any (·.scheduled requestId) with
    | true => simp [List.filter_append, List.filter_cons]
    | false =>
      rw [fromFirst_eq_nil_iff.mpr hany]
      cases hs : call.scheduled requestId <;> simp [hs]

end Concat

/-! ## The record of a request -/

/-- What a call of `schedule` does to the record of a request. -/
def Record.observed (requestId : String) (call : ScheduleCall) (now : ℚ) (r : Record) : Record :=
  if call.scheduled requestId then r.scheduled now call.duration (call.tokensOf requestId)
  else if call.scheduledAny then r.contended call.duration
  else r

namespace Registry

theorem get?_observedSchedule (registry : Registry) (call : ScheduleCall) (now : ℚ)
    (key : String) : (registry.observedSchedule call.tokens now call.duration).get? key =
      (registry.get? key).map (Record.observed key call now) := by
  have hfold := get?_foldl_change (fun requestId record =>
    record.scheduled now call.duration ((call.tokens.get? requestId).getD 0)) key
    (Dict.keys_nodup call.tokens) registry
  unfold observedSchedule
  simp only
  by_cases hk : key ∈ call.tokens.keys
  · have hany : call.tokens.keys.isEmpty = false := by
      cases hkeys : call.tokens.keys with
      | nil => simp [hkeys] at hk
      | cons _ _ => rfl
    rw [if_neg (by simp [hany]), Dict.get?_mapValues, hfold, if_pos hk, Option.map_map]
    congr 1
    funext record
    simp [Record.observed, ScheduleCall.scheduled, ScheduleCall.tokensOf, hk]
  · split
    · rename_i hempty
      rw [hfold, if_neg hk]
      have hid : Record.observed key call now = id := by
        funext record
        simp [Record.observed, ScheduleCall.scheduled, ScheduleCall.scheduledAny, hk, hempty]
      rw [hid, Option.map_id_fun]
      rfl
    · rename_i hany
      rw [Dict.get?_mapValues, hfold, if_neg hk]
      congr 1
      funext record
      simp [Record.observed, ScheduleCall.scheduled, ScheduleCall.scheduledAny, hk, hany]

end Registry

/-- The record counts the calls. -/
structure Tallied (requestId : String) (calls : List ScheduleCall) (r : Record) : Prop where
  started : r.firstSchedule.isSome = calls.any (·.scheduled requestId)
  done : r.prefillDone = calls.any (·.single requestId)
  chunks : r.prefillChunks =
    calls.countP fun call => call.scheduled requestId && !call.single requestId
  decodes : r.decodeSteps = calls.countP (·.single requestId)
  steps : r.contentionSteps = (contending requestId calls).length
  seconds : r.contentionSeconds = ((contending requestId calls).map (·.duration)).sum

namespace Tallied
variable {requestId : String} {calls : List ScheduleCall} {r : Record}

/-- A new record. -/
theorem added (requestId : String) (waitingEnter : Option ℚ) :
    Tallied requestId [] { waitingEnter := waitingEnter } := ⟨rfl, rfl, rfl, rfl, rfl, rfl⟩

theorem congr (h : Tallied requestId calls r) {r' : Record}
    (h1 : r'.firstSchedule = r.firstSchedule) (h2 : r'.prefillDone = r.prefillDone)
    (h3 : r'.prefillChunks = r.prefillChunks) (h4 : r'.decodeSteps = r.decodeSteps)
    (h5 : r'.contentionSteps = r.contentionSteps)
    (h6 : r'.contentionSeconds = r.contentionSeconds) : Tallied requestId calls r' :=
  ⟨h1 ▸ h.started, h2 ▸ h.done, h3 ▸ h.chunks, h4 ▸ h.decodes, h5 ▸ h.steps, h6 ▸ h.seconds⟩

/-- One more call of `schedule`. -/
theorem observed (h : Tallied requestId calls r) (call : ScheduleCall) (now : ℚ) :
    Tallied requestId (calls ++ [call]) (r.observed requestId call now) := by
  have hany : ∀ p : ScheduleCall → Bool, (calls ++ [call]).any p = (calls.any p || p call) :=
    fun p => by simp [List.any_append]
  have hcount : ∀ p : ScheduleCall → Bool,
      (calls ++ [call]).countP p = calls.countP p + if p call then 1 else 0 :=
    fun p => by simp [List.countP_append, List.countP_singleton]
  unfold Record.observed
  cases hs : call.scheduled requestId with
  | true =>
    have hcont : contending requestId (calls ++ [call]) = contending requestId calls := by
      simp [contending_concat, hs]
    have hsingle : call.single requestId = decide (call.tokensOf requestId ≤ 1) := by
      rw [ScheduleCall.single, hs, Bool.true_and]
    rw [if_pos rfl, Record.scheduled]
    by_cases htokens : call.tokensOf requestId > 1
    · -- a chunk of the prefill
      have hnot : call.single requestId = false := by
        rw [hsingle]
        exact decide_eq_false (not_le.mpr htokens)
      rw [if_pos htokens]
      refine ⟨?_, ?_, ?_, ?_, hcont ▸ h.steps, hcont ▸ h.seconds⟩
      · rw [hany, hs, Bool.or_true]
        cases r.firstSchedule <;> rfl
      · rw [hany, hnot, Bool.or_false]
        exact h.done
      · rw [hcount, hs, hnot]
        exact congrArg (· + 1) h.chunks
      · rw [hcount, hnot]
        exact h.decodes
    · have hyes : call.single requestId = true := by
        rw [hsingle]
        exact decide_eq_true (not_lt.mp htokens)
      rw [if_neg htokens]
      refine ⟨?_, ?_, ?_, ?_, hcont ▸ h.steps, hcont ▸ h.seconds⟩
      · rw [hany, hs, Bool.or_true]
        cases r.firstSchedule <;> rfl
      · rw [hany, hyes, Bool.or_true]
      · rw [hcount, hs, hyes]
        exact h.chunks
      · rw [hcount, hyes]
        exact congrArg (· + 1) h.decodes
  | false =>
    have hnot : call.single requestId = false := by rw [ScheduleCall.single, hs, Bool.false_and]
    -- the call is another request's, or of nobody
    have hsame : ∀ r', r'.firstSchedule = r.firstSchedule → r'.prefillDone = r.prefillDone →
        r'.prefillChunks = r.prefillChunks → r'.decodeSteps = r.decodeSteps →
        r'.contentionSteps = (contending requestId (calls ++ [call])).length →
        r'.contentionSeconds =
          ((contending requestId (calls ++ [call])).map (·.duration)).sum →
        Tallied requestId (calls ++ [call]) r' := by
      intro r' h1 h2 h3 h4 h5 h6
      refine ⟨?_, ?_, ?_, ?_, h5, h6⟩
      · rw [hany, hs, Bool.or_false, h1, h.started]
      · rw [hany, hnot, Bool.or_false, h2, h.done]
      · rw [hcount, hs, Bool.false_and, h3, h.chunks]
        rfl
      · rw [hcount, hnot, h4, h.decodes]
        rfl
    have hcont := contending_concat requestId calls call
    rw [if_neg Bool.false_ne_true]
    rw [← h.started, ← h.done, hs, Bool.not_false, Bool.and_true] at hcont
    split
    · rename_i hthere
      rw [hthere, Bool.and_true] at hcont
      unfold Record.contended
      split
      · rename_i hmid
        rw [if_pos hmid] at hcont
        refine hsame _ rfl rfl rfl rfl ?_ ?_
        · rw [hcont, List.length_append, ← h.steps]
          rfl
        · rw [hcont, List.map_append, List.sum_append, ← h.seconds]
          simp
      · rename_i hmid
        rw [if_neg hmid, List.append_nil] at hcont
        exact hsame r rfl rfl rfl rfl (hcont ▸ h.steps) (hcont ▸ h.seconds)
    · rename_i hnobody
      rw [Bool.not_eq_true] at hnobody
      rw [hnobody, Bool.and_false, if_neg Bool.false_ne_true, List.append_nil] at hcont
      exact hsame r rfl rfl rfl rfl (hcont ▸ h.steps) (hcont ▸ h.seconds)

/-- While the prefill is not done every call from the first one on is a chunk of
it or contends. -/
theorem balance (h : Tallied requestId calls r) (hdone : r.prefillDone = false) :
    r.prefillChunks + r.contentionSteps =
      ((fromFirst requestId calls).filter (·.scheduledAny)).length := by
  rw [h.done] at hdone
  have hcount : (fromFirst requestId calls).countP (·.scheduled requestId) = r.prefillChunks := by
    rw [countP_fromFirst fun _ => id, h.chunks]
    refine List.countP_congr fun call hcall => ?_
    rw [List.any_eq_false] at hdone
    have hsingle := Bool.eq_false_iff.mpr (hdone call hcall)
    simp [hsingle]
  have hboth : (fromFirst requestId calls).countP (·.scheduled requestId) =
      ((fromFirst requestId calls).filter (·.scheduledAny)).countP (·.scheduled requestId) := by
    rw [List.countP_filter]
    refine List.countP_congr fun call _ => ?_
    cases hs : call.scheduled requestId with
    | false => simp
    | true => simp [ScheduleCall.scheduledAny_of_scheduled hs]
  have hothers : (contending requestId calls).length =
      ((fromFirst requestId calls).filter (·.scheduledAny)).countP
        fun call => !call.scheduled requestId := by
    rw [contending, midPrefill_of_not_done hdone, List.countP_filter,
      ← List.countP_eq_length_filter]
    exact List.countP_congr fun call _ => by rw [Bool.and_comm]
  rw [h.steps, ← hcount, hboth, hothers]
  simpa using (List.length_eq_countP_add_countP (·.scheduled requestId)
    (l := (fromFirst requestId calls).filter (·.scheduledAny))).symm

end Tallied

section Run
variable (reader : Reader) (dumps : Record → Except PyError String) (requestId : String)

/-- The registry holds a record of the request exactly if the history has one,
and the record counts the calls since it was created. -/
def Tracked (ops : List EngineOp) (registry : Registry) : Prop :=
  match sinceAdded requestId ops with
  | none => registry.get? requestId = none
  | some calls => ∃ record, registry.get? requestId = some record ∧
      Tallied requestId calls record

variable {requestId}

theorem sinceAdded_concat (requestId : String) (ops : List EngineOp) (op : EngineOp) :
    sinceAdded requestId (ops ++ [op]) = recallCalls requestId (sinceAdded requestId ops) op :=
  List.foldl_append ..

/-- A step that leaves the history and what it counts alone. -/
theorem Tracked.keep {ops : List EngineOp} {op : EngineOp} {registry registry' : Registry}
    (h : Tracked requestId ops registry)
    (hsame : sinceAdded requestId (ops ++ [op]) = sinceAdded requestId ops)
    (hget : registry'.get? requestId = registry.get? requestId) :
    Tracked requestId (ops ++ [op]) registry' := by
  rw [Tracked, hsame, hget]
  exact h

/-- The executor counts nothing that the history determines. -/
theorem tallied_recordExecute {calls : List ScheduleCall} (ids : List String)
    (started ended : ℚ) {registry : Registry}
    (h : ∃ record, registry.get? requestId = some record ∧ Tallied requestId calls record) :
    ∃ record, (registry.recordExecute ids started ended).get? requestId = some record ∧
      Tallied requestId calls record := by
  induction ids generalizing registry with
  | nil => exact h
  | cons id rest ih =>
    refine ih ?_
    obtain ⟨record, hget, htallied⟩ := h
    rw [Registry.get?_change, hget]
    split
    · exact ⟨_, rfl, htallied.congr rfl rfl rfl rfl rfl rfl⟩
    · exact ⟨record, rfl, htallied⟩

/-- One step of EngineCore. -/
theorem Tracked.apply {ops : List EngineOp} {s : EngineState}
    (h : Tracked requestId ops s.registry) (op : EngineOp) :
    Tracked requestId (ops ++ [op]) (s.apply reader dumps op).registry := by
  have hops := sinceAdded_concat requestId ops op
  cases op with
  | addRequest request now =>
    have hget := Registry.get?_observedAddRequest s.registry request.requestId requestId now
    by_cases hid : request.requestId = requestId
    · rw [Tracked, hops, recallCalls, if_pos hid]
      rw [if_pos hid.symm] at hget
      refine ⟨_, hget, ?_⟩
      unfold Tracked at h
      cases hcalls : sinceAdded requestId ops with
      | none =>
        rw [hcalls] at h
        simp only [h, Option.getD_none]
        exact Tallied.added requestId _
      | some calls =>
        rw [hcalls] at h
        obtain ⟨record, hrecord, htallied⟩ := h
        simp only [hrecord, Option.getD_some]
        exact htallied.congr rfl rfl rfl rfl rfl rfl
    · refine h.keep (hops.trans (if_neg hid)) (hget.trans (if_neg (Ne.symm hid)))
  | schedule guard tokens now duration =>
    have hget := Registry.get?_observedSchedule s.registry ⟨tokens, duration⟩ now requestId
    rw [Tracked, hops, recallCalls]
    unfold Tracked at h
    cases hcalls : sinceAdded requestId ops with
    | none =>
      rw [hcalls] at h
      rw [h] at hget
      exact hget
    | some calls =>
      rw [hcalls] at h
      obtain ⟨record, hrecord, htallied⟩ := h
      rw [hrecord] at hget
      exact ⟨_, hget, htallied.observed ⟨tokens, duration⟩ now⟩
  | abort ids => exact h.keep hops rfl
  | execute ids started ended =>
    rw [Tracked, hops, recallCalls]
    unfold Tracked at h
    cases hcalls : sinceAdded requestId ops with
    | none =>
      rw [hcalls] at h
      rw [Dict.get?_eq_none_iff] at h
      exact Dict.get?_eq_none_iff.mpr fun hk =>
        h (Registry.keys_recordExecute s.registry ids started ended ▸ hk)
    | some calls =>
      rw [hcalls] at h
      exact tallied_recordExecute ids started ended h
  | step outputs =>
    have hget : (attachOutputs dumps s.registry outputs).1.get? requestId = _ :=
      attachOutputs_get? requestId outputs s.registry
    by_cases hfin : requestId ∈ finishedIds outputs ∧ requestId ≠ ""
    · rw [Tracked, hops, recallCalls, if_pos hfin]
      exact hget.trans (if_pos ⟨mem_finishedIds.mp hfin.1, hfin.2⟩)
    · exact h.keep (hops.trans (if_neg hfin))
        (hget.trans (if_neg fun hf => hfin ⟨mem_finishedIds.mpr hf.1, hf.2⟩))

/-- After any run. -/
theorem tracked_run (requestId : String) (ops : List EngineOp) :
    Tracked requestId ops (run (EngineState.apply reader dumps) {} ops).registry := by
  induction ops using List.reverseRecOn with
  | nil => rfl
  | append_singleton ops op ih =>
    rw [run_append]
    exact ih.apply reader dumps op

theorem tallied_run {ops : List EngineOp} {record : Record}
    (h : (run (EngineState.apply reader dumps) {} ops).registry.get? requestId = some record) :
    ∃ calls, sinceAdded requestId ops = some calls ∧ Tallied requestId calls record := by
  have htracked := tracked_run reader dumps requestId ops
  unfold Tracked at htracked
  cases hcalls : sinceAdded requestId ops with
  | none =>
    rw [hcalls, h] at htracked
    cases htracked
  | some calls =>
    rw [hcalls, h] at htracked
    obtain ⟨_, hsome, htallied⟩ := htracked
    rw [Option.some.inj hsome]
    exact ⟨calls, rfl, htallied⟩

/-- **Contention is counted exactly** in the record of every registered request,
from the calls of `schedule` since the record was created. -/
theorem contention_exact (ops : List EngineOp) (record : Record)
    (h : (run (EngineState.apply reader dumps) {} ops).registry.get? requestId = some record) :
    ∃ calls, sinceAdded requestId ops = some calls ∧
      record.contentionSteps = (contending requestId calls).length ∧
      record.contentionSeconds = ((contending requestId calls).map (·.duration)).sum ∧
      (record.prefillDone = false → record.firstSchedule.isSome = true →
        record.prefillChunks + record.contentionSteps =
          ((fromFirst requestId calls).filter (·.scheduledAny)).length) := by
  obtain ⟨calls, hcalls, htallied⟩ := tallied_run reader dumps h
  exact ⟨calls, hcalls, htallied.steps, htallied.seconds, fun hdone _ => htallied.balance hdone⟩

end Run

def unguarded : Guard := { deadline := none, importable := true, finishes := true, now := 1 }

/-- Between the two calls that schedule `a` one schedules `b`, and one nobody. -/
def sharedRun : List EngineOp := [
  .addRequest (request "a") 1,
  .addRequest (request "b") 1,
  .schedule unguarded (Dict.ofList [("a", 4)]) 2 1,
  .schedule unguarded Dict.empty 3 1,
  .schedule unguarded (Dict.ofList [("b", 3)]) 4 (1 / 2),
  .schedule unguarded (Dict.ofList [("a", 1), ("b", 1)]) 5 1,
  .schedule unguarded (Dict.ofList [("b", 1)]) 6 1]

def sharedRecord : Record where
  waitingEnter := some 1
  firstSchedule := some 2
  scheduleSteps := 2
  prefillChunks := 1
  decodeSteps := 1
  scheduleSeconds := 2
  contentionSteps := 1
  contentionSeconds := 1 / 2
  prefillDone := true

/-- The record of `a` counts the one call that scheduled `b` alone in between. -/
theorem contention_exact_shared : ∃ calls, sinceAdded "a" sharedRun = some calls ∧
    sharedRecord.contentionSteps = (contending "a" calls).length ∧
    sharedRecord.contentionSeconds = ((contending "a" calls).map (·.duration)).sum ∧
    (sharedRecord.prefillDone = false → sharedRecord.firstSchedule.isSome = true →
      sharedRecord.prefillChunks + sharedRecord.contentionSteps =
        ((fromFirst "a" calls).filter (·.scheduledAny)).length) :=
  contention_exact tenSeconds dumpSteps sharedRun sharedRecord (by decide +kernel)

end VllmObserver.Stages
