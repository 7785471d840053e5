import VllmObserver.Core.Plain

/-! # The registry of EngineCore

What the engine process measures of each request, keyed by the request's id.
`add_request` creates an entry, `schedule` and the executor update it, and the
step that returns the final output takes it out. -/
namespace VllmObserver.Stages
open VllmObserver.Lib VllmObserver.Core

def stagesHeader : String := "x-observer-engine-stages"

structure Record where
  waitingEnter : Option ℚ := none
  firstSchedule : Option ℚ := none
  scheduleSteps : ℕ := 0
  prefillChunks : ℕ := 0
  decodeSteps : ℕ := 0
  scheduleSeconds : ℚ := 0
  executeSeconds : ℚ := 0
  executeSteps : ℕ := 0
  contentionSteps : ℕ := 0
  contentionSeconds : ℚ := 0
  prefillDone : Bool := false
  executeIntervals : List (ℚ × ℚ) := []
deriving DecidableEq

abbrev Registry := Dict String Record

namespace Record

def scheduled (r : Record) (now duration : ℚ) (tokens : ℤ) : Record :=
  let r := { r with
    firstSchedule := r.firstSchedule.or (some now)
    scheduleSteps := r.scheduleSteps + 1
    scheduleSeconds := r.scheduleSeconds + duration }
  if tokens > 1 then { r with prefillChunks := r.prefillChunks + 1 }
  else { r with decodeSteps := r.decodeSteps + 1, prefillDone := true }

/-- Passed over in the middle of its prefill. -/
def contended (r : Record) (duration : ℚ) : Record :=
  if r.firstSchedule.isSome && !r.prefillDone then
    { r with
      contentionSteps := r.contentionSteps + 1
      contentionSeconds := r.contentionSeconds + duration }
  else r

def executed (r : Record) (started ended : ℚ) : Record :=
  { r with
    executeSeconds := r.executeSeconds + (ended - started)
    executeSteps := r.executeSteps + 1
    executeIntervals := if r.executeIntervals.length < 512 then
      r.executeIntervals ++ [(started, ended)] else r.executeIntervals }

end Record

namespace Registry

/-- `_REGISTRY.setdefault(request_id, _new_record())`. -/
def setDefault (registry : Registry) (requestId : String) : Registry :=
  match registry.get? requestId with
  | some _ => registry
  | none => registry.set requestId {}

/-- Change the record of a request, if there is one. -/
def change (registry : Registry) (requestId : String) (f : Record → Record) : Registry :=
  match registry.get? requestId with
  | some record => registry.set requestId (f record)
  | none => registry

def observedAddRequest (registry : Registry) (requestId : String) (now : ℚ) : Registry :=
  (registry.setDefault requestId).change requestId fun record =>
    { record with waitingEnter := record.waitingEnter.or (some now) }

def observedSchedule (registry : Registry) (numScheduledTokens : Dict String ℤ)
    (now duration : ℚ) : Registry :=
  let registry := numScheduledTokens.keys.foldl (fun registry requestId =>
    registry.change requestId fun record =>
      record.scheduled now duration ((numScheduledTokens.get? requestId).getD 0)) registry
  if numScheduledTokens.keys.isEmpty then registry
  else registry.mapValues fun requestId record =>
    if requestId ∈ numScheduledTokens.keys then record else record.contended duration

def recordExecute (registry : Registry) (requestIds : List String) (started ended : ℚ) :
    Registry :=
  requestIds.foldl (fun registry requestId =>
    registry.change requestId (·.executed started ended)) registry

theorem keys_change (registry : Registry) (requestId : String) (f : Record → Record) :
    (registry.change requestId f).keys = registry.keys := by
  unfold change
  split
  · rename_i record h
    rw [Dict.keys_set, if_pos (Dict.mem_keys_iff.mpr ⟨record, h⟩)]
  · rfl

/-- Changing records one after the other adds no entry. -/
theorem keys_foldl_change (f : String → Record → Record) :
    ∀ (requestIds : List String) (registry : Registry),
      (requestIds.foldl (fun registry requestId => registry.change requestId (f requestId))
        registry).keys = registry.keys
  | [], _ => rfl
  | requestId :: rest, registry => by
    rw [List.foldl_cons, keys_foldl_change f rest, keys_change]

theorem get?_change (registry : Registry) (requestId key : String) (f : Record → Record) :
    (registry.change requestId f).get? key =
      if key = requestId then (registry.get? key).map f else registry.get? key := by
  unfold change
  cases hr : registry.get? requestId with
  | none =>
    by_cases hk : key = requestId
    · rw [if_pos hk, hk, hr]
      rfl
    · rw [if_neg hk]
  | some record =>
    simp only [Dict.get?_set]
    by_cases hk : key = requestId
    · rw [if_pos hk, if_pos hk, hk, hr]
      rfl
    · rw [if_neg hk, if_neg hk]

/-- Each of the ids is changed once. -/
theorem get?_foldl_change (f : String → Record → Record) (key : String) {requestIds : List String}
    (hnodup : requestIds.Nodup) (registry : Registry) :
    (requestIds.foldl (fun registry requestId => registry.change requestId (f requestId))
      registry).get? key =
      if key ∈ requestIds then (registry.get? key).map (f key) else registry.get? key := by
  induction requestIds generalizing registry with
  | nil => rfl
  | cons requestId rest ih =>
    obtain ⟨hnot, hrest⟩ := List.nodup_cons.mp hnodup
    rw [List.foldl_cons, ih hrest, get?_change]
    by_cases hk : key = requestId
    · subst hk
      rw [if_pos rfl, if_pos List.mem_cons_self, if_neg hnot]
    · simp [hk]

theorem get?_observedAddRequest (registry : Registry) (requestId key : String) (now : ℚ) :
    (registry.observedAddRequest requestId now).get? key =
      if key = requestId then
        some (((registry.get? key).getD {}) |> fun record =>
          { record with waitingEnter := record.waitingEnter.or (some now) })
      else registry.get? key := by
  unfold observedAddRequest setDefault
  rw [get?_change]
  cases hr : registry.get? requestId with
  | none =>
    simp only [Dict.get?_set]
    by_cases hk : key = requestId
    · rw [if_pos hk, if_pos hk, if_pos hk, hk, hr]
      rfl
    · rw [if_neg hk, if_neg hk, if_neg hk]
  | some record =>
    by_cases hk : key = requestId
    · rw [if_pos hk, if_pos hk, hk, hr]
      rfl
    · rw [if_neg hk, if_neg hk]

theorem mem_keys_observedAddRequest {registry : Registry} {requestId key : String} {now : ℚ} :
    key ∈ (registry.observedAddRequest requestId now).keys ↔
      key = requestId ∨ key ∈ registry.keys := by
  rw [observedAddRequest, keys_change, setDefault]
  split
  · rename_i record h
    refine ⟨Or.inr, ?_⟩
    rintro (rfl | hk)
    · exact Dict.mem_keys_iff.mpr ⟨record, h⟩
    · exact hk
  · exact Dict.mem_keys_set

theorem keys_observedSchedule (registry : Registry) (tokens : Dict String ℤ) (now duration : ℚ) :
    (registry.observedSchedule tokens now duration).keys = registry.keys := by
  have h := keys_foldl_change
    (fun requestId record => record.scheduled now duration ((tokens.get? requestId).getD 0))
    tokens.keys registry
  unfold observedSchedule
  simp only
  split
  · exact h
  · rw [Dict.keys_mapValues]
    exact h

theorem keys_recordExecute (registry : Registry) (requestIds : List String) (started ended : ℚ) :
    (registry.recordExecute requestIds started ended).keys = registry.keys :=
  keys_foldl_change (fun _ record => record.executed started ended) requestIds registry

end Registry

/-! ## Final outputs -/

structure Output where
  requestId : Option String
  finished : Bool
  traceHeaders : Option (Dict String String)
deriving DecidableEq

/-- The record of a finished request is taken out and sent with its output. A
record that cannot be serialized is dropped. -/
def attachStages (dumps : Record → Except PyError String) (registry : Registry)
    (output : Output) : Registry × Output :=
  match output.requestId with
  | none => (registry, output)
  | some requestId =>
    if requestId = "" then (registry, output)
    else match registry.get? requestId with
      | none => (registry, output)
      | some record =>
        let registry := registry.erase requestId
        match dumps record with
        | .error _ => (registry, output) -- logged
        | .ok payload => (registry, { output with
            traceHeaders := some ((output.traceHeaders.getD Dict.empty).set stagesHeader payload) })

/-- The outputs of one batch after another; only finished ones are touched. -/
def attachOutputs (dumps : Record → Except PyError String) (registry : Registry) :
    List Output → Registry × List Output
  | [] => (registry, [])
  | output :: rest =>
    let (registry, output) :=
      if output.finished then attachStages dumps registry output else (registry, output)
    let (registry, rest) := attachOutputs dumps registry rest
    (registry, output :: rest)

/-- The entry that an output takes out. -/
def entryOf (registry : Registry) (output : Output) : Option (String × Record) :=
  output.requestId.bind fun id => if id = "" then none else (registry.get? id).map (Prod.mk id)

section Attach
variable {dumps : Record → Except PyError String} {registry : Registry} {output : Output}

theorem entryOf_eq_some {id : String} {record : Record} :
    entryOf registry output = some (id, record) ↔
      output.requestId = some id ∧ id ≠ "" ∧ registry.get? id = some record := by
  unfold entryOf
  cases output.requestId with
  | none => simp
  | some other =>
    rw [Option.bind_some]
    by_cases he : other = ""
    · rw [if_pos he]
      constructor
      · intro h
        cases h
      · rintro ⟨hid, hne, _⟩
        exact absurd (Option.some.inj hid ▸ he) hne
    · rw [if_neg he, Option.map_eq_some_iff]
      constructor
      · rintro ⟨r, hr, hpair⟩
        cases hpair
        exact ⟨rfl, he, hr⟩
      · rintro ⟨hid, _, hr⟩
        cases hid
        exact ⟨record, hr, rfl⟩

/-- Everything that `_attach_stages` does is in the entry. -/
theorem attachStages_eq : attachStages dumps registry output =
    match entryOf registry output with
    | none => (registry, output)
    | some (id, record) => (registry.erase id, match dumps record with
      | .error _ => output
      | .ok payload => { output with
          traceHeaders :=
            some ((output.traceHeaders.getD Dict.empty).set stagesHeader payload) }) := by
  unfold attachStages entryOf
  cases output.requestId with
  | none => rfl
  | some id =>
    simp only [Option.bind_some]
    split
    · rfl
    · cases registry.get? id with
      | none => rfl
      | some record =>
        simp only [Option.map_some]
        cases dumps record <;> rfl

/-- No other entry is taken out. -/
theorem attachStages_get? (key : String) : (attachStages dumps registry output).1.get? key =
    if output.requestId = some key ∧ key ≠ "" then none else registry.get? key := by
  rw [attachStages_eq]
  cases he : entryOf registry output with
  | none =>
    change registry.get? key = _
    split
    · rename_i hkey
      refine Option.eq_none_iff_forall_ne_some.mpr fun record hr => ?_
      rw [entryOf_eq_some.mpr ⟨hkey.1, hkey.2, hr⟩] at he
      cases he
    · rfl
  | some entry =>
    obtain ⟨id, record⟩ := entry
    obtain ⟨hid, hne, _⟩ := entryOf_eq_some.mp he
    have hkey : (output.requestId = some key ∧ key ≠ "") ↔ key = id := by
      rw [hid]
      constructor
      · rintro ⟨h, _⟩
        exact (Option.some.inj h).symm
      · rintro rfl
        exact ⟨rfl, hne⟩
    rw [if_congr hkey rfl rfl]
    exact Dict.get?_erase registry id key

end Attach

/-- **The registry after the outputs of a step.** -/
theorem attachOutputs_get? {dumps : Record → Except PyError String} (key : String) :
    ∀ (outputs : List Output) (registry : Registry),
      (attachOutputs dumps registry outputs).1.get? key =
        if (∃ output ∈ outputs, output.finished = true ∧ output.requestId = some key) ∧ key ≠ ""
        then none else registry.get? key
  | [], registry => by simp [attachOutputs]
  | output :: rest, registry => by
    simp only [attachOutputs]
    rw [attachOutputs_get? key rest]
    have hcons : ∀ P : Output → Prop, (∃ o ∈ output :: rest, P o) ↔ P output ∨ ∃ o ∈ rest, P o :=
      fun P => List.exists_mem_cons_iff P output rest
    by_cases hrest : (∃ output ∈ rest, output.finished = true ∧ output.requestId = some key) ∧
        key ≠ ""
    · rw [if_pos hrest, if_pos ⟨(hcons _).mpr (Or.inr hrest.1), hrest.2⟩]
    · have hkey : ((∃ o ∈ output :: rest, o.finished = true ∧ o.requestId = some key) ∧ key ≠ "") ↔
          output.finished = true ∧ output.requestId = some key ∧ key ≠ "" := by
        rw [hcons]
        constructor
        · rintro ⟨h | h, hk⟩
          · exact ⟨h.1, h.2, hk⟩
          · exact absurd ⟨h, hk⟩ hrest
        · rintro ⟨hf, hid, hk⟩
          exact ⟨Or.inl ⟨hf, hid⟩, hk⟩
      rw [if_neg hrest, if_congr hkey rfl rfl]
      by_cases hf : output.finished = true
      · rw [if_pos hf, attachStages_get?]
        simp [hf]
      · rw [if_neg hf, if_neg fun h => hf h.1]

/-- After a step an entry is left if no finished output bears its id. -/
theorem attachOutputs_keys {dumps : Record → Except PyError String} {key : String}
    {outputs : List Output} {registry : Registry} :
    key ∈ (attachOutputs dumps registry outputs).1.keys ↔ key ∈ registry.keys ∧
      ∀ output ∈ outputs, output.finished = true → output.requestId ≠ some key ∨ key = "" := by
  rw [Dict.mem_keys_iff, Dict.mem_keys_iff, attachOutputs_get?]
  split
  · rename_i h
    obtain ⟨⟨output, hmem, hf, hid⟩, hk⟩ := h
    refine ⟨fun h => ?_, fun h => ?_⟩
    · obtain ⟨_, hnone⟩ := h
      cases hnone
    · rcases h.2 output hmem hf with hne | he
      · exact absurd hid hne
      · exact absurd he hk
  · rename_i h
    refine ⟨fun hr => ⟨hr, fun output hmem hf => ?_⟩, fun hr => hr.1⟩
    by_contra hcon
    push Not at hcon
    exact h ⟨⟨output, hmem, hf, hcon.1⟩, hcon.2⟩

end VllmObserver.Stages
