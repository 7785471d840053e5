import VllmObserver.Lib.Runs
import VllmObserver.Stages.Deadline

/-! # The deadline guard over many calls

The guard runs at the top of every `schedule`. Between two calls the table may
change in any way, and it may bring another request under an id that it had
before, so requests are told apart by their address. What `finish_requests` does
is vLLM's, and so is `schedule`. -/
namespace VllmObserver.Stages
open VllmObserver.Lib VllmObserver.Core

/-- The requests that there are, and the table with some of them. -/
structure Scheduler where
  heap : ℕ → Request
  table : Dict String ℕ

namespace Scheduler

/-- `scheduler.requests`. -/
def requests (s : Scheduler) : Requests := s.table.mapValues fun _ address => s.heap address

/-- The keys of the table are the ids of its requests. -/
def Keyed (s : Scheduler) : Prop :=
  ∀ requestId address, s.table.get? requestId = some address →
    (s.heap address).requestId = requestId

def addresses (s : Scheduler) (requestIds : List String) : List ℕ :=
  requestIds.filterMap s.table.get?

/-- These requests are finished now, and besides nothing happened, but that some
may have left the table. -/
structure Finishes (s : Scheduler) (requestIds : List String) (s' : Scheduler) : Prop where
  finished : ∀ address, (s'.heap address).isFinished = true ↔
    (s.heap address).isFinished = true ∨ address ∈ s.addresses requestIds
  requestId : ∀ address, (s'.heap address).requestId = (s.heap address).requestId
  arrivalTime : ∀ address, (s'.heap address).arrivalTime = (s.heap address).arrivalTime
  table : ∀ requestId address, s'.table.get? requestId = some address →
    s.table.get? requestId = some address

end Scheduler

/-- What a guarded call meets, and the arguments it is called with. -/
structure GuardedCall (α : Type) where
  deadline : Option String
  importable : Bool
  now : ℚ
  finishRequests : Scheduler → List String → Scheduler × Except PyError Unit
  args : α

/-- What a call tells vLLM: to finish requests, with its success, and to schedule. -/
inductive Told (α : Type) where
  | finish (scheduler : Scheduler) (requestIds : List String) (ok : Bool)
  | schedule (scheduler : Scheduler) (args : α)

structure Guarding (α : Type) where
  scheduler : Scheduler
  droppedTotal : ℕ := 0
  told : List (Told α) := []

namespace Guarding
variable {α : Type}

/-- `drop_expired`, for its effects. What it raises is logged. -/
def dropExpired (reader : Reader) (s : Guarding α) (call : GuardedCall α) : Guarding α :=
  match deadlineSeconds reader call.deadline with
  | .error _ => s
  | .ok ttl =>
    if ttl.le (.fin 0) || !call.importable then s
    else
      let requestIds := expired ttl call.now s.scheduler.requests
      if requestIds.isEmpty then s
      else
        match call.finishRequests s.scheduler requestIds with
        | (scheduler, .ok ()) => {
            scheduler
            droppedTotal := s.droppedTotal + requestIds.length
            told := s.told ++ [.finish s.scheduler requestIds true] }
        | (scheduler, .error _) =>
            { s with scheduler, told := s.told ++ [.finish s.scheduler requestIds false] }

/-- The guarded `schedule`. -/
def guarded (reader : Reader) (s : Guarding α) (call : GuardedCall α) : Guarding α :=
  let s := s.dropExpired reader call
  { s with told := s.told ++ [.schedule s.scheduler call.args] }

end Guarding

/-- A call, or a change to the requests or the table in between. -/
inductive Turn (α : Type) where
  | changed (scheduler : Scheduler)
  | called (call : GuardedCall α)

def Guarding.step {α : Type} (reader : Reader) (s : Guarding α) : Turn α → Guarding α
  | .changed scheduler => { s with scheduler }
  | .called call => s.guarded reader call

/-! ## What vLLM promises -/

section Assumptions
variable {α : Type}

/-- `RequestStatus` can be imported, `finish_requests` finishes what it is given
and changes nothing when it fails. -/
structure GuardedCall.Supported (call : GuardedCall α) : Prop where
  importable : call.importable = true
  succeeds : ∀ s requestIds s', call.finishRequests s requestIds = (s', .ok ()) →
    s.Finishes requestIds s'
  fails : ∀ s requestIds s' e, call.finishRequests s requestIds = (s', .error e) → s' = s

def Turn.Supported : Turn α → Prop
  | .changed scheduler => scheduler.Keyed
  | .called call => call.Supported

/-- What is finished stays so between the calls. -/
def Turn.Lasting (s : Guarding α) : Turn α → Prop
  | .changed scheduler => ∀ address, (s.scheduler.heap address).isFinished = true →
      (scheduler.heap address).isFinished = true
  | .called _ => True

end Assumptions

/-! ## What a call has to do -/

section Specification
variable {α : Type} (reader : Reader) (call : GuardedCall α) (s : Scheduler)

/-- The request is in the table, unfinished and older than a positive deadline. -/
structure Due (address : ℕ) : Prop where
  unfinished : (s.heap address).isFinished = false
  present : ∃ requestId, s.table.get? requestId = some address
  old : ∃ ttl arrival, deadlineSeconds reader call.deadline = .ok ttl ∧
    Flt.lt (.fin 0) ttl = true ∧ (s.heap address).arrivalTime = some arrival ∧
    ttl.lt (.fin (call.now - arrival)) = true

/-- The ids of all requests that are due. -/
structure AllDue (requestIds : List String) : Prop where
  nonempty : requestIds ≠ []
  nodup : requestIds.Nodup
  mem_iff : ∀ requestId, requestId ∈ requestIds ↔
    ∃ address, s.table.get? requestId = some address ∧ Due reader call s address

/-- What a call tells vLLM before it schedules, and what it leaves. -/
inductive Guards : List (Told α) → Scheduler → Prop
  | idle (none_due : ∀ address, ¬ Due reader call s address) : Guards [] s
  | dropped {requestIds : List String} {s' : Scheduler} (due : AllDue reader call s requestIds)
      (finished : ∀ address, (s'.heap address).isFinished = true ↔
        (s.heap address).isFinished = true ∨ Due reader call s address)
      (none_left : ∀ address, ¬ Due reader call s' address) :
      Guards [.finish s requestIds true] s'
  | failed {requestIds : List String} (due : AllDue reader call s requestIds) :
      Guards [.finish s requestIds false] s

end Specification

/-- The requests that were dropped, in the order of the calls. -/
def droppedRequests {α : Type} (told : List (Told α)) : List ℕ :=
  told.flatMap fun
    | .finish scheduler requestIds true => scheduler.addresses requestIds
    | _ => []

/-- The arguments that `schedule` was called with. -/
def scheduledArgs {α : Type} (told : List (Told α)) : List α :=
  told.filterMap fun
    | .schedule _ args => some args
    | .finish .. => none

def calledArgs {α : Type} (turns : List (Turn α)) : List α :=
  turns.filterMap fun
    | .called call => some call.args
    | .changed _ => none

/-! ## The requests that are due -/

section Due
variable {α : Type} {reader : Reader} {call : GuardedCall α} {s s' : Scheduler} {ttl : Flt}
  {requestIds : List String}

theorem values_requests (s : Scheduler) :
    s.requests.entries.map Prod.snd = s.table.entries.map fun e => s.heap e.2 := by
  simp [Scheduler.requests, Dict.mapValues, Function.comp_def]

theorem mem_expired (hk : s.Keyed) {now : ℚ} {requestId : String} :
    requestId ∈ expired ttl now s.requests ↔ ∃ address,
      s.table.get? requestId = some address ∧ (s.heap address).isFinished = false ∧
      ttl.lt (.fin (now - (s.heap address).arrivalTime.getD now)) = true := by
  simp only [expired, values_requests, List.mem_map, List.mem_filter, Bool.and_eq_true,
    Bool.not_eq_true']
  constructor
  · rintro ⟨-, ⟨⟨⟨key, address⟩, hmem, rfl⟩, hunfinished, hold⟩, rfl⟩
    have hget := Dict.mem_entries_iff.mp hmem
    exact ⟨address, by rwa [hk key address hget], hunfinished, hold⟩
  · rintro ⟨address, hget, hunfinished, hold⟩
    exact ⟨_, ⟨⟨_, Dict.mem_entries_of_get? hget, rfl⟩, hunfinished, hold⟩, hk _ _ hget⟩

/-- A part of the table's keys. -/
theorem nodup_expired (hk : s.Keyed) (now : ℚ) : (expired ttl now s.requests).Nodup := by
  have hkeys : (s.requests.entries.map Prod.snd).map Request.requestId = s.table.keys := by
    rw [values_requests, List.map_map]
    exact List.map_congr_left fun e hmem => hk e.1 e.2 (Dict.mem_entries_iff.mp hmem)
  exact (hkeys ▸ s.table.keys_nodup).sublist (List.filter_sublist.map Request.requestId)

/-- A request without an arrival time counts as new. -/
theorem due_iff (ht : deadlineSeconds reader call.deadline = .ok ttl)
    (hle : ttl.le (.fin 0) = false) {address : ℕ} : Due reader call s address ↔
      (∃ requestId, s.table.get? requestId = some address) ∧
      (s.heap address).isFinished = false ∧
      ttl.lt (.fin (call.now - (s.heap address).arrivalTime.getD call.now)) = true := by
  constructor
  · rintro ⟨hunfinished, hpresent, ttl', arrival, ht', -, harrival, hold⟩
    rw [ht] at ht'
    cases ht'
    exact ⟨hpresent, hunfinished, by rwa [harrival, Option.getD_some]⟩
  · rintro ⟨hpresent, hunfinished, hold⟩
    cases harrival : (s.heap address).arrivalTime with
    | none =>
      rw [harrival, Option.getD_none, sub_self] at hold
      rw [Flt.le_of_lt hold] at hle
      cases hle
    | some arrival =>
      rw [harrival, Option.getD_some] at hold
      exact ⟨hunfinished, hpresent, ttl, arrival, ht, Flt.lt_of_not_le hle hold, harrival, hold⟩

theorem mem_expired_iff (hk : s.Keyed) (ht : deadlineSeconds reader call.deadline = .ok ttl)
    (hle : ttl.le (.fin 0) = false) (requestId : String) :
    requestId ∈ expired ttl call.now s.requests ↔
      ∃ address, s.table.get? requestId = some address ∧ Due reader call s address := by
  rw [mem_expired hk]
  constructor
  · rintro ⟨address, hget, hdue⟩
    exact ⟨address, hget, (due_iff ht hle).mpr ⟨⟨_, hget⟩, hdue⟩⟩
  · rintro ⟨address, hget, hdue⟩
    exact ⟨address, hget, ((due_iff ht hle).mp hdue).2⟩

theorem AllDue.mem_addresses (h : AllDue reader call s requestIds) {address : ℕ} :
    address ∈ s.addresses requestIds ↔ Due reader call s address := by
  rw [Scheduler.addresses, List.mem_filterMap]
  constructor
  · rintro ⟨requestId, hmem, hget⟩
    obtain ⟨address', hget', hdue⟩ := (h.mem_iff requestId).mp hmem
    rw [hget] at hget'
    cases hget'
    exact hdue
  · intro hdue
    obtain ⟨requestId, hget⟩ := hdue.present
    exact ⟨requestId, (h.mem_iff requestId).mpr ⟨address, hget, hdue⟩, hget⟩

theorem AllDue.length_addresses (h : AllDue reader call s requestIds) :
    (s.addresses requestIds).length = requestIds.length := by
  rw [Scheduler.addresses, List.filterMap_length_eq_length]
  intro requestId hmem
  obtain ⟨address, hget, -⟩ := (h.mem_iff requestId).mp hmem
  rw [hget]
  rfl

theorem AllDue.nodup_addresses (h : AllDue reader call s requestIds) (hk : s.Keyed) :
    (s.addresses requestIds).Nodup := by
  refine h.nodup.filterMap fun requestId requestId' address hget hget' => ?_
  exact (hk requestId address hget).symm.trans (hk requestId' address hget')

/-- Finishing what is due finishes nothing else, and leaves nothing due. -/
theorem AllDue.finishes (h : AllDue reader call s requestIds) (hf : s.Finishes requestIds s') :
    (∀ address, (s'.heap address).isFinished = true ↔
      (s.heap address).isFinished = true ∨ Due reader call s address) ∧
    ∀ address, ¬ Due reader call s' address := by
  have hfinished : ∀ address, (s'.heap address).isFinished = true ↔
      (s.heap address).isFinished = true ∨ Due reader call s address := fun address => by
    rw [hf.finished, h.mem_addresses]
  refine ⟨hfinished, ?_⟩
  rintro address ⟨hunfinished, ⟨requestId, hget⟩, hold⟩
  have hnot : ¬ (s'.heap address).isFinished = true := by simp [hunfinished]
  have hstill : (s.heap address).isFinished = false := by
    by_contra hne
    exact hnot ((hfinished address).mpr (.inl (by simpa using hne)))
  rw [hf.arrivalTime] at hold
  exact hnot ((hfinished address).mpr (.inr ⟨hstill, ⟨requestId, hf.table _ _ hget⟩, hold⟩))

theorem Scheduler.Finishes.keyed (h : s.Finishes requestIds s') (hk : s.Keyed) : s'.Keyed := by
  intro requestId address hget
  rw [h.requestId]
  exact hk requestId address (h.table requestId address hget)

end Due

/-! ## Runs -/

section Runs
variable {α : Type} {reader : Reader} {call : GuardedCall α} {s : Guarding α}

/-- All that the guard can do. -/
theorem dropExpired_cases (reader : Reader) (hk : s.scheduler.Keyed) (hs : call.Supported) :
    (s.dropExpired reader call = s ∧ ∀ address, ¬ Due reader call s.scheduler address) ∨
    ∃ requestIds, AllDue reader call s.scheduler requestIds ∧
      ((∃ scheduler, s.scheduler.Finishes requestIds scheduler ∧
        s.dropExpired reader call = {
          scheduler
          droppedTotal := s.droppedTotal + requestIds.length
          told := s.told ++ [.finish s.scheduler requestIds true] }) ∨
      s.dropExpired reader call =
        { s with told := s.told ++ [.finish s.scheduler requestIds false] }) := by
  unfold Guarding.dropExpired
  split
  · -- the deadline cannot be read
    rename_i e herror
    refine .inl ⟨rfl, ?_⟩
    rintro address ⟨-, -, ttl, -, ht, -⟩
    rw [herror] at ht
    cases ht
  · rename_i ttl ht
    split
    · -- the deadline is not positive
      rename_i hoff
      have hle : ttl.le (.fin 0) = true := by simpa [hs.importable] using hoff
      refine .inl ⟨rfl, ?_⟩
      rintro address ⟨-, -, ttl', -, ht', hpos, -⟩
      rw [ht] at ht'
      cases ht'
      rw [Flt.not_lt_of_le hle] at hpos
      cases hpos
    · rename_i hon
      have hle : ttl.le (.fin 0) = false := by simpa [hs.importable] using hon
      have hmem := mem_expired_iff hk ht hle
      simp only
      split
      · rename_i hempty
        refine .inl ⟨rfl, fun address hdue => ?_⟩
        obtain ⟨requestId, hget⟩ := hdue.present
        have hin := (hmem requestId).mpr ⟨address, hget, hdue⟩
        rw [List.isEmpty_iff.mp hempty] at hin
        cases hin
      · rename_i hne
        have hdue : AllDue reader call s.scheduler (expired ttl call.now s.scheduler.requests) :=
          ⟨fun hnil => hne (List.isEmpty_iff.mpr hnil), nodup_expired hk _, hmem⟩
        refine .inr ⟨_, hdue, ?_⟩
        split
        · rename_i scheduler hfinish
          exact .inl ⟨scheduler, hs.succeeds _ _ _ hfinish, rfl⟩
        · rename_i scheduler e hfinish
          rw [hs.fails _ _ _ _ hfinish]
          exact .inr rfl

/-- Scheduling drops nothing. -/
theorem droppedRequests_call (told guarding : List (Told α)) (scheduler : Scheduler) (args : α) :
    droppedRequests (told ++ guarding ++ [.schedule scheduler args]) =
      droppedRequests told ++ droppedRequests guarding := by
  simp [droppedRequests]

/-- **What a guarded call does.** -/
theorem guarded_guards (reader : Reader) (hk : s.scheduler.Keyed) (hs : call.Supported) :
    ∃ guarding, Guards reader call s.scheduler guarding (s.guarded reader call).scheduler ∧
      (s.guarded reader call).told =
        s.told ++ guarding ++ [.schedule (s.guarded reader call).scheduler call.args] ∧
      (s.guarded reader call).droppedTotal =
        s.droppedTotal + (droppedRequests guarding).length := by
  unfold Guarding.guarded
  rcases dropExpired_cases reader hk hs with
    ⟨heq, hnone⟩ | ⟨requestIds, hdue, ⟨scheduler, hfinishes, heq⟩ | heq⟩
  · exact ⟨[], by rw [heq]; exact .idle hnone, by rw [heq, List.append_nil], by rw [heq]; rfl⟩
  · obtain ⟨hfinished, hleft⟩ := hdue.finishes hfinishes
    refine ⟨[.finish s.scheduler requestIds true], ?_, by rw [heq], ?_⟩
    · rw [heq]
      exact .dropped hdue hfinished hleft
    · rw [heq, ← hdue.length_addresses]
      simp [droppedRequests]
  · refine ⟨[.finish s.scheduler requestIds false], ?_, by rw [heq], by rw [heq]; rfl⟩
    rw [heq]
    exact .failed hdue

/-- The guard itself schedules nothing, and what it drops was unfinished and is
finished now. -/
theorem Guards.spec {s s' : Scheduler} {guarding : List (Told α)}
    (h : Guards reader call s guarding s') (hk : s.Keyed) :
    scheduledArgs guarding = [] ∧ (droppedRequests guarding).Nodup ∧
    (∀ address ∈ droppedRequests guarding, (s.heap address).isFinished = false ∧
      (s'.heap address).isFinished = true) ∧
    ∀ address, (s.heap address).isFinished = true → (s'.heap address).isFinished = true := by
  cases h with
  | idle _ => exact ⟨rfl, List.nodup_nil, by simp [droppedRequests], fun _ => id⟩
  | failed _ => exact ⟨rfl, List.nodup_nil, by simp [droppedRequests], fun _ => id⟩
  | @dropped requestIds s' hdue hfinished _ =>
    have heq : droppedRequests (α := α) [.finish s requestIds true] = s.addresses requestIds :=
      List.append_nil _
    rw [heq]
    refine ⟨rfl, hdue.nodup_addresses hk, fun address hmem => ?_,
      fun address hwas => (hfinished address).mpr (.inl hwas)⟩
    have hdueA := hdue.mem_addresses.mp hmem
    exact ⟨hdueA.unfinished, (hfinished address).mpr (.inr hdueA)⟩

theorem guarded_keyed (hk : s.scheduler.Keyed) (hs : call.Supported) :
    (s.guarded reader call).scheduler.Keyed := by
  unfold Guarding.guarded
  rcases dropExpired_cases reader hk hs with
    ⟨heq, -⟩ | ⟨requestIds, -, ⟨scheduler, hfinishes, heq⟩ | heq⟩
  · rwa [heq]
  · rw [heq]
    exact hfinishes.keyed hk
  · rwa [heq]

/-- The table is keyed, and the total counts what was dropped. -/
structure Guarding.Sound (s : Guarding α) : Prop where
  keyed : s.scheduler.Keyed
  total : s.droppedTotal = (droppedRequests s.told).length

theorem Guarding.Sound.step (h : s.Sound) {turn : Turn α} (ht : turn.Supported) :
    (s.step reader turn).Sound := by
  cases turn with
  | changed scheduler => exact ⟨ht, h.total⟩
  | called call =>
    obtain ⟨guarding, -, htold, htotal⟩ := guarded_guards reader h.keyed ht
    refine ⟨guarded_keyed h.keyed ht, ?_⟩
    rw [Guarding.step, htotal, htold, h.total, droppedRequests_call, List.length_append]

theorem scheduledArgs_step (h : s.Sound) {turn : Turn α} (ht : turn.Supported) :
    scheduledArgs (s.step reader turn).told = scheduledArgs s.told ++ calledArgs [turn] := by
  cases turn with
  | changed scheduler => exact (List.append_nil _).symm
  | called call =>
    obtain ⟨guarding, hguards, htold, -⟩ := guarded_guards reader h.keyed ht
    have hnone := (hguards.spec h.keyed).1
    rw [Guarding.step, htold]
    simp only [scheduledArgs, List.filterMap_append] at hnone ⊢
    rw [hnone, List.append_nil]
    rfl

/-- Nothing was dropped twice, and what was dropped is finished. -/
structure Guarding.Once (s : Guarding α) : Prop where
  nodup : (droppedRequests s.told).Nodup
  finished : ∀ address ∈ droppedRequests s.told, (s.scheduler.heap address).isFinished = true

theorem Guarding.Once.step (h : s.Once) (hs : s.Sound) {turn : Turn α} (ht : turn.Supported)
    (hl : turn.Lasting s) : (s.step reader turn).Once := by
  cases turn with
  | changed scheduler =>
    exact ⟨h.nodup, fun address hmem => hl address (h.finished address hmem)⟩
  | called call =>
    obtain ⟨guarding, hguards, htold, -⟩ := guarded_guards reader hs.keyed ht
    obtain ⟨-, hnodup, hnew, hold⟩ := hguards.spec hs.keyed
    have hdropped : droppedRequests (s.step reader (.called call)).told =
        droppedRequests s.told ++ droppedRequests guarding := by
      rw [Guarding.step, htold, droppedRequests_call]
    constructor
    · rw [hdropped, List.nodup_append]
      refine ⟨h.nodup, hnodup, fun address hmem address' hmem' heq => ?_⟩
      have hwas := h.finished address hmem
      rw [heq, (hnew address' hmem').1] at hwas
      cases hwas
    · intro address hmem
      rw [hdropped, List.mem_append] at hmem
      rcases hmem with hmem | hmem
      · exact hold address (h.finished address hmem)
      · exact (hnew address hmem).2

/-- The guard after these turns. -/
def guardedRun (reader : Reader) (first : Scheduler) (turns : List (Turn α)) : Guarding α :=
  run (Guarding.step reader) { scheduler := first } turns

theorem sound_guardedRun (reader : Reader) {first : Scheduler} (hfirst : first.Keyed)
    {turns : List (Turn α)} (hturns : ∀ turn ∈ turns, turn.Supported) :
    (guardedRun reader first turns).Sound :=
  run_invariant (I := Guarding.Sound) _ (fun _ _ h ht => h.step ht)
    (RunMeets.of_forall _ _ hturns) ⟨hfirst, rfl⟩

/-- No request is dropped again as long as it stays finished. -/
theorem once_guardedRun {first : Scheduler} (hfirst : first.Keyed) {turns : List (Turn α)}
    (hturns : ∀ turn ∈ turns, turn.Supported)
    (hl : RunMeets (Guarding.step reader) Turn.Lasting { scheduler := first } turns) :
    (guardedRun reader first turns).Once :=
  (run_invariant (I := fun s : Guarding α => s.Sound ∧ s.Once) _
    (fun _ _ ⟨hs, h⟩ ⟨ht, hl⟩ => ⟨hs.step ht, h.step hs ht hl⟩)
    (RunMeets.and _ (RunMeets.of_forall _ _ hturns) hl)
    ⟨⟨hfirst, rfl⟩, List.nodup_nil, by simp [droppedRequests]⟩).2

theorem scheduledArgs_run : ∀ {turns : List (Turn α)} {s : Guarding α}, s.Sound →
    (∀ turn ∈ turns, turn.Supported) →
    scheduledArgs (run (Guarding.step reader) s turns).told =
      scheduledArgs s.told ++ calledArgs turns
  | [], _, _, _ => (List.append_nil _).symm
  | turn :: rest, s, h, hturns => by
    have ht := hturns turn List.mem_cons_self
    have hrest : ∀ turn' ∈ rest, turn'.Supported := fun turn' hmem =>
      hturns turn' (List.mem_cons_of_mem turn hmem)
    have hstep : (s.step reader turn).Sound := h.step ht
    rw [run_cons, scheduledArgs_run hstep hrest, scheduledArgs_step h ht, List.append_assoc]
    rw [calledArgs, calledArgs, calledArgs, ← List.filterMap_append]
    rfl

/-- **The guard over runs.** -/
theorem deadline_guard (reader : Reader) {first : Scheduler} (hfirst : first.Keyed)
    {turns : List (Turn α)} (hturns : ∀ turn ∈ turns, turn.Supported) :
    (∀ call : GuardedCall α, call.Supported → ∃ guarding,
      Guards reader call (guardedRun reader first turns).scheduler guarding
        ((guardedRun reader first turns).guarded reader call).scheduler ∧
      ((guardedRun reader first turns).guarded reader call).told =
        (guardedRun reader first turns).told ++ guarding ++
          [.schedule ((guardedRun reader first turns).guarded reader call).scheduler call.args]) ∧
    scheduledArgs (guardedRun reader first turns).told = calledArgs turns ∧
    (guardedRun reader first turns).droppedTotal =
      (droppedRequests (guardedRun reader first turns).told).length ∧
    (RunMeets (Guarding.step reader) Turn.Lasting { scheduler := first } turns →
      (droppedRequests (guardedRun reader first turns).told).Nodup) := by
  have hsound := sound_guardedRun reader hfirst hturns
  refine ⟨fun call hs => ?_, scheduledArgs_run ⟨hfirst, rfl⟩ hturns, hsound.total, fun hl =>
    (once_guardedRun hfirst hturns hl).nodup⟩
  obtain ⟨guarding, hguards, htold, -⟩ := guarded_guards reader hsound.keyed hs
  exact ⟨guarding, hguards, htold⟩

end Runs

/-! ## A request that waits -/

def thirtySeconds : Reader where
  float := fun text => if text = "30" then .ok (.fin 30) else .error (.valueError text)
  int := fun text => .error (.valueError text)
  loads := fun text => .error (.valueError text)

/-- `finish_requests` that keeps the table. -/
def markFinished (s : Scheduler) (requestIds : List String) : Scheduler × Except PyError Unit :=
  ({ s with heap := fun address => { s.heap address with
      isFinished := (s.heap address).isFinished || (s.addresses requestIds).contains address } },
    .ok ())

def brokenFinish (s : Scheduler) (_ : List String) : Scheduler × Except PyError Unit :=
  (s, .error (.runtimeError "unsupported"))

def guardedAt (now : ℚ) (finishRequests : Scheduler → List String → Scheduler × Except PyError Unit)
    (args : ℕ) : GuardedCall ℕ :=
  ⟨some "30", true, now, finishRequests, args⟩

theorem supported_marked (now : ℚ) (args : ℕ) : (guardedAt now markFinished args).Supported where
  importable := rfl
  succeeds := by
    intro s requestIds s' heq
    obtain ⟨rfl, -⟩ := Prod.mk.inj heq
    exact ⟨fun address => by simp, fun _ => rfl, fun _ => rfl, fun _ _ => id⟩
  fails := by
    intro s requestIds s' e heq
    cases (Prod.mk.inj heq).2

theorem supported_broken (now : ℚ) (args : ℕ) : (guardedAt now brokenFinish args).Supported where
  importable := rfl
  succeeds := by
    intro s requestIds s' heq
    cases (Prod.mk.inj heq).2
  fails := by
    intro s requestIds s' e heq
    exact (Prod.mk.inj heq).1.symm

/-- A request that is late, one that will be, one that is done and one without an
arrival time. -/
def waiting : Scheduler where
  heap
    | 0 => ⟨"stale", some 950, false⟩
    | 1 => ⟨"fresh", some 990, false⟩
    | 2 => ⟨"done", some 950, true⟩
    | _ => ⟨"unknown", none, false⟩
  table := Dict.ofList [("stale", 0), ("fresh", 1), ("done", 2), ("unknown", 3)]

def waitingTurns : List (Turn ℕ) := [.called (guardedAt 1000 brokenFinish 1),
  .called (guardedAt 1000 markFinished 2), .called (guardedAt 1025 markFinished 3)]

theorem deadline_guard_waiting :
    scheduledArgs (guardedRun thirtySeconds waiting waitingTurns).told = [1, 2, 3] ∧
    droppedRequests (guardedRun thirtySeconds waiting waitingTurns).told = [0, 1] ∧
    (guardedRun thirtySeconds waiting waitingTurns).droppedTotal = 2 ∧
    (droppedRequests (guardedRun thirtySeconds waiting waitingTurns).told).Nodup := by
  have hkeyed : waiting.Keyed := by
    intro requestId address hget
    have hmem := Dict.mem_entries_of_get? hget
    have hall : ∀ e ∈ waiting.table.entries, (waiting.heap e.2).requestId = e.1 := by
      decide +kernel
    exact hall _ hmem
  have hturns : ∀ turn ∈ waitingTurns, turn.Supported := by
    intro turn hmem
    simp only [waitingTurns, List.mem_cons, List.not_mem_nil, or_false] at hmem
    rcases hmem with rfl | rfl | rfl
    · exact supported_broken 1000 1
    · exact supported_marked 1000 2
    · exact supported_marked 1025 3
  obtain ⟨-, hargs, htotal, hnodup⟩ := deadline_guard thirtySeconds hkeyed hturns
  have hdropped :
      droppedRequests (guardedRun thirtySeconds waiting waitingTurns).told = [0, 1] := by
    decide +kernel
  exact ⟨hargs, hdropped, htotal.trans (by rw [hdropped]; rfl),
    hnodup ⟨trivial, trivial, trivial, trivial⟩⟩

end VllmObserver.Stages
