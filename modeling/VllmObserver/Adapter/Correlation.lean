import VllmObserver.Adapter.Delivery
import VllmObserver.Lib.Runs

/-! # Correlating background statistics

`observed_generate` keeps the trace and the generation of each call in the map
`active`, under the call's request id, until the call ends. A background task
finds them there when it delivers the statistic of a finished request. Calls and
statistics interleave in any order. -/
namespace VllmObserver.Adapter
open VllmObserver.Lib VllmObserver.Core VllmObserver.Stages

/-- A live `generate()` call. `entry` is what a traced one has put into `active`:
its trace and the position of its generation. -/
structure Call where
  requestId : String
  entry : Option (ℕ × ℕ)
  ended : Bool
deriving DecidableEq

/-- How the iteration of a call ends. -/
inductive Ending where
  | completed
  | error
  | cancelled
  | closed
deriving DecidableEq

/-- The status that an `except` branch notes in the generation. -/
def Ending.status? : Ending → Option String
  | completed => none
  | error => some "error"
  | cancelled | closed => some "cancelled"

structure AdapterState where
  traces : ℕ → RequestTrace
  active : Dict String (ℕ × ℕ) := Dict.empty
  calls : Dict ℕ Call := Dict.empty

/-- What happens next: a call starts, its iteration ends, it has closed the
engine's iterator and leaves, or a statistic is delivered. -/
inductive AdapterOp where
  | enter (call : ℕ) (requestId : String) (trace : Option ℕ) (uuid : String) (perf : ℚ)
  | ended (call : ℕ) (ending : Ending)
  | leave (call : ℕ) (perf : ℚ)
  | finished (requestId : String) (stat : FinishedStat) (raw : RawStats) (uuid : ℕ → String)
      (perf : ℕ → ℚ)

/-- Change the trace of an entry. -/
def onEntry (traces : ℕ → RequestTrace) (entry : Option (ℕ × ℕ))
    (f : ℕ → RequestTrace → RequestTrace) : ℕ → RequestTrace :=
  match entry with
  | none => traces
  | some (t, gen) => Function.update traces t (f gen (traces t))

/-- `generation["metadata"]["status"] = status`. -/
def noteStatus (ending : Ending) (gen : ℕ) (trace : RequestTrace) : RequestTrace :=
  match ending.status? with
  | none => trace
  | some status => (setMetadata gen [("status", .str status)] trace).1

section Run
variable (reader : Reader)

def AdapterState.apply (s : AdapterState) : AdapterOp → AdapterState
  | .enter call requestId trace uuid perf =>
    match s.calls.get? call, trace with
    | some _, _ => s -- a live call does not start again
    | none, none =>
      { s with calls := s.calls.set call { requestId := requestId, entry := none, ended := false } }
    | none, some t =>
      let entry := (t, (s.traces t).observations.length)
      { traces :=
          Function.update s.traces t ((s.traces t).beginGeneration uuid requestId perf)
        active := s.active.set requestId entry
        calls := s.calls.set call { requestId := requestId, entry := some entry, ended := false } }
  | .ended call ending =>
    match s.calls.get? call with
    | none => s
    | some c =>
      if c.ended then s
      else { s with
        traces := onEntry s.traces c.entry (noteStatus ending)
        calls := s.calls.set call { c with ended := true } }
  | .leave call perf =>
    match s.calls.get? call with
    | none => s
    | some c =>
      if c.ended then
        { traces := onEntry s.traces c.entry fun gen => closeGeneration gen perf
          active := s.active.erase c.requestId
          calls := s.calls.erase call }
      else s
  | .finished requestId stat raw uuid perf =>
    { s with
      traces := onEntry s.traces (s.active.get? requestId) fun gen =>
        observedUpdate reader uuid perf gen stat raw }

end Run

/-! ## The generations of the live calls -/

/-- The observations that count their sequences stay and go on counting. -/
def CountsKept (before after : RequestTrace) : Prop :=
  ∀ (i : ℕ) (g : Node) (n : ℤ), before.observations[i]? = some g → sequenceIndex g = .int n →
    ∃ g' n', after.observations[i]? = some g' ∧ sequenceIndex g' = .int n'

theorem CountsKept.refl (trace : RequestTrace) : CountsKept trace trace :=
  fun _ g n hg hn => ⟨g, n, hg, hn⟩

theorem countsKept_begin (trace : RequestTrace) (uuid requestId : String) (perf : ℚ) :
    CountsKept trace (trace.beginGeneration uuid requestId perf) := by
  intro i g n hg hn
  refine ⟨g, n, ?_, hn⟩
  rw [RequestTrace.beginGeneration, List.getElem?_append_left (List.getElem?_eq_some_iff.mp hg).1]
  exact hg

/-- A node changes, but not its number of sequences. -/
theorem countsKept_modify (trace : RequestTrace) (gen : ℕ) {f : Node → Node}
    (hf : ∀ g, sequenceIndex (f g) = sequenceIndex g) :
    CountsKept trace { trace with observations := trace.observations.modify gen f } := by
  intro i g n hg hn
  by_cases hi : i = gen
  · subst hi
    refine ⟨f g, n, ?_, (hf g).trans hn⟩
    rw [List.getElem?_modify_eq, hg]
    rfl
  · refine ⟨g, n, ?_, hn⟩
    rw [List.getElem?_modify_ne _ _ (Ne.symm hi)]
    exact hg

theorem countsKept_noteStatus (ending : Ending) (gen : ℕ) (trace : RequestTrace) :
    CountsKept trace (noteStatus ending gen trace) := by
  unfold noteStatus
  split
  · exact CountsKept.refl trace
  · exact countsKept_modify trace gen fun g => sequenceIndex_withMetadata (by simp) g

theorem countsKept_close (gen : ℕ) (perf : ℚ) (trace : RequestTrace) :
    CountsKept trace (closeGeneration gen perf trace) :=
  countsKept_modify trace gen fun _ => rfl

theorem countsKept_update {reader : Reader} {uuid : ℕ → String} {perf : ℕ → ℚ} {gen : ℕ}
    {stat : FinishedStat} {raw : RawStats} {trace : RequestTrace} {g : Node} {n : ℤ}
    (hg : trace.observations[gen]? = some g) (hn : sequenceIndex g = .int n) :
    CountsKept trace (observedUpdate reader uuid perf gen stat raw trace) := by
  intro i g' m hg' hm
  by_cases hi : i = gen
  · subst hi
    cases hc : decodeCount stat with
    | error e =>
      rw [observedUpdate_uncounted reader uuid perf raw hc]
      exact ⟨g', m, hg', hm⟩
    | ok count =>
      obtain ⟨_, g₁, n₁, _, hg₁, _, _, _, hn₁, _⟩ :=
        (observedUpdate_delivered reader uuid perf raw hg hc hn).generation
      exact ⟨g₁, n₁ + 1, hg₁, hn₁⟩
  · have hlt := (List.getElem?_eq_some_iff.mp hg').1
    exact ⟨g', m, by rw [observedUpdate_others reader uuid perf raw hi hlt hg]; exact hg', hm⟩

/-- Each traced call has a generation of its own that counts its sequences, and
`active` holds entries of live calls only. -/
structure Placed (s : AdapterState) : Prop where
  placed : ∀ c call t gen, s.calls.get? c = some call → call.entry = some (t, gen) →
    ∃ g n, (s.traces t).observations[gen]? = some g ∧ sequenceIndex g = .int n
  apart : ∀ c c' call call' entry, s.calls.get? c = some call → s.calls.get? c' = some call' →
    call.entry = some entry → call'.entry = some entry → c = c'
  owned : ∀ requestId entry, s.active.get? requestId = some entry →
    ∃ c call, s.calls.get? c = some call ∧ call.requestId = requestId ∧ call.entry = some entry

theorem countsKept_onEntry {traces : ℕ → RequestTrace} {entry : Option (ℕ × ℕ)}
    {f : ℕ → RequestTrace → RequestTrace}
    (hf : ∀ t gen, entry = some (t, gen) → CountsKept (traces t) (f gen (traces t))) (t : ℕ) :
    CountsKept (traces t) (onEntry traces entry f t) := by
  unfold onEntry
  split
  · exact CountsKept.refl _
  · rename_i t' gen
    by_cases ht : t = t'
    · subst ht
      rw [Function.update_self]
      exact hf t gen rfl
    · rw [Function.update_of_ne ht]
      exact CountsKept.refl _

/-- Marking a call as ended leaves its id and its entry. -/
theorem get?_ended {calls : Dict ℕ Call} {c d : ℕ} {call call' : Call}
    (hc : calls.get? c = some call)
    (hd : (calls.set c { call with ended := true }).get? d = some call') :
    ∃ old, calls.get? d = some old ∧ old.requestId = call'.requestId ∧
      old.entry = call'.entry := by
  rcases Dict.get?_set_some hd with ⟨rfl, rfl⟩ | ⟨_, hd⟩
  · exact ⟨call, hc, rfl, rfl⟩
  · exact ⟨call', hd, rfl, rfl⟩

section Placed
variable {s : AdapterState}

theorem Placed.traces (h : Placed s) {traces : ℕ → RequestTrace}
    (hk : ∀ t, CountsKept (s.traces t) (traces t)) : Placed { s with traces := traces } where
  placed := by
    intro c call t gen hc he
    obtain ⟨g, n, hg, hn⟩ := h.placed c call t gen hc he
    exact hk t gen g n hg hn
  apart := h.apart
  owned := h.owned

theorem Placed.ended (h : Placed s) {c : ℕ} {call : Call} (hc : s.calls.get? c = some call) :
    Placed { s with calls := s.calls.set c { call with ended := true } } := by
  refine ⟨?_, ?_, ?_⟩
  · intro d call' t gen hd he
    obtain ⟨old, ho, _, hentry⟩ := get?_ended hc hd
    exact h.placed d old t gen ho (hentry.trans he)
  · intro d d' call₁ call₂ entry h1 h2 e1 e2
    obtain ⟨o1, ho1, _, he1⟩ := get?_ended hc h1
    obtain ⟨o2, ho2, _, he2⟩ := get?_ended hc h2
    exact h.apart d d' o1 o2 entry ho1 ho2 (he1.trans e1) (he2.trans e2)
  · intro requestId entry ha
    obtain ⟨d, old, hd, hr, he⟩ := h.owned requestId entry ha
    by_cases hdc : d = c
    · subst hdc
      obtain rfl := Option.some.inj (hc.symm.trans hd)
      exact ⟨d, { call with ended := true }, by rw [Dict.get?_set, if_pos rfl], hr, he⟩
    · exact ⟨d, old, by rw [Dict.get?_set, if_neg hdc]; exact hd, hr, he⟩

theorem Placed.leave (h : Placed s) {c : ℕ} {call : Call} (hc : s.calls.get? c = some call) :
    Placed { s with
      active := s.active.erase call.requestId
      calls := s.calls.erase c } := by
  refine ⟨fun d call' t gen hd => h.placed d call' t gen (Dict.get?_erase_some hd).2,
    fun d d' call₁ call₂ entry h1 h2 => h.apart d d' call₁ call₂ entry
      (Dict.get?_erase_some h1).2 (Dict.get?_erase_some h2).2, ?_⟩
  intro requestId entry ha
  obtain ⟨hne, ha⟩ := Dict.get?_erase_some ha
  obtain ⟨d, old, hd, hr, he⟩ := h.owned requestId entry ha
  refine ⟨d, old, ?_, hr, he⟩
  have hdc : d ≠ c := by
    rintro rfl
    obtain rfl := Option.some.inj (hc.symm.trans hd)
    exact hne hr.symm
  rw [Dict.get?_erase, if_neg hdc]
  exact hd

/-- A call enters, with an entry that no other call has. -/
theorem Placed.enter (h : Placed s) {c : ℕ} (hc : s.calls.get? c = none) {new : Call}
    {active : Dict String (ℕ × ℕ)}
    (hfresh : ∀ d call entry, s.calls.get? d = some call → call.entry = some entry →
      new.entry ≠ some entry)
    (hplaced : ∀ t gen, new.entry = some (t, gen) →
      ∃ g n, (s.traces t).observations[gen]? = some g ∧ sequenceIndex g = .int n)
    (hactive : ∀ requestId entry, active.get? requestId = some entry →
      s.active.get? requestId = some entry ∨ requestId = new.requestId ∧ new.entry = some entry) :
    Placed { s with active := active, calls := s.calls.set c new } := by
  refine ⟨?_, ?_, ?_⟩
  · intro d call' t gen hd he
    rcases Dict.get?_set_some hd with ⟨_, rfl⟩ | ⟨_, hd⟩
    · exact hplaced t gen he
    · exact h.placed d call' t gen hd he
  · intro d d' call₁ call₂ entry h1 h2 e1 e2
    rcases Dict.get?_set_some h1 with ⟨hd, hnew⟩ | ⟨_, h1'⟩ <;>
      rcases Dict.get?_set_some h2 with ⟨hd', hnew'⟩ | ⟨_, h2'⟩
    · rw [hd, hd']
    · exact absurd (hnew ▸ e1) (hfresh d' call₂ entry h2' e2)
    · exact absurd (hnew' ▸ e2) (hfresh d call₁ entry h1' e1)
    · exact h.apart d d' call₁ call₂ entry h1' h2' e1 e2
  · intro requestId entry ha
    rcases hactive requestId entry ha with ha | ⟨rfl, he⟩
    · obtain ⟨d, call, hd, hr, he⟩ := h.owned requestId entry ha
      have hdc : d ≠ c := by
        rintro rfl
        rw [hc] at hd
        cases hd
      exact ⟨d, call, by rw [Dict.get?_set, if_neg hdc]; exact hd, hr, he⟩
    · exact ⟨c, new, by rw [Dict.get?_set, if_pos rfl], rfl, he⟩

/-- Any step keeps the generations in place. -/
theorem Placed.step (reader : Reader) (h : Placed s) (op : AdapterOp) :
    Placed (s.apply reader op) := by
  cases op with
  | enter c requestId trace uuid perf =>
    simp only [AdapterState.apply]
    split
    · exact h
    · rename_i hc
      exact h.enter hc (fun _ _ _ _ _ => by simp) (fun _ _ he => by cases he)
        fun _ _ ha => Or.inl ha
    · rename_i t hc
      have hbegin : Placed { s with
          traces := Function.update s.traces t
            ((s.traces t).beginGeneration uuid requestId perf) } := by
        refine h.traces fun t' => ?_
        by_cases ht : t' = t
        · subst ht
          rw [Function.update_self]
          exact countsKept_begin _ uuid requestId perf
        · rw [Function.update_of_ne ht]
          exact CountsKept.refl _
      refine hbegin.enter hc ?_ ?_ ?_
      · -- a generation that stands already stands before the new one
        rintro d call ⟨t', gen⟩ hd he hnew
        obtain ⟨rfl, rfl⟩ := Prod.mk.inj (Option.some.inj hnew)
        obtain ⟨g, _, hg, _⟩ := h.placed d call _ _ hd he
        exact absurd (List.getElem?_eq_some_iff.mp hg).1 (lt_irrefl _)
      · intro t' gen hnew
        obtain ⟨rfl, rfl⟩ := Prod.mk.inj (Option.some.inj hnew)
        simp only [Function.update_self]
        exact ⟨_, 0, List.getElem?_concat_length, rfl⟩
      · intro id entry ha
        rw [Dict.get?_set] at ha
        split at ha
        · exact Or.inr ⟨‹_›, ha⟩
        · exact Or.inl ha
  | ended c ending =>
    simp only [AdapterState.apply]
    split
    · exact h
    · rename_i call hc
      split
      · exact h
      · exact (h.traces fun t => countsKept_onEntry
          (fun t gen _ => countsKept_noteStatus ending gen _) t).ended hc
  | leave c perf =>
    simp only [AdapterState.apply]
    split
    · exact h
    · rename_i call hc
      split
      · exact (h.traces fun t => countsKept_onEntry
          (fun t gen _ => countsKept_close gen perf _) t).leave hc
      · exact h
  | finished requestId stat raw uuid perf =>
    refine h.traces fun t => countsKept_onEntry (fun t gen he => ?_) t
    obtain ⟨c, call, hc, _, hentry⟩ := h.owned requestId _ he
    obtain ⟨g, n, hg, hn⟩ := h.placed c call t gen hc hentry
    exact countsKept_update hg hn

end Placed

/-! ## Calls whose ids differ -/

/-- Live calls bear different ids, and `active` has the entry of each. -/
structure Matched (active : Dict String (ℕ × ℕ)) (calls : Dict ℕ Call) : Prop where
  unshared : ∀ c c' call call', calls.get? c = some call → calls.get? c' = some call' →
    call.requestId = call'.requestId → c = c'
  listed : ∀ c call entry, calls.get? c = some call → call.entry = some entry →
    active.get? call.requestId = some entry

structure Correlated (s : AdapterState) : Prop extends Placed s, Matched s.active s.calls

/-- The id of a call that starts is not that of a live one. -/
def Unshared (s : AdapterState) : AdapterOp → Prop
  | .enter _ requestId _ _ _ =>
    ∀ c call, s.calls.get? c = some call → call.requestId ≠ requestId
  | _ => True

section Matched
variable {active active' : Dict String (ℕ × ℕ)} {calls : Dict ℕ Call}

theorem Matched.enter (h : Matched active calls) {c : ℕ} {new : Call}
    (hid : ∀ d call, calls.get? d = some call → call.requestId ≠ new.requestId)
    (hnew : ∀ entry, new.entry = some entry → active'.get? new.requestId = some entry)
    (hold : ∀ requestId, requestId ≠ new.requestId →
      active'.get? requestId = active.get? requestId) :
    Matched active' (calls.set c new) := by
  constructor
  · intro d d' call₁ call₂ h1 h2 hr
    rcases Dict.get?_set_some h1 with ⟨hd, hn⟩ | ⟨_, h1'⟩ <;>
      rcases Dict.get?_set_some h2 with ⟨hd', hn'⟩ | ⟨_, h2'⟩
    · rw [hd, hd']
    · exact absurd (hn ▸ hr.symm) (hid d' call₂ h2')
    · exact absurd (hn' ▸ hr) (hid d call₁ h1')
    · exact h.unshared d d' call₁ call₂ h1' h2' hr
  · intro d call entry hd he
    rcases Dict.get?_set_some hd with ⟨_, rfl⟩ | ⟨_, hd'⟩
    · exact hnew entry he
    · rw [hold _ (hid d call hd')]
      exact h.listed d call entry hd' he

theorem Matched.ended (h : Matched active calls) {c : ℕ} {call : Call}
    (hc : calls.get? c = some call) :
    Matched active (calls.set c { call with ended := true }) := by
  constructor
  · intro d d' call₁ call₂ h1 h2 hr
    obtain ⟨o1, ho1, hr1, _⟩ := get?_ended hc h1
    obtain ⟨o2, ho2, hr2, _⟩ := get?_ended hc h2
    exact h.unshared d d' o1 o2 ho1 ho2 ((hr1.trans hr).trans hr2.symm)
  · intro d call' entry hd he
    obtain ⟨old, ho, hr, hentry⟩ := get?_ended hc hd
    rw [← hr]
    exact h.listed d old entry ho (hentry.trans he)

theorem Matched.leave (h : Matched active calls) {c : ℕ} {call : Call}
    (hc : calls.get? c = some call) :
    Matched (active.erase call.requestId) (calls.erase c) := by
  constructor
  · intro d d' call₁ call₂ h1 h2
    exact h.unshared d d' call₁ call₂ (Dict.get?_erase_some h1).2 (Dict.get?_erase_some h2).2
  · intro d call' entry hd he
    obtain ⟨hdc, hd⟩ := Dict.get?_erase_some hd
    have hne : call'.requestId ≠ call.requestId :=
      fun hr => hdc (h.unshared d c call' call hd hc hr)
    rw [Dict.get?_erase, if_neg hne]
    exact h.listed d call' entry hd he

end Matched

theorem Correlated.step (reader : Reader) {s : AdapterState} (h : Correlated s) {op : AdapterOp}
    (hop : Unshared s op) : Correlated (s.apply reader op) := by
  have hm : Matched (s.apply reader op).active (s.apply reader op).calls := by
    cases op with
    | enter c requestId trace uuid perf =>
      simp only [AdapterState.apply]
      split
      · exact h.toMatched
      · exact h.toMatched.enter hop (fun _ he => by cases he) fun _ _ => rfl
      · refine h.toMatched.enter hop (fun entry he => ?_) fun id hne => ?_
        · rw [Dict.get?_set, if_pos rfl]
          exact he
        · rw [Dict.get?_set, if_neg hne]
    | ended c ending =>
      simp only [AdapterState.apply]
      split
      · exact h.toMatched
      · rename_i call hc
        split
        · exact h.toMatched
        · exact h.toMatched.ended hc
    | leave c perf =>
      simp only [AdapterState.apply]
      split
      · exact h.toMatched
      · rename_i call hc
        split
        · exact h.toMatched.leave hc
        · exact h.toMatched
    | finished requestId stat raw uuid perf => exact h.toMatched
  exact { h.toPlaced.step reader op, hm with }

/-- A statistic is added to the live traced call of its id, and to no other. -/
theorem Correlated.delivered (reader : Reader) {s : AdapterState} (h : Correlated s) {c t gen : ℕ}
    {call : Call} (hc : s.calls.get? c = some call) (he : call.entry = some (t, gen))
    {stat : FinishedStat} {count : ℤ} (hs : decodeCount stat = .ok count) (raw : RawStats)
    (uuid : ℕ → String) (perf : ℕ → ℚ) :
    let s' := s.apply reader (.finished call.requestId stat raw uuid perf)
    Delivered stat gen (s.traces t) (s'.traces t) ∧
      (∀ t', t' ≠ t → s'.traces t' = s.traces t') ∧
      ∀ c' call' t' gen', c' ≠ c → s.calls.get? c' = some call' → call'.entry = some (t', gen') →
        (s'.traces t').observations[gen']? = (s.traces t').observations[gen']? := by
  obtain ⟨g, n, hg, hn⟩ := h.placed c call t gen hc he
  have ha := h.listed c call (t, gen) hc he
  simp only [AdapterState.apply, ha, onEntry]
  refine ⟨?_, fun t' ht => Function.update_of_ne ht _ _, ?_⟩
  · rw [Function.update_self]
    exact observedUpdate_delivered reader uuid perf raw hg hs hn
  · intro c' call' t' gen' hne hc' he'
    by_cases ht : t' = t
    · subst ht
      obtain ⟨g', _, hg', _⟩ := h.placed c' call' t' gen' hc' he'
      have hgen : gen' ≠ gen := by
        rintro rfl
        exact hne (h.apart c' c call' call (t', gen') hc' hc he' he)
      rw [Function.update_self,
        observedUpdate_others reader uuid perf raw hgen (List.getElem?_eq_some_iff.mp hg').1 hg]
    · rw [Function.update_of_ne ht]

/-- A statistic of no live traced call changes nothing. -/
theorem Placed.undelivered (reader : Reader) {s : AdapterState} (h : Placed s)
    {requestId : String} (hid : ∀ c call, s.calls.get? c = some call →
      call.requestId = requestId → call.entry = none)
    (stat : FinishedStat) (raw : RawStats) (uuid : ℕ → String) (perf : ℕ → ℚ) :
    (s.apply reader (.finished requestId stat raw uuid perf)).traces = s.traces := by
  cases ha : s.active.get? requestId with
  | none => simp only [AdapterState.apply, ha, onEntry]
  | some entry =>
    obtain ⟨c, call, hc, hr, he⟩ := h.owned requestId entry ha
    rw [hid c call hc hr] at he
    cases he

theorem Placed.active_empty {s : AdapterState} (h : Placed s) (hc : s.calls.keys = []) :
    s.active.keys = [] := by
  refine List.eq_nil_iff_forall_not_mem.mpr fun requestId hk => ?_
  obtain ⟨entry, ha⟩ := Dict.mem_keys_iff.mp hk
  obtain ⟨c, call, hget, _⟩ := h.owned requestId entry ha
  have hmem := Dict.mem_keys_iff.mpr ⟨call, hget⟩
  rw [hc] at hmem
  cases hmem

/-- Before any call. -/
def AdapterState.init (traces : ℕ → RequestTrace) : AdapterState := { traces := traces }

theorem placed_init (traces : ℕ → RequestTrace) : Placed (.init traces) :=
  ⟨fun _ _ _ _ h => (by cases h), fun _ _ _ _ _ h => (by cases h), fun _ _ h => (by cases h)⟩

theorem correlated_init (traces : ℕ → RequestTrace) : Correlated (.init traces) :=
  { placed_init traces with
    unshared := fun _ _ _ _ h => by cases h
    listed := fun _ _ _ h => by cases h }

/-- **Background statistics are correlated** in every run in which no call starts
under the id of a live one. In every state of the run a statistic is added to
exactly the live traced call of its id, changes nothing where there is none, and
`active` is empty when no call is live. -/
theorem statistics_correlated (reader : Reader) (traces : ℕ → RequestTrace)
    (ops : List AdapterOp)
    (h : RunMeets (AdapterState.apply reader) Unshared (.init traces) ops) :
    ∀ pre post, ops = pre ++ post →
      let s := run (AdapterState.apply reader) (.init traces) pre
      (∀ c call t gen stat count raw uuid perf, s.calls.get? c = some call →
        call.entry = some (t, gen) → decodeCount stat = .ok count →
        let s' := s.apply reader (.finished call.requestId stat raw uuid perf)
        Delivered stat gen (s.traces t) (s'.traces t) ∧
          (∀ t', t' ≠ t → s'.traces t' = s.traces t') ∧
          ∀ c' call' t' gen', c' ≠ c → s.calls.get? c' = some call' →
            call'.entry = some (t', gen') →
            (s'.traces t').observations[gen']? = (s.traces t').observations[gen']?) ∧
      (∀ requestId stat raw uuid perf, (∀ c call, s.calls.get? c = some call →
          call.requestId = requestId → call.entry = none) →
        (s.apply reader (.finished requestId stat raw uuid perf)).traces = s.traces) ∧
      (s.calls.keys = [] → s.active.keys = []) := by
  rintro pre post rfl
  have hc : Correlated (run (AdapterState.apply reader) (.init traces) pre) :=
    run_invariant (AdapterState.apply reader) (I := Correlated)
      (fun s op hi hop => Correlated.step reader hi hop) h.append.1 (correlated_init traces)
  refine ⟨?_, ?_, hc.active_empty⟩
  · intro c call t gen stat count raw uuid perf hget he hs
    exact hc.delivered reader hget he hs raw uuid perf
  · intro requestId stat raw uuid perf hid
    exact hc.undelivered reader hid stat raw uuid perf

/-! ## A sample run -/

/-- Reads no text. -/
def noReader : Reader where
  float := fun text => .error (.valueError text)
  int := fun text => .error (.valueError text)
  loads := fun text => .error (.valueError text)

def newTraces : ℕ → RequestTrace := fun _ =>
  { traceId := "t", startedNs := 10, started := 0, rootSpanId := "r" }

def sampleFinished : FinishedStat where
  numPromptTokens := some 5
  numGenerationTokens := some 3
  queuedTime := .float (.fin 3)
  prefillTime := .float (.fin 1)
  decodeTime := .float (.fin 1)

/-- No timestamps, and nothing attached. -/
def noStats : RawStats := ⟨.nan, .nan, .nan, .nan, none, none⟩

/-- An id is used again after its call was cancelled; another call has no trace. -/
def sampleCalls : List AdapterOp := [
  .enter 0 "a" (some 0) "g" 1, .enter 1 "b" none "" 1, .ended 0 .cancelled, .leave 0 2,
  .enter 2 "a" (some 1) "h" 3]

theorem sampleCalls_unshared :
    RunMeets (AdapterState.apply noReader) Unshared (.init newTraces) sampleCalls := by
  refine ⟨fun c call hc => (by cases hc), fun c call hc => ?_, trivial, trivial,
    fun c call hc => ?_, trivial⟩
  · obtain ⟨rfl, rfl⟩ | ⟨_, hc⟩ := Dict.get?_set_some hc
    · decide
    · cases hc
  · -- call 0 has left, so only call 1 is live
    obtain ⟨hne, hc⟩ := Dict.get?_erase_some hc
    obtain ⟨rfl, _⟩ | ⟨_, hc⟩ := Dict.get?_set_some hc
    · exact absurd rfl hne
    · obtain ⟨rfl, rfl⟩ | ⟨_, hc⟩ := Dict.get?_set_some hc
      · decide
      · obtain ⟨rfl, _⟩ | ⟨_, hc⟩ := Dict.get?_set_some hc
        · exact absurd rfl hne
        · cases hc

theorem statistics_correlated_reused :
    let s := run (AdapterState.apply noReader) (.init newTraces) sampleCalls
    let s' := s.apply noReader
      (.finished "a" sampleFinished noStats (fun _ => "o") fun _ => 4)
    Delivered sampleFinished 0 (s.traces 1) (s'.traces 1) ∧ s'.traces 0 = s.traces 0 := by
  have h := (statistics_correlated noReader newTraces sampleCalls sampleCalls_unshared
    sampleCalls [] rfl).1 2 ⟨"a", some (1, 0), false⟩ 1 0 sampleFinished 2 noStats
    (fun _ => "o") (fun _ => 4) (by decide) rfl (by decide)
  exact ⟨h.1, h.2.1 0 (by decide)⟩

end VllmObserver.Adapter
