import VllmObserver.Adapter.Correlation

/-! # A second call of the same id

`active` holds one entry for each id, and a call that leaves its `try` block pops
it whether or not the entry is its own. From then on no other live call of its id
is found: statistics of that id are lost or go to a call that came later. A call
that is closed before its first output, or whose arguments `bind` refuses, never
comes to the block: it takes no step here, and disconnects nobody. -/
namespace VllmObserver.Adapter
open VllmObserver.Lib VllmObserver.Core VllmObserver.Stages

/-- A call of the id that has put its entry into `active` and has not left. -/
structure Living (first t gen : ℕ) (requestId : String) (s : AdapterState) : Prop
    extends Placed s where
  live : ∃ call, s.calls.get? first = some call ∧ call.requestId = requestId ∧
    call.entry = some (t, gen)

/-- `active` does not lead to the call. -/
structure Disconnected (first t gen : ℕ) (requestId : String) (s : AdapterState) : Prop
    extends Living first t gen requestId s where
  missing : s.active.get? requestId ≠ some (t, gen)

/-- Another call of the id is in its `try` block. -/
structure Contested (first t gen : ℕ) (requestId : String) (s : AdapterState) : Prop
    extends Living first t gen requestId s where
  other : ∃ c call, c ≠ first ∧ s.calls.get? c = some call ∧ call.requestId = requestId

/-- No other call of the id is in its `try` block, and `active` leads to the call. -/
structure Connected (first t gen : ℕ) (requestId : String) (s : AdapterState) : Prop
    extends Living first t gen requestId s where
  alone : ∀ c call, s.calls.get? c = some call → call.requestId = requestId → c = first
  listed : s.active.get? requestId = some (t, gen)

/-- A step lets a call of the id into its `try` block. -/
def Enters (requestId : String) (s : AdapterState) : AdapterOp → Prop
  | .enter c id _ _ _ => id = requestId ∧ s.calls.get? c = none
  | _ => False

/-- A step by which another call of the id leaves its `try` block. -/
def Departs (first : ℕ) (requestId : String) (s : AdapterState) : AdapterOp → Prop
  | .leave c _ => c ≠ first ∧
      ∃ call, s.calls.get? c = some call ∧ call.requestId = requestId ∧ call.ended = true
  | _ => False

section Steps
variable {first t gen : ℕ} {requestId : String} {s : AdapterState} {op : AdapterOp}
  (reader : Reader)

/-- Only by its end is a call no longer held. -/
theorem held_step {c : ℕ} {call : Call} (hc : s.calls.get? c = some call)
    (hop : ∀ perf, op ≠ .leave c perf) :
    ∃ call', (s.apply reader op).calls.get? c = some call' ∧
      call'.requestId = call.requestId ∧ call'.entry = call.entry := by
  cases op with
  | enter d id trace uuid perf =>
    simp only [AdapterState.apply]
    split
    · exact ⟨call, hc, rfl, rfl⟩
    all_goals
      rename_i hnew
      have hne : c ≠ d := by
        rintro rfl
        rw [hc] at hnew
        cases hnew
      exact ⟨call, by rw [Dict.get?_set, if_neg hne]; exact hc, rfl, rfl⟩
  | ended d ending =>
    simp only [AdapterState.apply]
    split
    · exact ⟨call, hc, rfl, rfl⟩
    · rename_i old hold
      split
      · exact ⟨call, hc, rfl, rfl⟩
      · by_cases hcd : c = d
        · subst hcd
          obtain rfl := Option.some.inj (hold.symm.trans hc)
          exact ⟨{ old with ended := true }, by rw [Dict.get?_set, if_pos rfl], rfl, rfl⟩
        · exact ⟨call, by rw [Dict.get?_set, if_neg hcd]; exact hc, rfl, rfl⟩
  | leave d perf =>
    have hcd : c ≠ d := fun hcd => hop perf (by rw [hcd])
    simp only [AdapterState.apply]
    split
    · exact ⟨call, hc, rfl, rfl⟩
    · split
      · exact ⟨call, by rw [Dict.get?_erase, if_neg hcd]; exact hc, rfl, rfl⟩
      · exact ⟨call, hc, rfl, rfl⟩
  | finished id stat raw uuid perf => exact ⟨call, hc, rfl, rfl⟩

theorem Living.step (h : Living first t gen requestId s) (hop : ∀ perf, op ≠ .leave first perf) :
    Living first t gen requestId (s.apply reader op) := by
  obtain ⟨call, hc, hr, he⟩ := h.live
  obtain ⟨call', hc', hr', he'⟩ := held_step reader hc hop
  exact { h.toPlaced.step reader op with live := ⟨call', hc', hr'.trans hr, he'.trans he⟩ }

/-- A new generation stands behind that of the call. -/
theorem Living.new_ne (h : Living first t gen requestId s) (t' : ℕ) :
    (t', (s.traces t').observations.length) ≠ (t, gen) := by
  obtain ⟨call, hc, _, he⟩ := h.live
  obtain ⟨g, _, hg, _⟩ := h.placed first call t gen hc he
  intro heq
  obtain ⟨rfl, rfl⟩ := Prod.mk.inj heq
  exact absurd (List.getElem?_eq_some_iff.mp hg).1 (lt_irrefl _)

/-- Nothing but its own end connects it again. -/
theorem Disconnected.step (h : Disconnected first t gen requestId s)
    (hop : ∀ perf, op ≠ .leave first perf) :
    Disconnected first t gen requestId (s.apply reader op) := by
  refine { h.toLiving.step reader hop with missing := ?_ }
  cases op with
  | enter c id trace uuid perf =>
    simp only [AdapterState.apply]
    split
    · exact h.missing
    · exact h.missing
    · simp only [Dict.get?_set]
      split
      · exact fun heq => h.new_ne _ (Option.some.inj heq)
      · exact h.missing
  | ended c ending =>
    simp only [AdapterState.apply]
    split
    · exact h.missing
    · split <;> exact h.missing
  | leave c perf =>
    simp only [AdapterState.apply]
    split
    · exact h.missing
    · split
      · rw [Dict.get?_erase]
        split
        · exact fun h => by cases h
        · exact h.missing
      · exact h.missing
  | finished id stat raw uuid perf => exact h.missing

/-- Another call that leaves disconnects this one. -/
theorem Living.disconnected (h : Living first t gen requestId s)
    (hleaves : Departs first requestId s op) :
    Disconnected first t gen requestId (s.apply reader op) := by
  cases op with
  | leave c perf =>
    obtain ⟨hne, call, hc, hr, hended⟩ := hleaves
    have hop : ∀ perf', AdapterOp.leave c perf ≠ .leave first perf' :=
      fun perf' he => hne (AdapterOp.leave.inj he).1
    refine { h.step reader hop with missing := ?_ }
    simp only [AdapterState.apply, hc, hended, if_true]
    rw [Dict.get?_erase, if_pos hr.symm]
    exact fun h => by cases h
  | enter => cases hleaves
  | ended => cases hleaves
  | finished => cases hleaves

/-- Another call of the id leaves only by disconnecting this one. -/
theorem Contested.step (h : Contested first t gen requestId s)
    (hop : ∀ perf, op ≠ .leave first perf) :
    Contested first t gen requestId (s.apply reader op) ∨
      Disconnected first t gen requestId (s.apply reader op) := by
  obtain ⟨other, call, hne, hc, hr⟩ := h.other
  have hstays : (∀ perf, op ≠ .leave other perf) →
      Contested first t gen requestId (s.apply reader op) := by
    intro hother
    obtain ⟨call', hc', hr', _⟩ := held_step reader hc hother
    exact { h.toLiving.step reader hop with other := ⟨other, call', hne, hc', hr'.trans hr⟩ }
  cases op with
  | leave c perf =>
    by_cases hco : c = other
    · subst hco
      cases hended : call.ended with
      | false =>
        have hsame : s.apply reader (.leave c perf) = s := by
          simp only [AdapterState.apply, hc, hended, Bool.false_eq_true, if_false]
        exact .inl (hsame.symm ▸ h)
      | true => exact .inr (h.toLiving.disconnected reader ⟨hne, call, hc, hr, hended⟩)
    · exact .inl (hstays fun perf he => hco (AdapterOp.leave.inj he).1)
  | enter => exact .inl (hstays fun _ he => by cases he)
  | ended => exact .inl (hstays fun _ he => by cases he)
  | finished => exact .inl (hstays fun _ he => by cases he)

/-- A call of the id enters. -/
theorem Living.contested (h : Living first t gen requestId s) (hop : ∀ perf, op ≠ .leave first perf)
    (henters : Enters requestId s op) : Contested first t gen requestId (s.apply reader op) := by
  refine { h.step reader hop with other := ?_ }
  obtain ⟨call, hc, _⟩ := h.live
  cases op with
  | enter c id trace uuid perf =>
    obtain ⟨rfl, hnew⟩ := henters
    have hne : c ≠ first := by
      rintro rfl
      rw [hc] at hnew
      cases hnew
    simp only [AdapterState.apply, hnew]
    cases trace with
    | none => exact ⟨c, _, hne, by rw [Dict.get?_set, if_pos rfl], rfl⟩
    | some t' => exact ⟨c, _, hne, by rw [Dict.get?_set, if_pos rfl], rfl⟩
  | ended => cases henters
  | leave => cases henters
  | finished => cases henters

/-- As long as no other call of the id enters, the call stays connected. -/
theorem Connected.step (h : Connected first t gen requestId s)
    (hop : ∀ perf, op ≠ .leave first perf) (hno : ¬ Enters requestId s op) :
    Connected first t gen requestId (s.apply reader op) := by
  have hliving := h.toLiving.step reader hop
  cases op with
  | enter c id trace uuid perf =>
    cases hnew : s.calls.get? c with
    | some call =>
      have hsame : s.apply reader (.enter c id trace uuid perf) = s := by
        simp only [AdapterState.apply, hnew]
      exact hsame.symm ▸ h
    | none =>
      have hid : id ≠ requestId := fun hid => hno ⟨hid, hnew⟩
      refine { hliving with alone := fun d call hd hr => ?_, listed := ?_ }
      · simp only [AdapterState.apply, hnew] at hd
        cases trace with
        | none =>
          rcases Dict.get?_set_some hd with ⟨_, rfl⟩ | ⟨_, hd⟩
          · exact absurd hr hid
          · exact h.alone d call hd hr
        | some t' =>
          rcases Dict.get?_set_some hd with ⟨_, rfl⟩ | ⟨_, hd⟩
          · exact absurd hr hid
          · exact h.alone d call hd hr
      · simp only [AdapterState.apply, hnew]
        cases trace with
        | none => exact h.listed
        | some t' => exact (Dict.get?_set ..).trans ((if_neg (Ne.symm hid)).trans h.listed)
  | ended c ending =>
    simp only [AdapterState.apply] at hliving ⊢
    split at hliving
    · exact h
    · rename_i old hold
      split at hliving
      · rename_i hended
        rw [if_pos hended]
        exact h
      · rename_i hended
        rw [if_neg hended]
        refine { hliving with alone := fun d call hd hr => ?_, listed := h.listed }
        obtain ⟨before, hbefore, hid, _⟩ := get?_ended hold hd
        exact h.alone d before hbefore (hid.trans hr)
  | leave c perf =>
    simp only [AdapterState.apply] at hliving ⊢
    split at hliving
    · exact h
    · rename_i old hold
      split at hliving
      · rename_i hended
        have hid : requestId ≠ old.requestId := fun hid =>
          hop perf (by rw [h.alone c old hold hid.symm])
        rw [if_pos hended]
        refine { hliving with alone := fun d call hd hr => ?_, listed := ?_ }
        · exact h.alone d call (Dict.get?_erase_some hd).2 hr
        · exact (Dict.get?_erase ..).trans ((if_neg hid).trans h.listed)
      · rename_i hended
        rw [if_neg hended]
        exact h
  | finished id stat raw uuid perf => exact { hliving with alone := h.alone, listed := h.listed }

/-- The statistics of its id do not reach it. -/
theorem Disconnected.not_delivered (h : Disconnected first t gen requestId s)
    (stat : FinishedStat) (raw : RawStats) (uuid : ℕ → String) (perf : ℕ → ℚ) :
    ¬ Delivered stat gen (s.traces t)
      ((s.apply reader (.finished requestId stat raw uuid perf)).traces t) := by
  intro hd
  -- its generation would count one more sequence
  obtain ⟨g, g', n, hg, hg', _, _, hn, hn', _⟩ := hd.generation
  have hsame : ((s.apply reader (.finished requestId stat raw uuid perf)).traces
      t).observations[gen]? = (s.traces t).observations[gen]? := by
    simp only [AdapterState.apply]
    cases ha : s.active.get? requestId with
    | none => rfl
    | some entry =>
      obtain ⟨t', gen'⟩ := entry
      obtain ⟨c, call, hc, _, he⟩ := h.owned requestId (t', gen') ha
      obtain ⟨g₁, _, hg₁, _⟩ := h.placed c call t' gen' hc he
      by_cases ht : t = t'
      · subst ht
        have hgen : gen ≠ gen' := by
          rintro rfl
          exact h.missing ha
        simp only [onEntry, Function.update_self]
        have hlt := (List.getElem?_eq_some_iff.mp hg).1
        exact observedUpdate_others reader uuid perf raw hgen hlt hg₁
      · simp only [onEntry, Function.update_of_ne ht]
  rw [hsame, hg] at hg'
  obtain rfl := Option.some.inj hg'
  rw [hn] at hn'
  simp only [Json.int, Json.num.injEq, Number.int.injEq] at hn'
  omega

theorem Connected.delivered (h : Connected first t gen requestId s) {stat : FinishedStat}
    {count : ℤ} (hs : decodeCount stat = .ok count) (raw : RawStats) (uuid : ℕ → String)
    (perf : ℕ → ℚ) : Delivered stat gen (s.traces t)
      ((s.apply reader (.finished requestId stat raw uuid perf)).traces t) := by
  obtain ⟨call, hc, _, he⟩ := h.live
  obtain ⟨g, n, hg, hn⟩ := h.placed first call t gen hc he
  simp only [AdapterState.apply, h.listed, onEntry, Function.update_self]
  exact observedUpdate_delivered reader uuid perf raw hg hs hn

end Steps

/-! ## Runs behind the entry of a call -/

section Runs
variable {first t gen : ℕ} {requestId : String} {s : AdapterState} (reader : Reader)

/-- Once contested, the call is disconnected when the others have ended. -/
theorem contested_run {ops : List AdapterOp} (hlive : ∀ op ∈ ops, ∀ perf, op ≠ .leave first perf)
    (h : Contested first t gen requestId s ∨ Disconnected first t gen requestId s) :
    Contested first t gen requestId (run (AdapterState.apply reader) s ops) ∨
      Disconnected first t gen requestId (run (AdapterState.apply reader) s ops) :=
  run_invariant (AdapterState.apply reader)
    (I := fun s => Contested first t gen requestId s ∨ Disconnected first t gen requestId s)
    (fun _ _ hi hop => hi.elim (fun hc => hc.step reader hop) fun hd => .inr (hd.step reader hop))
    (RunMeets.of_forall _ _ hlive) h

/-- A run keeps the call connected, or lets another call of the id enter. -/
theorem connected_run : ∀ {ops : List AdapterOp} {s : AdapterState},
    (∀ op ∈ ops, ∀ perf, op ≠ .leave first perf) → Connected first t gen requestId s →
    RunMeets (AdapterState.apply reader) (fun s op => ¬ Enters requestId s op) s ops ∧
        Connected first t gen requestId (run (AdapterState.apply reader) s ops) ∨
      ¬ RunMeets (AdapterState.apply reader) (fun s op => ¬ Enters requestId s op) s ops ∧
        (Contested first t gen requestId (run (AdapterState.apply reader) s ops) ∨
          Disconnected first t gen requestId (run (AdapterState.apply reader) s ops))
  | [], _, _, h => .inl ⟨trivial, h⟩
  | op :: rest, s, hlive, h => by
    have hop := hlive op List.mem_cons_self
    have hrest := fun o ho => hlive o (List.mem_cons_of_mem op ho)
    by_cases henters : Enters requestId s op
    · refine .inr ⟨fun hmeets => hmeets.1 henters, ?_⟩
      rw [run_cons]
      exact contested_run reader hrest (.inl (h.toLiving.contested reader hop henters))
    · rcases connected_run hrest (h.step reader hop henters) with ⟨hmeets, hend⟩ | ⟨hnot, hend⟩
      · exact .inl ⟨⟨henters, hmeets⟩, hend⟩
      · exact .inr ⟨fun hmeets => hnot hmeets.2, hend⟩

/-- A traced call enters: it is the only one of its id in the `try` block, or not. -/
theorem living_enter (requestId : String) (t : ℕ) (h : Placed s)
    (hnew : s.calls.get? first = none) (uuid : String) (perf : ℚ) :
    let start := s.apply reader (.enter first requestId (some t) uuid perf)
    Living first t (s.traces t).observations.length requestId start ∧
      start.active.get? requestId = some (t, (s.traces t).observations.length) ∧
      ∀ c call, c ≠ first → (start.calls.get? c = some call ↔ s.calls.get? c = some call) := by
  intro start
  have hstart : start = s.apply reader (.enter first requestId (some t) uuid perf) := rfl
  have hplaced : Placed start := h.step reader _
  simp only [AdapterState.apply, hnew] at hstart
  rw [hstart] at hplaced ⊢
  refine ⟨{ hplaced with live := ⟨_, by rw [Dict.get?_set, if_pos rfl], rfl, rfl⟩ }, ?_, ?_⟩
  · rw [Dict.get?_set, if_pos rfl]
  · intro c call hne
    rw [Dict.get?_set, if_neg hne]

/-- Where another call leaves its `try` block, it was in it at first or entered. -/
theorem Connected.not_leaves {mid : List AdapterOp} {op : AdapterOp} {rest : List AdapterOp}
    (h : Connected first t gen requestId s)
    (hlive : ∀ o ∈ mid ++ op :: rest, ∀ perf, o ≠ .leave first perf)
    (hmeets : RunMeets (AdapterState.apply reader) (fun s op => ¬ Enters requestId s op) s
      (mid ++ op :: rest)) :
    ¬ Departs first requestId (run (AdapterState.apply reader) s mid) op := by
  intro hleaves
  have hmid := fun o ho => hlive o (List.mem_append_left _ ho)
  rcases connected_run reader hmid h with ⟨_, hc⟩ | ⟨hnot, _⟩
  · cases op with
    | leave c perf =>
      obtain ⟨hne, call, hcall, hr, _⟩ := hleaves
      exact hne (hc.alone c call hcall hr)
    | enter => cases hleaves
    | ended => cases hleaves
    | finished => cases hleaves
  · exact hnot (RunMeets.append _ hmeets).1

/-- A call that another one leaves behind stays disconnected. -/
theorem Living.disconnected_run {mid : List AdapterOp} {op : AdapterOp} {rest : List AdapterOp}
    (h : Living first t gen requestId s)
    (hlive : ∀ o ∈ mid ++ op :: rest, ∀ perf, o ≠ .leave first perf)
    (hleaves : Departs first requestId (run (AdapterState.apply reader) s mid) op) :
    Disconnected first t gen requestId
      (run (AdapterState.apply reader) s (mid ++ op :: rest)) := by
  have hmid : Living first t gen requestId (run (AdapterState.apply reader) s mid) :=
    run_invariant (AdapterState.apply reader) (I := Living first t gen requestId)
      (fun _ _ hi hop => hi.step reader hop)
      (RunMeets.of_forall _ _ fun o ho => hlive o (List.mem_append_left _ ho)) h
  rw [run_append, run_cons]
  exact run_invariant (AdapterState.apply reader) (I := Disconnected first t gen requestId)
    (fun _ _ hi hop => hi.step reader hop)
    (RunMeets.of_forall _ _ fun o ho =>
      hlive o (List.mem_append_right _ (List.mem_cons_of_mem op ho)))
    (hmid.disconnected reader hleaves)

end Runs

/-- **A call is disconnected exactly by another one that has come to its `try`
block.** In every run of a live traced call, once another call of its id has left
the block, or while none stands in it, a statistic of the id is added to the
call's trace and generation if and only if no other call of the id stood in the
block when the call came, or came to it later. -/
theorem second_call_disconnects_iff (reader : Reader) (traces : ℕ → RequestTrace)
    (pre post : List AdapterOp) (first t : ℕ) (requestId uuid : String) (perf : ℚ)
    (hnew : (run (AdapterState.apply reader) (.init traces) pre).calls.get? first = none)
    (hlive : ∀ op ∈ post, ∀ perf, op ≠ .leave first perf)
    (hended : (∃ mid op rest, post = mid ++ op :: rest ∧ Departs first requestId
        (run (AdapterState.apply reader) (.init traces)
          (pre ++ .enter first requestId (some t) uuid perf :: mid)) op) ∨
      ∀ c call, c ≠ first → (run (AdapterState.apply reader) (.init traces)
        (pre ++ .enter first requestId (some t) uuid perf :: post)).calls.get? c = some call →
          call.requestId ≠ requestId) :
    let before := run (AdapterState.apply reader) (.init traces) pre
    let start := before.apply reader (.enter first requestId (some t) uuid perf)
    let s := run (AdapterState.apply reader) start post
    ∀ stat count raw uuid perf, decodeCount stat = .ok count →
      (Delivered stat (before.traces t).observations.length (s.traces t)
          ((s.apply reader (.finished requestId stat raw uuid perf)).traces t) ↔
        (∀ c call, before.calls.get? c = some call → call.requestId ≠ requestId) ∧
          RunMeets (AdapterState.apply reader) (fun s op => ¬ Enters requestId s op) start
            post) := by
  intro before start s stat count raw uuid' perf' hs
  have hplaced : Placed before :=
    run_invariant_all (AdapterState.apply reader) (I := Placed)
      (fun s op hi => Placed.step reader hi op) (placed_init traces)
  obtain ⟨hliving, hactive, hothers⟩ :=
    living_enter reader requestId t hplaced hnew uuid perf
  have hconnected (hbefore : ∀ c call, before.calls.get? c = some call →
      call.requestId ≠ requestId) :
      Connected first t (before.traces t).observations.length requestId start := by
    refine { hliving with alone := fun c call hc hr => ?_, listed := hactive }
    by_contra hne
    exact hbefore c call ((hothers c call hne).mp hc) hr
  rcases hended with ⟨mid, op, rest, rfl, hleaves⟩ | hended
  · rw [run_append, run_cons] at hleaves
    have hd := hliving.disconnected_run reader hlive hleaves
    exact iff_of_false (hd.not_delivered reader stat raw uuid' perf')
      fun ⟨hbefore, hmeets⟩ => (hconnected hbefore).not_leaves reader hlive hmeets hleaves
  have hend : ∀ c call, c ≠ first → s.calls.get? c = some call → call.requestId ≠ requestId := by
    rw [run_append, run_cons] at hended
    exact hended
  -- a call of the id that is still in its block is none that has ended
  have hgone : Contested first t (before.traces t).observations.length requestId s ∨
      Disconnected first t (before.traces t).observations.length requestId s →
      Disconnected first t (before.traces t).observations.length requestId s := by
    rintro (hc | hd)
    · obtain ⟨c, call, hne, hcall, hr⟩ := hc.other
      exact absurd hr (hend c call hne hcall)
    · exact hd
  by_cases hbefore : ∀ c call, before.calls.get? c = some call → call.requestId ≠ requestId
  · rcases connected_run reader hlive (hconnected hbefore) with ⟨hmeets, hc⟩ | ⟨hnot, hd⟩
    · exact iff_of_true (hc.delivered reader hs raw uuid' perf') ⟨hbefore, hmeets⟩
    · exact iff_of_false ((hgone hd).not_delivered reader stat raw uuid' perf')
        fun h => hnot h.2
  · have hcontested : Contested first t (before.traces t).observations.length requestId start := by
      simp only [not_forall, not_not] at hbefore
      obtain ⟨c, call, hc, hr⟩ := hbefore
      have hne : c ≠ first := by
        rintro rfl
        rw [hnew] at hc
        cases hc
      exact { hliving with other := ⟨c, call, hne, (hothers c call hne).mpr hc, hr⟩ }
    have hd := hgone (contested_run reader hlive (.inl hcontested))
    exact iff_of_false (hd.not_delivered reader stat raw uuid' perf') fun h => hbefore h.1

/-- An untraced duplicate of a live call is rejected. -/
theorem second_call_disconnects_iff_rejected :
    let post : List AdapterOp := [.enter 1 "a" none "" 2, .ended 1 .error, .leave 1 3]
    let start := (AdapterState.init newTraces).apply noReader (.enter 0 "a" (some 0) "g" 1)
    let s := run (AdapterState.apply noReader) start post
    Delivered sampleFinished 0 (s.traces 0) ((s.apply noReader
        (.finished "a" sampleFinished noStats (fun _ => "o") fun _ => 4)).traces 0) ↔
      (∀ c call, (AdapterState.init newTraces).calls.get? c = some call → call.requestId ≠ "a") ∧
        RunMeets (AdapterState.apply noReader) (fun s op => ¬ Enters "a" s op) start post := by
  intro post start s
  have hended : ∀ c call, c ≠ 0 → s.calls.get? c = some call → call.requestId ≠ "a" := by
    intro c call hne hc
    obtain ⟨rfl, _⟩ | ⟨_, hc⟩ := Dict.get?_set_some
      (show (Dict.empty.set 0 ⟨"a", some (0, 0), false⟩ : Dict ℕ Call).get? c = some call from hc)
    · exact absurd rfl hne
    · cases hc
  exact second_call_disconnects_iff noReader newTraces [] post 0 0 "a" "g" 1 rfl
    (fun op hop perf => by
      simp only [post, List.mem_cons, List.not_mem_nil, or_false] at hop
      rcases hop with rfl | rfl | rfl <;> simp)
    (.inr hended) sampleFinished 2 noStats (fun _ => "o") (fun _ => 4) (by decide)

/-- The statistic of the live call is lost. -/
theorem second_call_loses_statistic :
    let s := run (AdapterState.apply noReader) (.init newTraces)
      [.enter 0 "a" (some 0) "g" 1, .enter 1 "a" none "" 2, .ended 1 .error, .leave 1 3]
    let s' := s.apply noReader (.finished "a" sampleFinished noStats (fun _ => "o") fun _ => 4)
    s.calls.get? 0 = some ⟨"a", some (0, 0), false⟩ ∧ (s'.traces 0).engineRequests = 0 ∧
      ¬ Delivered sampleFinished 0 (s.traces 0) (s'.traces 0) := by
  refine ⟨by decide, by decide, fun h => ?_⟩
  have hcount := h.engineRequests
  revert hcount
  decide

end VllmObserver.Adapter
