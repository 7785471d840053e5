import VllmObserver.Adapter.GenerateCalls

/-! # The generation of a call

The recorders never touch the status or the end of a generation: these are set by
the notes of its own call alone. So a generation is open exactly while its call
runs, and bears the status that the call ended in. -/
namespace VllmObserver.Adapter
open VllmObserver.Lib VllmObserver.Core VllmObserver.Stages

/-! ## What the recorders leave alone -/

/-- A change of a node that leaves its status, its end and its id. -/
def Modest (f : Node → Node) : Prop :=
  ∀ g, (f g).metadata.get? "status" = g.metadata.get? "status" ∧ (f g).endNs = g.endNs ∧
    (f g).id = g.id

/-- It is kept by all that the recorders do to a trace. -/
structure Steady (P : RequestTrace → Prop) : Prop where
  modify : ∀ trace gen f, Modest f → P trace →
    P { trace with observations := trace.observations.modify gen f }
  append : ∀ trace o, P trace → P { trace with observations := trace.observations ++ [o] }
  sums : ∀ trace requests stages, P trace →
    P { trace with engineRequests := requests, stages := stages }

theorem modest_withMetadata {entries : List (String × Json)}
    (h : "status" ∉ entries.map Prod.fst) : Modest (withMetadata entries) := fun _ =>
  ⟨Dict.get?_update_of_not_mem h _, rfl, rfl⟩

section Steady
variable {P : RequestTrace → Prop} {reader : Reader} {uuid : ℕ → String} {perf : ℕ → ℚ} {gen : ℕ}

theorem Steady.setMetadata (hP : Steady P) {entries : List (String × Json)}
    (h : "status" ∉ entries.map Prod.fst) : Leaves P P (setMetadata gen entries) := fun trace =>
  hP.modify trace gen _ (modest_withMetadata h)

/-- A mark of one key. -/
theorem Steady.mark (hP : Steady P) {key : String} {value : Json} (h : "status" ≠ key) :
    Leaves P P (Stages.setMetadata gen [(key, value)]) :=
  hP.setMetadata (by simpa using h)

theorem Steady.interval (hP : Steady P) (uuid name : String) (a b : ℤ) (metadata : Metadata) :
    Leaves P P (.interval uuid gen name a b metadata) := by
  intro trace h
  unfold Recording.interval
  split
  · exact h
  · unfold RequestTrace.interval
    split
    · rename_i trace' heq
      split at heq
      · cases heq
      · cases heq
        exact hP.append trace _ h
    · exact h

theorem Steady.addValues (hP : Steady P) (stage : String) (duration count : Json) :
    Leaves P P (addValues stage duration count) := by
  intro trace h
  unfold Stages.addValues
  split
  · exact h
  · split
    · exact hP.sums trace _ _ h
    · exact hP.sums trace _ _ h

theorem Steady.recordTimeline (hP : Steady P) (stat : FinishedStat) (raw : RawStats) :
    Leaves P P (recordTimeline reader uuid perf gen stat raw) := by
  have hmark : ∀ value, Leaves P P (Stages.setMetadata gen [("timeline_unavailable", value)]) :=
    fun _ => hP.mark (by decide)
  have hstage : ∀ clock sequence i name repetitions a b,
      Leaves P P (recordStage reader uuid gen clock sequence i name repetitions a b) :=
    fun _ _ _ _ _ _ _ => .given fun _ => .given fun _ => hP.interval _ _ _ _ _
  refine Leaves.then (fun trace => hP.modify trace gen _ fun _ => ⟨rfl, rfl, rfl⟩) fun trace h => ?_
  split
  · exact h
  · refine Leaves.given (fun n => (hP.mark (by decide)).then ?_) trace h
    split
    · exact hmark _
    · refine .given fun mono => .given fun wall => ?_
      split
      · refine .given fun stamps => ?_
        split
        · refine leaves_ifWithin ?_ (hmark _)
          exact Leaves.then (fun trace => hP.modify trace gen _ fun _ => ⟨rfl, rfl, rfl⟩) <|
            .given fun count =>
              (hstage _ _ _ _ _ _ _).then <| (hstage _ _ _ _ _ _ _).then (hstage _ _ _ _ _ _ _)
        · exact hmark _
      · exact hmark _

theorem Steady.recordExecute (hP : Steady P) (clock : Dict String String) (error : ℤ)
    (stages : List (String × Json)) :
    Leaves P P (recordExecute reader uuid perf gen clock error stages) := by
  have hskip : ∀ e, Leaves P P (if clockErrors e then
      Stages.setMetadata gen [("execute_interval_unavailable", .str "invalid_calibration_clock")]
      else .raise e) := by
    intro e
    split
    · exact hP.mark (by decide)
    · exact Leaves.raise e
  unfold Stages.recordExecute
  simp only
  split
  · split
    · exact leaves_ifWithin (hP.interval _ _ _ _ _) Leaves.done
    · exact hskip _
    · exact hskip _
  · exact Leaves.done

theorem Steady.recordWaiting (hP : Steady P) (clock : Dict String String)
    (stages : List (String × Json)) :
    Leaves P P (recordWaiting reader uuid perf gen clock stages) := by
  unfold Stages.recordWaiting
  split
  · split
    · exact hP.mark (by decide)
    · exact Leaves.raise _
  · exact .given fun startNs => .given fun endNs =>
      leaves_ifWithin ((hP.interval _ _ _ _ _).then (hP.recordExecute _ _ _))
        (hP.mark (by decide))

theorem Steady.recordEngineStages (hP : Steady P) (raw : RawStats) :
    Leaves P P (recordEngineStages reader uuid perf gen raw) := by
  unfold Stages.recordEngineStages
  split
  · exact Leaves.done
  · split
    · exact Leaves.done
    · split
      · refine (hP.setMetadata (by simp)).then <| (hP.addValues _ _ _).then <|
          (hP.addValues _ _ _).then ?_
        split
        · exact hP.mark (by decide)
        · refine .given fun finite => ?_
          split
          · exact hP.recordWaiting _ _
          · exact hP.mark (by decide)
      · exact Leaves.raise _
      · exact Leaves.done
      · exact Leaves.done
      · exact Leaves.raise _

/-- **The recorders leave it alone.** -/
theorem Steady.observedUpdate (hP : Steady P) (stat : FinishedStat) (raw : RawStats)
    (trace : RequestTrace) (h : P trace) :
    P (observedUpdate reader uuid perf gen stat raw trace) := by
  have hadd : ∀ duration count,
      Leaves P P fun trace => (trace.add "decode" duration count, .ok ()) :=
    fun _ _ trace => hP.sums trace _ _
  refine Leaves.given (fun count => (hadd _ _).then <|
    (hP.recordTimeline stat raw).then (hP.recordEngineStages raw)) _ ?_
  exact hP.sums trace _ _ h

end Steady

/-! ## The node of a call -/

/-- How the node of a generation looks behind the notes of its call. -/
def Shown (notes : List Note) (g : Node) : Prop :=
  match notes with
  | [.begun] => g.metadata.get? "status" = none ∧ g.endNs = none
  | [.begun, .ended ending] =>
    g.metadata.get? "status" = ending.status?.map Json.str ∧ g.endNs = none
  | [.begun, .ended ending, .left] =>
    g.metadata.get? "status" = ending.status?.map Json.str ∧ g.endNs ≠ none
  | _ => False

theorem Shown.congr {notes : List Note} {g g' : Node} (h : Shown notes g)
    (hstatus : g'.metadata.get? "status" = g.metadata.get? "status") (hend : g'.endNs = g.endNs) :
    Shown notes g' := by
  unfold Shown at h ⊢
  rw [hstatus, hend]
  exact h

/-- The node at a position of the observations, under its id. -/
def NodeAt (gen : ℕ) (id : String) (notes : List Note) (trace : RequestTrace) : Prop :=
  ∃ g, trace.observations[gen]? = some g ∧ g.id = id ∧ Shown notes g

section NodeAt
variable {gen gen' : ℕ} {id : String} {notes : List Note} {trace : RequestTrace}

theorem NodeAt.lt (h : NodeAt gen id notes trace) : gen < trace.observations.length :=
  let ⟨_, hg, _⟩ := h
  (List.getElem?_eq_some_iff.mp hg).1

theorem NodeAt.append (h : NodeAt gen id notes trace) (o : Node) :
    NodeAt gen id notes { trace with observations := trace.observations ++ [o] } := by
  obtain ⟨g, hg, hrest⟩ := h
  exact ⟨g, by rw [List.getElem?_append_left (List.getElem?_eq_some_iff.mp hg).1]; exact hg, hrest⟩

/-- A change of another node. -/
theorem NodeAt.modify_ne (h : NodeAt gen id notes trace) (hne : gen' ≠ gen) (f : Node → Node) :
    NodeAt gen id notes { trace with observations := trace.observations.modify gen' f } := by
  obtain ⟨g, hg, hrest⟩ := h
  exact ⟨g, by rw [List.getElem?_modify_ne _ _ hne]; exact hg, hrest⟩

/-- A change of the node itself. -/
theorem NodeAt.modify_eq {notes' : List Note} (h : NodeAt gen id notes trace) {f : Node → Node}
    (hid : ∀ g, (f g).id = g.id) (hf : ∀ g, Shown notes g → Shown notes' (f g)) :
    NodeAt gen id notes' { trace with observations := trace.observations.modify gen f } := by
  obtain ⟨g, hg, hid', hshown⟩ := h
  refine ⟨f g, ?_, (hid g).trans hid', hf g hshown⟩
  rw [List.getElem?_modify_eq, hg]
  rfl

theorem steady_nodeAt (gen : ℕ) (id : String) (notes : List Note) :
    Steady (NodeAt gen id notes) where
  modify trace gen' f hf h := by
    by_cases hgen : gen' = gen
    · subst hgen
      exact h.modify_eq (fun g => (hf g).2.2) fun g hg => hg.congr (hf g).1 (hf g).2.1
    · exact h.modify_ne hgen f
  append trace o h := h.append o
  sums trace requests stages h := h

end NodeAt

/-- A traced call `c` has made the notes on its generation at `gen` of trace `t`,
which is that of no other live call. -/
structure Owns (c t gen : ℕ) (id : String) (notes : List Note) (s : AdapterState) : Prop
    extends Placed s where
  entry : ∀ call, s.calls.get? c = some call → call.entry = some (t, gen)
  others : ∀ d call, d ≠ c → s.calls.get? d = some call → call.entry ≠ some (t, gen)
  node : NodeAt gen id notes (s.traces t)

section Owns
variable {reader : Reader} {c t gen : ℕ} {id : String} {notes : List Note} {s : AdapterState}

/-- The trace of an entry changes. -/
theorem nodeAt_onEntry {traces : ℕ → RequestTrace} {entry : Option (ℕ × ℕ)}
    {f : ℕ → RequestTrace → RequestTrace} (h : NodeAt gen id notes (traces t))
    (hf : ∀ gen', entry = some (t, gen') → NodeAt gen id notes (f gen' (traces t))) :
    NodeAt gen id notes (onEntry traces entry f t) := by
  unfold onEntry
  split
  · exact h
  · rename_i t' gen'
    by_cases ht : t = t'
    · subst ht
      rw [Function.update_self]
      exact hf gen' rfl
    · rw [Function.update_of_ne ht]
      exact h

theorem nodeAt_noteStatus (h : NodeAt gen id notes (s.traces t)) {gen' : ℕ} (hne : gen' ≠ gen)
    (ending : Ending) : NodeAt gen id notes (noteStatus ending gen' (s.traces t)) := by
  unfold noteStatus
  split
  · exact h
  · exact h.modify_ne hne _

/-- The call that an operation belongs to. -/
def AdapterOp.call? : AdapterOp → Option ℕ
  | .enter c .. | .ended c _ | .leave c _ => some c
  | .finished .. => none

/-- Other calls and statistics do not change what the call has noted. -/
theorem Owns.other (h : Owns c t gen id notes s) {op : AdapterOp} (hop : op.call? ≠ some c) :
    Owns c t gen id notes (s.apply reader op) := by
  have hplaced := h.toPlaced.step reader op
  cases op with
  | enter d requestId trace uuid perf =>
    have hd : c ≠ d := fun he => hop (he ▸ rfl)
    simp only [AdapterState.apply] at hplaced ⊢
    split at hplaced
    · exact h
    · refine { hplaced with entry := fun call hc => ?_, others := fun e call he hget => ?_,
                            node := h.node }
      · rw [Dict.get?_set, if_neg hd] at hc
        exact h.entry call hc
      · rcases Dict.get?_set_some hget with ⟨_, rfl⟩ | ⟨_, hget⟩
        · exact fun hne => by cases hne
        · exact h.others e call he hget
    · rename_i t' hnew
      refine { hplaced with entry := fun call hc => ?_, others := fun e call he hget => ?_,
                            node := ?_ }
      · rw [Dict.get?_set, if_neg hd] at hc
        exact h.entry call hc
      · rcases Dict.get?_set_some hget with ⟨_, rfl⟩ | ⟨_, hget⟩
        · -- the new generation stands behind that of the call
          intro hsame
          obtain ⟨rfl, hlength⟩ := Prod.mk.inj (Option.some.inj hsame)
          exact absurd h.node.lt (by omega)
        · exact h.others e call he hget
      · show NodeAt gen id notes (Function.update s.traces t' _ t)
        by_cases ht : t = t'
        · subst ht
          rw [Function.update_self]
          exact h.node.append _
        · rw [Function.update_of_ne ht]
          exact h.node
  | ended d ending =>
    have hd : c ≠ d := fun he => hop (he ▸ rfl)
    simp only [AdapterState.apply] at hplaced ⊢
    split at hplaced
    · exact h
    · rename_i old hold
      split at hplaced
      · rename_i hended
        rw [if_pos hended]
        exact h
      · rename_i hended
        rw [if_neg hended]
        refine { hplaced with entry := fun call hc => ?_, others := fun e call he hget => ?_,
                              node := ?_ }
        · rw [Dict.get?_set, if_neg hd] at hc
          exact h.entry call hc
        · obtain ⟨before, hbefore, _, hentry⟩ := get?_ended hold hget
          exact hentry ▸ h.others e before he hbefore
        · refine nodeAt_onEntry h.node fun gen' he => nodeAt_noteStatus h.node ?_ ending
          rintro rfl
          exact h.others d old (Ne.symm hd) hold he
  | leave d perf =>
    have hd : c ≠ d := fun he => hop (he ▸ rfl)
    simp only [AdapterState.apply] at hplaced ⊢
    split at hplaced
    · exact h
    · rename_i old hold
      split at hplaced
      · rename_i hended
        rw [if_pos hended]
        refine { hplaced with entry := fun call hc => ?_, others := fun e call he hget => ?_,
                              node := ?_ }
        · exact h.entry call (Dict.get?_erase_some hc).2
        · exact h.others e call he (Dict.get?_erase_some hget).2
        · refine nodeAt_onEntry h.node fun gen' he => h.node.modify_ne ?_ _
          rintro rfl
          exact h.others d old (Ne.symm hd) hold he
      · rename_i hended
        rw [if_neg hended]
        exact h
  | finished requestId stat raw uuid perf =>
    refine { hplaced with entry := h.entry, others := h.others, node := ?_ }
    exact nodeAt_onEntry h.node fun gen' _ =>
      (steady_nodeAt gen id notes).observedUpdate stat raw _ h.node

/-- The call itself makes its next note. -/
theorem Owns.note (h : Owns c t gen id notes s) (hheld : HeldCall notes (s.calls.get? c))
    {call : GenerateCall} {uuid : String} {opened closed : ℚ} {note : Note}
    (hn : InOrder (notes ++ [note])) (hbegun : notes ≠ []) :
    Owns c t gen id (notes ++ [note])
      (s.apply reader (note.op c call uuid opened closed)) := by
  have hplaced := h.toPlaced.step reader (note.op c call uuid opened closed)
  rcases hn.next with ⟨rfl, _⟩ | ⟨ending, rfl, rfl⟩ | ⟨ending, rfl, rfl⟩
  · exact absurd rfl hbegun
  · obtain ⟨old, hold, hended⟩ := hheld
    have hentry := h.entry old hold
    simp only [Note.op, AdapterState.apply, hold, hended, Bool.false_eq_true, if_false] at hplaced ⊢
    refine { hplaced with entry := fun call hc => ?_, others := fun e call he hget => ?_,
                          node := ?_ }
    · obtain ⟨before, hbefore, _, he⟩ := get?_ended hold hc
      exact he ▸ h.entry before hbefore
    · obtain ⟨before, hbefore, _, hentry'⟩ := get?_ended hold hget
      exact hentry' ▸ h.others e before he hbefore
    · simp only [hentry, onEntry, Function.update_self]
      unfold noteStatus
      cases hstatus : ending.status? with
      | none =>
        obtain ⟨g, hg, hid, hshown⟩ := h.node
        exact ⟨g, hg, hid, by rw [hstatus]; exact hshown.1, hshown.2⟩
      | some status =>
        refine h.node.modify_eq (fun _ => rfl) fun g hg => ⟨?_, hg.2⟩
        rw [hstatus, withMetadata, Dict.get?_update (by simp)]
        rfl
  · obtain ⟨old, hold, hended⟩ := hheld
    have hentry := h.entry old hold
    simp only [Note.op, AdapterState.apply, hold, hended, if_true] at hplaced ⊢
    refine { hplaced with entry := fun call hc => ?_, others := fun e call he hget => ?_,
                          node := ?_ }
    · exact h.entry call (Dict.get?_erase_some hc).2
    · exact h.others e call he (Dict.get?_erase_some hget).2
    · simp only [hentry, onEntry, Function.update_self]
      exact h.node.modify_eq (fun _ => rfl) fun g hg => ⟨hg.1, fun hend => by cases hend⟩

/-- A traced call begins its generation. -/
theorem owns_begun (reader : Reader) (h : Placed s) (hc : s.calls.get? c = none)
    (requestId uuid : String) (perf : ℚ) :
    Owns c t (s.traces t).observations.length uuid [.begun]
      (s.apply reader (.enter c requestId (some t) uuid perf)) := by
  have hplaced := h.step reader (.enter c requestId (some t) uuid perf)
  simp only [AdapterState.apply, hc] at hplaced ⊢
  refine { hplaced with entry := fun call hget => ?_, others := fun d call hd hget => ?_,
                        node := ?_ }
  · rw [Dict.get?_set, if_pos rfl] at hget
    exact Option.some.inj hget ▸ rfl
  · rw [Dict.get?_set, if_neg hd] at hget
    intro hentry
    obtain ⟨g, _, hg, _⟩ := h.placed d call t _ hget hentry
    exact absurd (List.getElem?_eq_some_iff.mp hg).1 (lt_irrefl _)
  · show NodeAt _ uuid [.begun] (Function.update s.traces t _ t)
    rw [Function.update_self]
    exact ⟨_, List.getElem?_concat_length, rfl, rfl, rfl⟩

end Owns

/-! ## Runs of the frontend -/

section Frontend
variable {ι κ μ ω ε : Type} (reader : Reader) (generate : ℕ → AsyncGen ι κ μ ω ε)
  (calls : ℕ → GenerateCall)

/-- The notes that a call has made. -/
def Frontend.notes (s : Frontend ι κ μ ω ε) (c : ℕ) : List Note := notesOf (s.sessions c).effects

/-- What the adapter holds of a call: its request id, and an entry in its trace. -/
def Known (call : GenerateCall) (held : Call) : Prop :=
  held.requestId = call.requestId ∧ held.entry.map Prod.fst = call.trace

/-- The adapter holds the calls that have begun and not left. -/
structure Kept (calls : ℕ → GenerateCall) (s : Frontend ι κ μ ω ε) : Prop where
  placed : Placed s.adapter
  course : ∀ c, Course (s.sessions c).phase (s.notes c)
  held : ∀ c, HeldCall (s.notes c) (s.adapter.calls.get? c)
  known : ∀ c call, s.adapter.calls.get? c = some call → Known (calls c) call

variable {calls} in
/-- A note keeps the request ids and the traces of the calls. -/
theorem known_note {s : AdapterState} {c : ℕ} (note : Note) (uuid : String) (opened closed : ℚ)
    (h : ∀ d call, s.calls.get? d = some call → Known (calls d) call) :
    ∀ d call, (s.apply reader (note.op c (calls c) uuid opened closed)).calls.get? d = some call →
      Known (calls d) call := by
  cases note with
  | begun =>
    simp only [Note.op, AdapterState.apply]
    split
    · exact h
    · rename_i htrace
      intro d call hget
      rcases Dict.get?_set_some hget with ⟨rfl, rfl⟩ | ⟨_, hget⟩
      · exact ⟨rfl, htrace.symm⟩
      · exact h d call hget
    · rename_i htrace
      intro d call hget
      rcases Dict.get?_set_some hget with ⟨rfl, rfl⟩ | ⟨_, hget⟩
      · exact ⟨rfl, htrace.symm⟩
      · exact h d call hget
  | ended ending =>
    simp only [Note.op, AdapterState.apply]
    split
    · exact h
    · rename_i old hold
      split
      · exact h
      · intro d call hget
        obtain ⟨before, hbefore, hid, hentry⟩ := get?_ended hold hget
        obtain ⟨hrequest, htrace⟩ := h d before hbefore
        exact ⟨hid.symm.trans hrequest, hentry ▸ htrace⟩
  | left =>
    simp only [Note.op, AdapterState.apply]
    split
    · exact h
    · split
      · exact fun d call hget => h d call (Dict.get?_erase_some hget).2
      · exact h

variable {reader generate calls} {s : Frontend ι κ μ ω ε} {c : ℕ} {request : Request}
  {uuid : String} {opened closed : ℚ}

/-- The notes behind a turn of the call. -/
theorem notes_asked :
    (s.apply reader generate calls (.asked c request uuid opened closed)).notes c =
      s.notes c ++
        notesOf ((observedGenerate (generate c)).step (s.sessions c).phase request).1 := by
  simp [Frontend.notes, Frontend.apply, Session.ask, notesOf]

theorem Kept.asked (h : Kept calls s) :
    Kept calls (s.apply reader generate calls (.asked c request uuid opened closed)) := by
  have hcourse := (h.course c).step (generate c) request
  refine ⟨?_, fun d => ?_, fun d => ?_, ?_⟩
  · exact run_invariant_all _ (fun s op hp => hp.step reader op) h.placed
  · by_cases hd : d = c
    · subst hd
      rw [notes_asked]
      simpa [Frontend.apply, Session.ask] using hcourse.1
    · simpa [Frontend.apply, Frontend.notes, Function.update_of_ne hd] using h.course d
  · by_cases hd : d = c
    · subst hd
      rw [notes_asked]
      exact run_notes reader d (calls d) uuid opened closed
        (I := fun notes s => HeldCall notes (s.calls.get? d))
        (fun notes note s hn hi => held_note reader hn hi) _ _ _ hcourse.1.inOrder (h.held d)
    · have hsame : ∀ (notes : List Note) (s' : AdapterState),
          (run (AdapterState.apply reader) s'
            (notes.map (Note.op c (calls c) uuid opened closed))).calls.get? d =
          s'.calls.get? d := by
        intro notes
        induction notes with
        | nil => exact fun _ => rfl
        | cons note rest ih => exact fun s' => (ih _).trans (note_other reader hd)
      have hnotes : (s.apply reader generate calls
          (.asked c request uuid opened closed)).notes d = s.notes d := by
        simp [Frontend.apply, Frontend.notes, Function.update_of_ne hd]
      rw [hnotes]
      exact (hsame _ s.adapter).symm ▸ h.held d
  · have hall : ∀ (notes : List Note) (s' : AdapterState),
        (∀ d call, s'.calls.get? d = some call → Known (calls d) call) →
        ∀ d call, (run (AdapterState.apply reader) s'
          (notes.map (Note.op c (calls c) uuid opened closed))).calls.get? d = some call →
          Known (calls d) call := by
      intro notes
      induction notes with
      | nil => exact fun _ hknown => hknown
      | cons note rest ih =>
        exact fun s' hknown => ih _ (known_note reader note uuid opened closed hknown)
    exact hall _ s.adapter h.known

theorem Kept.step (h : Kept calls s) (op : FrontendOp) :
    Kept calls (s.apply reader generate calls op) := by
  cases op with
  | asked c request uuid opened closed => exact h.asked
  | finished requestId stat raw uuid perf =>
    exact ⟨h.placed.step reader (.finished requestId stat raw uuid perf), h.course, h.held, h.known⟩

theorem kept_run (traces : ℕ → RequestTrace) (ops : List FrontendOp) :
    Kept calls (run (Frontend.apply reader generate calls) (.init traces) ops) :=
  run_invariant_all _ (fun _ op h => h.step op)
    ⟨placed_init traces, fun _ => .created, fun _ => rfl, fun _ _ h => by cases h⟩

/-- A call that the adapter holds is running. -/
theorem Kept.running (h : Kept calls s) {call : Call} (hc : s.adapter.calls.get? c = some call) :
    (s.sessions c).phase ≠ .created ∧ (s.sessions c).phase ≠ .finished := by
  have hheld := h.held c
  have hcourse := h.course c
  rw [hc] at hheld
  generalize (s.sessions c).phase = p at hcourse
  generalize s.notes c = notes at hcourse hheld
  cases hcourse with
  | created => cases hheld
  | unstarted => cases hheld
  | atYield point => exact ⟨by simp, by simp⟩
  | atAwait point => exact ⟨by simp, by simp⟩
  | closing point => exact ⟨by simp, by simp⟩
  | finished ending => cases hheld

variable {t gen : ℕ} {id : String}

/-- The generation of a call stays its own. -/
theorem owns_step (hkept : Kept calls s) (hbegun : s.notes c ≠ [])
    (h : Owns c t gen id (s.notes c) s.adapter) (op : FrontendOp) :
    let s' := s.apply reader generate calls op
    s'.notes c ≠ [] ∧ Owns c t gen id (s'.notes c) s'.adapter := by
  intro s'
  cases op with
  | finished requestId stat raw uuid perf =>
    have hother : (AdapterOp.finished requestId stat raw uuid perf).call? ≠ some c :=
      fun he => by cases he
    exact ⟨hbegun, h.other hother⟩
  | asked d request uuid opened closed =>
    by_cases hd : d = c
    · subst hd
      have hcourse := (hkept.course d).step (generate d) request
      have hnotes : s'.notes d = _ := notes_asked
      rw [hnotes]
      have hrun := run_notes reader d (calls d) uuid opened closed
        (I := fun notes s => notes ≠ [] ∧ HeldCall notes (s.calls.get? d) ∧
          Owns d t gen id notes s)
        (fun notes note s hn hi => ⟨by simp, held_note reader hn hi.2.1,
          hi.2.2.note hi.2.1 hn hi.1⟩) _ _ s.adapter hcourse.1.inOrder ⟨hbegun, hkept.held d, h⟩
      exact ⟨hrun.1, hrun.2.2⟩
    · have hnotes : s'.notes c = s.notes c := by
        simp [s', Frontend.apply, Frontend.notes, Function.update_of_ne fun he => hd (he.symm)]
      have hall : ∀ (notes : List Note) (a : AdapterState), Owns c t gen id (s.notes c) a →
          Owns c t gen id (s.notes c) (run (AdapterState.apply reader) a
            (notes.map (Note.op d (calls d) uuid opened closed))) := by
        intro notes
        induction notes with
        | nil => exact fun _ ha => ha
        | cons note rest ih =>
          refine fun a ha => ih _ (ha.other ?_)
          cases note <;> exact fun he => hd (Option.some.inj he)
      rw [hnotes]
      exact ⟨hbegun, hall _ s.adapter h⟩

/-- The first output is asked for. -/
theorem owns_asked (hkept : Kept calls s) (hnew : (s.sessions c).phase = .created)
    (htrace : (calls c).trace = some t) :
    let s' := s.apply reader generate calls (.asked c .anext uuid opened closed)
    s'.notes c ≠ [] ∧ Owns c t (s.adapter.traces t).observations.length uuid (s'.notes c)
      s'.adapter := by
  intro s'
  have hnotes : s.notes c = [] := by
    have hcourse := hkept.course c
    rw [hnew] at hcourse
    generalize s.notes c = notes at hcourse
    cases hcourse
    rfl
  have hnone : s.adapter.calls.get? c = none := by
    have hheld := hkept.held c
    rw [hnotes] at hheld
    exact hheld
  -- the note that begins the generation comes before all that the engine does
  obtain ⟨acts, hacts⟩ : ∃ acts, ((observedGenerate (generate c)).step (s.sessions c).phase
      .anext).1 = .note .begun :: acts := by
    rw [hnew]
    exact ⟨_, rfl⟩
  have hstep : notesOf ((observedGenerate (generate c)).step (s.sessions c).phase .anext).1 =
      .begun :: notesOf acts := by rw [hacts]; rfl
  have hnotes' : s'.notes c = [.begun] ++ notesOf acts := by
    show (s.apply reader generate calls (.asked c .anext uuid opened closed)).notes c = _
    rw [notes_asked, hnotes, hstep]
    rfl
  have hadapter : s'.adapter = run (AdapterState.apply reader)
      (s.adapter.apply reader (.enter c (calls c).requestId (some t) uuid opened))
      ((notesOf acts).map (Note.op c (calls c) uuid opened closed)) := by
    show run _ s.adapter ((notesOf _).map (Note.op c (calls c) uuid opened closed)) = _
    rw [hstep, ← htrace]
    rfl
  have horder : InOrder ([Note.begun] ++ notesOf acts) := by
    have hcourse := ((hkept.course c).step (generate c) .anext).1.inOrder
    rw [hnotes, hstep] at hcourse
    exact hcourse
  have hheld : HeldCall [.begun] ((s.adapter.apply reader
      (.enter c (calls c).requestId (some t) uuid opened)).calls.get? c) := by
    simp only [AdapterState.apply, hnone]
    exact ⟨_, by rw [Dict.get?_set, if_pos rfl], rfl⟩
  have hrun := run_notes reader c (calls c) uuid opened closed
    (I := fun notes a => notes ≠ [] ∧ HeldCall notes (a.calls.get? c) ∧
      Owns c t (s.adapter.traces t).observations.length uuid notes a)
    (fun notes note a hn hi => ⟨by simp, held_note reader hn hi.2.1,
      hi.2.2.note hi.2.1 hn hi.1⟩) _ _ _ horder ⟨by simp, hheld,
      owns_begun reader hkept.placed hnone (calls c).requestId uuid opened⟩
  rw [hnotes', hadapter]
  exact ⟨hrun.1, hrun.2.2⟩

variable (reader generate calls)

/-- A call that has begun was asked for its first output. -/
theorem begun_split (traces : ℕ → RequestTrace) (c : ℕ) : ∀ ops : List FrontendOp,
    (run (Frontend.apply reader generate calls) (.init traces) ops).notes c ≠ [] →
      ∃ pre uuid opened closed post, ops = pre ++ .asked c .anext uuid opened closed :: post ∧
        ((run (Frontend.apply reader generate calls) (.init traces) pre).sessions c).phase =
          .created := by
  intro ops
  induction ops using List.reverseRecOn with
  | nil => exact fun hbegun => absurd rfl hbegun
  | append_singleton ops op ih =>
    let before := run (Frontend.apply reader generate calls) (.init traces) ops
    have hkept : Kept calls before := kept_run traces ops
    intro hbegun
    by_cases hbefore : before.notes c = []
    · rw [run_append, run_cons, run_nil] at hbegun
      cases op with
      | finished requestId stat raw uuid perf => exact absurd hbefore hbegun
      | asked d request uuid opened closed =>
        by_cases hd : d = c
        · subst hd
          have hcourse := hkept.course d
          rw [notes_asked, hbefore, List.nil_append] at hbegun
          rw [hbefore] at hcourse
          generalize hphase : (before.sessions d).phase = p at hcourse
          have hphase' : ((run (Frontend.apply reader generate calls) (.init traces)
              ops).sessions d).phase = p := hphase
          rw [hphase'] at hbegun
          cases hcourse with
          | unstarted => cases request <;> exact absurd rfl hbegun
          | created =>
            cases request with
            | anext => exact ⟨ops, uuid, opened, closed, [], rfl, hphase⟩
            | aclose => exact absurd rfl hbegun
            | wake => exact absurd rfl hbegun
            | cancel => exact absurd rfl hbegun
        · refine absurd ?_ hbegun
          simpa [Frontend.apply, Frontend.notes, Function.update_of_ne fun he => hd he.symm]
            using hbefore
    · obtain ⟨pre, uuid, opened, closed, post, rfl, hphase⟩ := ih hbefore
      exact ⟨pre, uuid, opened, closed, post ++ [op], by simp, hphase⟩

/-- From its first output on, the generation that a traced call begins is its own. -/
theorem owns_run (traces : ℕ → RequestTrace) {ops pre post : List FrontendOp} {c : ℕ}
    {uuid : String} {opened closed : ℚ} {t : ℕ}
    (hops : ops = pre ++ .asked c .anext uuid opened closed :: post)
    (htrace : (calls c).trace = some t) :
    let before := run (Frontend.apply reader generate calls) (.init traces) pre
    let s := run (Frontend.apply reader generate calls) (.init traces) ops
    (before.sessions c).phase = .created → s.notes c ≠ [] ∧
      Owns c t (before.adapter.traces t).observations.length uuid (s.notes c) s.adapter := by
  intro before s hnew
  have hbefore : Kept calls before := kept_run traces pre
  have hs : s = run (Frontend.apply reader generate calls)
      (before.apply reader generate calls (.asked c .anext uuid opened closed)) post := by
    show run _ _ ops = _
    rw [hops, run_append, run_cons]
  have hown : Kept calls s ∧ s.notes c ≠ [] ∧
      Owns c t (before.adapter.traces t).observations.length uuid (s.notes c) s.adapter := by
    rw [hs]
    refine run_invariant_all _ (I := fun s : Frontend ι κ μ ω ε => Kept calls s ∧
      s.notes c ≠ [] ∧ Owns c t (before.adapter.traces t).observations.length uuid (s.notes c)
        s.adapter) (fun s op hi => ⟨hi.1.step op, owns_step hi.1 hi.2.1 hi.2.2 op⟩) ?_
    exact ⟨hbefore.step _, owns_asked hbefore hnew htrace⟩
  exact hown.2

/-- **A generation follows its call.** In every run of calls and statistics, the
generation that a traced call begins is open while the call runs. When the call is
over it has ended, with the status of the ending that the consumer was told or
asked for. And an entry of `active` is the trace and the generation that a running
call of its id has begun. -/
theorem generations_settle (traces : ℕ → RequestTrace) (ops : List FrontendOp) :
    let s := run (Frontend.apply reader generate calls) (.init traces) ops
    (∀ requestId t gen, s.adapter.active.get? requestId = some (t, gen) →
      ∃ pre c uuid opened closed post, ops = pre ++ .asked c .anext uuid opened closed :: post ∧
        (calls c).requestId = requestId ∧ (calls c).trace = some t ∧
        (let before := run (Frontend.apply reader generate calls) (.init traces) pre
        (before.sessions c).phase = .created ∧
          gen = (before.adapter.traces t).observations.length) ∧
        (s.sessions c).phase ≠ .created ∧ (s.sessions c).phase ≠ .finished) ∧
    ∀ pre c uuid opened closed post t, ops = pre ++ .asked c .anext uuid opened closed :: post →
      (calls c).trace = some t →
      let before := run (Frontend.apply reader generate calls) (.init traces) pre
      (before.sessions c).phase = .created →
      ∃ g, (s.adapter.traces t).observations[(before.adapter.traces t).observations.length]? =
          some g ∧ g.id = uuid ∧
        ((s.sessions c).phase ≠ .finished ∧ g.endNs = none ∨
          (s.sessions c).phase = .finished ∧ g.endNs ≠ none ∧
            ∃ ending, g.metadata.get? "status" = ending.status?.map Json.str ∧
              Told (s.sessions c).replies (requestsOf c ops) ending) := by
  intro s
  have hkept : Kept calls s := kept_run traces ops
  refine ⟨fun requestId t gen hactive => ?_, ?_⟩
  · obtain ⟨c, call, hc, hid, hentry⟩ := hkept.placed.owned requestId (t, gen) hactive
    obtain ⟨hrequest, htrace⟩ := hkept.known c call hc
    rw [hentry] at htrace
    have hbegun : s.notes c ≠ [] := by
      have hheld := hkept.held c
      rw [hc] at hheld
      intro hnone
      rw [hnone] at hheld
      cases hheld
    obtain ⟨pre, uuid, opened, closed, post, hops, hnew⟩ :=
      begun_split reader generate calls traces c ops hbegun
    obtain ⟨_, hown⟩ := owns_run reader generate calls traces hops htrace.symm hnew
    have hsame : (t, gen) = _ := Option.some.inj (hentry.symm.trans (hown.entry call hc))
    exact ⟨pre, c, uuid, opened, closed, post, hops, hrequest.symm.trans hid, htrace.symm,
      ⟨hnew, (Prod.mk.inj hsame).2⟩, hkept.running hc⟩
  · intro pre c uuid opened closed post t hops htrace before hnew
    obtain ⟨hbegun, hown⟩ := owns_run reader generate calls traces hops htrace hnew
    obtain ⟨g, hg, hid, hshown⟩ := hown.node
    have hsession : s.sessions c =
        run (Session.ask (observedGenerate (generate c))) {} (requestsOf c ops) :=
      sessions_run reader generate calls c ops _
    have htold := (onCourse_run (generate c) (requestsOf c ops)).told
    rw [← hsession] at htold
    have hcourse := hkept.course c
    have hnoted : ∀ ending, .ended ending ∈ s.notes c →
        Told (s.sessions c).replies (requestsOf c ops) ending := htold
    refine ⟨g, hg, hid, ?_⟩
    generalize (s.sessions c).phase = p at hcourse ⊢
    generalize s.notes c = notes at hcourse hbegun hshown hnoted
    cases hcourse with
    | created => exact absurd rfl hbegun
    | unstarted => exact absurd rfl hbegun
    | atYield point => exact .inl ⟨by simp, hshown.2⟩
    | atAwait point => exact .inl ⟨by simp, hshown.2⟩
    | closing point => exact .inl ⟨by simp, hshown.2⟩
    | finished ending =>
      exact .inr ⟨rfl, hshown.2, ending, hshown.1, hnoted ending (by simp)⟩

end Frontend

/-- The generation of the cancelled call. -/
theorem generations_settle_cancelled :
    let s := run (Frontend.apply noReader (fun _ => sampleEngine) sampleGenerates)
      (.init newTraces) sampleTurns
    ∃ g, (s.adapter.traces 0).observations[1]? = some g ∧ g.id = "h" ∧ g.endNs ≠ none ∧
      ∃ ending, g.metadata.get? "status" = ending.status?.map Json.str ∧
        Told (s.sessions 1).replies [.anext, .cancel] ending := by
  intro s
  have h := (generations_settle noReader (fun _ => sampleEngine) sampleGenerates newTraces
    sampleTurns).2 [.asked 0 .anext "g" 1 1] 1 "h" 2 2 _ 0 rfl rfl rfl
  obtain ⟨g, hg, hid, hshown⟩ := h
  have hphase : (s.sessions 1).phase = .finished := rfl
  rcases hshown with ⟨hrunning, _⟩ | ⟨_, hend, hstatus⟩
  · exact absurd hphase hrunning
  · exact ⟨g, hg, hid, hend, hstatus⟩

end VllmObserver.Adapter
