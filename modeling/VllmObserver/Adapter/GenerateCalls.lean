import VllmObserver.Adapter.ObservedGenerate
import VllmObserver.Adapter.Aggregates

/-! # The calls of `generate`

Any number of `generate()` calls are consumed, cancelled and closed in any order,
while statistics of finished requests come in. Each consumer sees its engine. A
call begins its generation once and ends it once, with the status that its
iteration ended in, and no entry of `active` outlives its call. -/
namespace VllmObserver.Adapter
open VllmObserver.Lib VllmObserver.Core VllmObserver.Stages

/-- A call: its request id, and the trace of the request it is made in. -/
structure GenerateCall where
  requestId : String
  trace : Option ℕ

/-- A note as a step of the adapter. -/
def Note.op (c : ℕ) (call : GenerateCall) (uuid : String) (opened closed : ℚ) : Note → AdapterOp
  | .begun => .enter c call.requestId call.trace uuid opened
  | .ended ending => .ended c ending
  | .left => .leave c closed

/-- What happens next: a call is asked or resumed, with the id and the clock
readings that its notes may need, or a statistic is delivered. -/
inductive FrontendOp where
  | asked (call : ℕ) (request : Request) (uuid : String) (opened closed : ℚ)
  | finished (requestId : String) (stat : FinishedStat) (raw : RawStats) (uuid : ℕ → String)
      (perf : ℕ → ℚ)

/-- The adapter, and the generators that its callers hold. -/
structure Frontend (ι κ μ ω ε : Type) where
  adapter : AdapterState
  sessions : ℕ → Session (Phase ι κ) (Awaiting ι κ ε) (Act μ) ω ε

section Frontend
variable {ι κ μ ω ε : Type} (reader : Reader) (generate : ℕ → AsyncGen ι κ μ ω ε)
  (calls : ℕ → GenerateCall)

def Frontend.init (traces : ℕ → RequestTrace) : Frontend ι κ μ ω ε where
  adapter := .init traces
  sessions := fun _ => {}

/-- The notes of a turn. -/
def notesOf (acts : List (Act μ)) : List Note := acts.filterMap Act.note?

def Frontend.apply (s : Frontend ι κ μ ω ε) : FrontendOp → Frontend ι κ μ ω ε
  | .asked c request uuid opened closed =>
    let session := s.sessions c
    let acts := ((observedGenerate (generate c)).step session.phase request).1
    { adapter := run (AdapterState.apply reader) s.adapter
        ((notesOf acts).map (Note.op c (calls c) uuid opened closed))
      sessions :=
        Function.update s.sessions c (session.ask (observedGenerate (generate c)) request) }
  | .finished requestId stat raw uuid perf =>
    { s with adapter := s.adapter.apply reader (.finished requestId stat raw uuid perf) }

end Frontend

/-- The requests that a call has seen. -/
def requestsOf (c : ℕ) (ops : List FrontendOp) : List Request :=
  ops.filterMap fun
    | .asked c' request _ _ _ => if c' = c then some request else none
    | .finished .. => none

section Sessions
variable {ι κ μ ω ε : Type} (reader : Reader) (generate : ℕ → AsyncGen ι κ μ ω ε)
  (calls : ℕ → GenerateCall)

/-- A call is blind to the others and to the statistics. -/
theorem sessions_run (c : ℕ) : ∀ (ops : List FrontendOp) (s : Frontend ι κ μ ω ε),
    (run (Frontend.apply reader generate calls) s ops).sessions c =
      run (Session.ask (observedGenerate (generate c))) (s.sessions c) (requestsOf c ops)
  | [], _ => rfl
  | .finished .. :: rest, _ => sessions_run c rest _
  | .asked c' request uuid opened closed :: rest, s => by
    rw [run_cons, sessions_run c rest]
    by_cases h : c' = c
    · subst h
      simp [requestsOf, Frontend.apply]
    · simp [requestsOf, Frontend.apply, h, Function.update_of_ne fun he => h he.symm]

/-- **`observed_generate` is transparent.** Whatever the other calls do, a consumer
that asks for nothing behind its close is answered as by `generate` itself, which
does the same. -/
theorem observed_generate_transparent (traces : ℕ → RequestTrace) (ops : List FrontendOp) (c : ℕ)
    (hlast : ClosesLast (requestsOf c ops)) :
    let observed := (run (Frontend.apply reader generate calls) (.init traces) ops).sessions c
    let plain := run (Session.ask (generate c)) {} (requestsOf c ops)
    observed.replies = plain.replies ∧
      observed.effects.filterMap Act.effect? = plain.effects := by
  intro observed plain
  have hrun : observed = run (Session.ask (observedGenerate (generate c))) {} (requestsOf c ops) :=
    sessions_run reader generate calls c ops _
  have hseen : SeenAlike Act.effect?
      (run (Session.ask (observedGenerate (generate c))) {} (requestsOf c ops)) plain :=
    (observedGenerate_mimics (generate c)).seen hlast .created ⟨rfl, rfl⟩
  rw [hrun]
  exact ⟨hseen.replies, hseen.effects⟩

end Sessions

/-- Awaits, yields and aborts its request when it is closed. -/
def sampleEngine : AsyncGen ℕ ℕ String ℕ String where
  start := ([], .awaits 0)
  afterYield
    | _, false => ([], .awaits 1)
    | _, true => (["abort"], .awaits 2)
  afterAwait
    | 0, false => (["step"], .yields 7 0)
    | 2, false => ([], .raises .generatorExit)
    | _, false => ([], .returns)
    | _, true => ([], .raises .cancelled)

/-- Two calls of one request. -/
def sampleGenerates : ℕ → GenerateCall := fun c => ⟨if c = 0 then "a" else "b", some 0⟩

/-- The first call is closed behind its first output, the second one cancelled. -/
def sampleTurns : List FrontendOp := [
  .asked 0 .anext "g" 1 1, .asked 1 .anext "h" 2 2, .asked 0 .wake "" 3 3, .asked 1 .cancel "" 4 4,
  .asked 0 .aclose "" 5 5, .finished "a" sampleFinished noStats (fun _ => "o") (fun _ => 6),
  .asked 0 .wake "" 7 7]

theorem observed_generate_transparent_closed :
    let observed := (run (Frontend.apply noReader (fun _ => sampleEngine) sampleGenerates)
      (.init newTraces) sampleTurns).sessions 0
    observed.replies = [.pending, .item 7, .pending, .closed] ∧
      observed.effects.filterMap Act.effect? = ["step", "abort"] := by
  have hlast : ClosesLast (requestsOf 0 sampleTurns) := by
    show ClosesLast [.anext, .wake, .aclose, .wake]
    simp [ClosesLast, Request.resumes]
  have h := observed_generate_transparent noReader (fun _ => sampleEngine) sampleGenerates newTraces
    sampleTurns 0 hlast
  exact ⟨h.1, h.2⟩

/-! ## The notes of a call -/

section Course
variable {ι κ μ ω ε : Type}

/-- The notes of a call so far, by the state of its generator. -/
inductive Course : Phase (Phase ι κ) (Awaiting ι κ ε) → List Note → Prop where
  | created : Course .created []
  | unstarted : Course .finished [] -- closed before its first output
  | atYield (point : ι) : Course (.atYield (.atYield point)) [.begun]
  | atAwait (point : κ) : Course (.atAwait false (.output (.atAwait false point))) [.begun]
  | closing (point : κ) :
      Course (.atAwait true (.aclose (some .generatorExit) (.atAwait true point)))
        [.begun, .ended .closed]
  | finished (ending : Ending) : Course .finished [.begun, .ended ending, .left]

/-- The consumer's reply when the iteration is over. -/
def answerOf : Option (Thrown ε) → Reply ω ε
  | none => .stop
  | some thrown => .raised thrown

/-- A noted ending is the one that the consumer is told, or that it asked for. -/
def Told (replies : List (Reply ω ε)) (requests : List Request) (ending : Ending) : Prop :=
  (∃ pending : Option (Thrown ε), endingOf pending = ending ∧ answerOf pending ∈ replies) ∨
    ending = .closed ∧ .aclose ∈ requests

theorem Told.mono {replies replies' : List (Reply ω ε)} {requests requests' : List Request}
    {ending : Ending} (h : Told replies requests ending) (hreplies : replies ⊆ replies')
    (hrequests : requests ⊆ requests') : Told replies' requests' ending :=
  h.imp (fun ⟨pending, he, ha⟩ => ⟨pending, he, hreplies ha⟩) fun ⟨he, ha⟩ => ⟨he, hrequests ha⟩

theorem notesOf_engine (effects : List μ) : notesOf (effects.map Act.engine) = [] := by
  rw [notesOf, List.filterMap_map]
  exact List.filterMap_eq_nil_iff.mpr fun _ _ => rfl

theorem notesOf_append (effects : List μ) (acts : List (Act μ)) :
    notesOf (effects.map Act.engine ++ acts) = notesOf acts := by
  have h := notesOf_engine effects
  rw [notesOf] at h ⊢
  rw [List.filterMap_append, h]
  rfl

variable (generate : AsyncGen ι κ μ ω ε)

theorem iterate_course (body : List μ × Pause ι κ ω ε) :
    let outer := iterate generate (body.map id (settle false))
    Course (settle false outer.2).2 (.begun :: notesOf outer.1) ∧
      ∀ ending, .ended ending ∈ notesOf outer.1 →
        Told [(settle false outer.2).1] [] ending := by
  obtain ⟨effects, pause⟩ := body
  intro outer
  cases pause with
  | awaits point =>
    have hnotes : notesOf outer.1 = [] := notesOf_engine effects
    rw [hnotes]
    exact ⟨.atAwait point, fun _ h => by cases h⟩
  | yields item point =>
    have hnotes : notesOf outer.1 = [] := notesOf_engine effects
    rw [hnotes]
    exact ⟨.atYield point, fun _ h => by cases h⟩
  | returns =>
    have hnotes : notesOf outer.1 = [.ended .completed, .left] := notesOf_append effects _
    rw [hnotes]
    refine ⟨.finished _, fun ending h => .inl ⟨none, ?_, List.mem_singleton.mpr rfl⟩⟩
    simpa [endingOf, eq_comm] using h
  | raises thrown =>
    have hnotes : notesOf outer.1 = [.ended (endingOf (some thrown)), .left] :=
      notesOf_append effects _
    have hreply : (settle false outer.2).1 = .raised thrown := rfl
    rw [hnotes, hreply]
    refine ⟨.finished _, fun ending h => .inl ⟨some thrown, ?_, List.mem_singleton.mpr rfl⟩⟩
    simpa [eq_comm] using h

theorem close_course (body : List μ × Pause ι κ ω ε) :
    let outer := closeIterator (some .generatorExit) (body.map id (settle true))
    Course (settle true outer.2).2 ([.begun, .ended .closed] ++ notesOf outer.1) ∧
      ∀ ending, .ended ending ∉ notesOf outer.1 := by
  obtain ⟨effects, pause⟩ := body
  intro outer
  cases pause with
  | awaits point =>
    have hnotes : notesOf outer.1 = [] := notesOf_engine effects
    rw [hnotes]
    exact ⟨.closing point, fun _ h => by cases h⟩
  | yields item point =>
    have hnotes : notesOf outer.1 = [.left] := notesOf_append effects _
    rw [hnotes]
    exact ⟨.finished .closed, fun _ h => by simp at h⟩
  | returns =>
    have hnotes : notesOf outer.1 = [.left] := notesOf_append effects _
    rw [hnotes]
    exact ⟨.finished .closed, fun _ h => by simp at h⟩
  | raises thrown =>
    have hnotes : notesOf outer.1 = [.left] := by
      cases thrown <;> exact notesOf_append effects _
    have hphase : (settle true outer.2).2 = .finished := by cases thrown <;> rfl
    rw [hnotes, hphase]
    exact ⟨.finished .closed, fun _ h => by simp at h⟩

/-- A turn goes on with the course of the notes. -/
theorem Course.step {p : Phase (Phase ι κ) (Awaiting ι κ ε)} {notes : List Note}
    (h : Course p notes) (request : Request) :
    let next := (observedGenerate generate).step p request
    Course next.2.2 (notes ++ notesOf next.1) ∧
      ∀ ending, .ended ending ∈ notesOf next.1 → Told [next.2.1] [request] ending := by
  have hasks : ∀ (replies : List (Reply ω ε)) ending, Told replies [] ending →
      Told replies [request] ending := fun _ _ h => h.mono (List.Subset.refl _) (by simp)
  have hunasked : ∀ reply : Reply ω ε, ∀ ending, Note.ended ending ∈ notesOf ([] : List (Act μ)) →
      Told [reply] [request] ending := fun _ _ h => by cases h
  have hclosing : ∀ (body : List μ × Pause ι κ ω ε),
      let outer := closeIterator (some .generatorExit) (body.map id (settle true))
      Course (settle true outer.2).2 ([.begun, .ended .closed] ++ notesOf outer.1) ∧
        ∀ ending, .ended ending ∈ notesOf outer.1 →
          Told [(settle true outer.2).1] [request] ending := fun body =>
    ⟨(close_course body).1, fun ending h => absurd h ((close_course body).2 ending)⟩
  cases h with
  | created =>
    cases request with
    | anext =>
      have h := iterate_course generate generate.start
      refine ⟨h.1, fun ending he => ?_⟩
      rcases List.mem_cons.mp he with he | he
      · cases he
      · exact hasks _ _ (h.2 ending he)
    | aclose => exact ⟨.unstarted, hunasked _⟩
    | wake => exact ⟨.created, hunasked _⟩
    | cancel => exact ⟨.created, hunasked _⟩
  | unstarted => cases request <;> exact ⟨.unstarted, hunasked _⟩
  | atYield point =>
    cases request with
    | anext =>
      have h := iterate_course generate (generate.afterYield point false)
      exact ⟨h.1, fun ending he => hasks _ _ (h.2 ending he)⟩
    | aclose =>
      have h := close_course (generate.afterYield point true)
      refine ⟨h.1, fun ending he => ?_⟩
      rcases List.mem_cons.mp he with he | he
      · exact .inr ⟨Note.ended.inj he, List.mem_singleton.mpr rfl⟩
      · exact absurd he (h.2 ending)
    | wake => exact ⟨.atYield point, hunasked _⟩
    | cancel => exact ⟨.atYield point, hunasked _⟩
  | atAwait point =>
    cases request with
    | anext => exact ⟨.atAwait point, hunasked _⟩
    | aclose => exact ⟨.atAwait point, hunasked _⟩
    | wake =>
      have h := iterate_course generate (generate.afterAwait point false)
      exact ⟨h.1, fun ending he => hasks _ _ (h.2 ending he)⟩
    | cancel =>
      have h := iterate_course generate (generate.afterAwait point true)
      exact ⟨h.1, fun ending he => hasks _ _ (h.2 ending he)⟩
  | closing point =>
    cases request with
    | anext => exact ⟨.closing point, hunasked _⟩
    | aclose => exact ⟨.closing point, hunasked _⟩
    | wake => exact hclosing (generate.afterAwait point false)
    | cancel => exact hclosing (generate.afterAwait point true)
  | finished ending =>
    cases request <;> exact ⟨.finished ending, hunasked _⟩

/-- What has become of a session: its notes, and what its consumer was told. -/
structure OnCourse (s : Session (Phase ι κ) (Awaiting ι κ ε) (Act μ) ω ε)
    (requests : List Request) : Prop where
  course : Course s.phase (notesOf s.effects)
  told : ∀ ending, .ended ending ∈ notesOf s.effects → Told s.replies requests ending

theorem OnCourse.ask {s : Session (Phase ι κ) (Awaiting ι κ ε) (Act μ) ω ε}
    {requests : List Request} (h : OnCourse s requests) (request : Request) :
    OnCourse (s.ask (observedGenerate generate) request) (requests ++ [request]) := by
  obtain ⟨hcourse, htold⟩ := h.course.step generate request
  have hnotes : notesOf (s.ask (observedGenerate generate) request).effects = notesOf s.effects ++
      notesOf ((observedGenerate generate).step s.phase request).1 := List.filterMap_append
  refine ⟨?_, fun ending he => ?_⟩
  · rw [hnotes]
    exact hcourse
  · rw [hnotes, List.mem_append] at he
    rcases he with he | he
    · exact (h.told ending he).mono (List.subset_append_left _ _) (List.subset_append_left _ _)
    · exact (htold ending he).mono (List.subset_append_right _ _) (List.subset_append_right _ _)

theorem onCourse_run (requests : List Request) :
    OnCourse (run (Session.ask (observedGenerate generate)) {} requests) requests := by
  induction requests using List.reverseRecOn with
  | nil => exact ⟨.created, fun _ h => by cases h⟩
  | append_singleton requests request ih =>
    rw [run_append]
    exact ih.ask generate request

end Course

/-! ## The calls of the adapter -/

/-- Notes of a call, in the order in which it makes them. -/
def InOrder (notes : List Note) : Prop :=
  ∃ ending, notes <+: [.begun, .ended ending, .left]

theorem Course.inOrder {ι κ ε : Type} {p : Phase (Phase ι κ) (Awaiting ι κ ε)} {notes : List Note}
    (h : Course p notes) : InOrder notes := by
  cases h with
  | created => exact ⟨.completed, List.nil_prefix⟩
  | unstarted => exact ⟨.completed, List.nil_prefix⟩
  | atYield point => exact ⟨.completed, [.ended .completed, .left], rfl⟩
  | atAwait point => exact ⟨.completed, [.ended .completed, .left], rfl⟩
  | closing point => exact ⟨.closed, [.left], rfl⟩
  | finished ending => exact ⟨ending, List.prefix_refl _⟩

/-- The next note. -/
theorem InOrder.next {notes : List Note} {note : Note} (h : InOrder (notes ++ [note])) :
    notes = [] ∧ note = .begun ∨ (∃ ending, notes = [.begun] ∧ note = .ended ending) ∨
      ∃ ending, notes = [.begun, .ended ending] ∧ note = .left := by
  obtain ⟨ending, rest, hrest⟩ := h
  match notes with
  | [] =>
    simp only [List.nil_append, List.cons_append, List.cons.injEq] at hrest
    exact .inl ⟨rfl, hrest.1⟩
  | [_] =>
    simp only [List.cons_append, List.nil_append, List.cons.injEq] at hrest
    exact .inr (.inl ⟨ending, by rw [hrest.1], hrest.2.1⟩)
  | [_, _] =>
    simp only [List.cons_append, List.nil_append, List.cons.injEq] at hrest
    exact .inr (.inr ⟨ending, by rw [hrest.1, hrest.2.1], hrest.2.2.1⟩)
  | _ :: _ :: _ :: more =>
    have hlength := congrArg List.length hrest
    simp at hlength

/-- What the adapter holds of a call that has made the notes. -/
def HeldCall (notes : List Note) (call? : Option Call) : Prop :=
  match notes with
  | [.begun] => ∃ call, call? = some call ∧ call.ended = false
  | [.begun, .ended _] => ∃ call, call? = some call ∧ call.ended = true
  | _ => call? = none

section Notes
variable (reader : Reader) {c : ℕ} {call : GenerateCall} {uuid : String} {opened closed : ℚ}

/-- What each note of a call goes on with holds after all of them. -/
theorem run_notes (c : ℕ) (call : GenerateCall) (uuid : String) (opened closed : ℚ)
    {I : List Note → AdapterState → Prop}
    (hstep : ∀ notes note s, InOrder (notes ++ [note]) → I notes s →
      I (notes ++ [note]) (s.apply reader (note.op c call uuid opened closed))) :
    ∀ (new notes : List Note) (s : AdapterState), InOrder (notes ++ new) → I notes s →
      I (notes ++ new)
        (run (AdapterState.apply reader) s (new.map (Note.op c call uuid opened closed)))
  | [], notes, s, _, hi => by simpa using hi
  | note :: new, notes, s, h, hi => by
    have hsplit : notes ++ note :: new = (notes ++ [note]) ++ new := by simp
    rw [hsplit] at h ⊢
    have hnote : InOrder (notes ++ [note]) :=
      h.imp fun _ hprefix => (List.prefix_append _ _).trans hprefix
    exact run_notes c call uuid opened closed hstep new (notes ++ [note]) _ h
      (hstep notes note s hnote hi)

theorem held_note {notes : List Note} {note : Note} {s : AdapterState}
    (h : InOrder (notes ++ [note])) (hheld : HeldCall notes (s.calls.get? c)) :
    HeldCall (notes ++ [note])
      ((s.apply reader (note.op c call uuid opened closed)).calls.get? c) := by
  rcases h.next with ⟨rfl, rfl⟩ | ⟨ending, rfl, rfl⟩ | ⟨ending, rfl, rfl⟩
  · have hnone : s.calls.get? c = none := hheld
    simp only [Note.op, AdapterState.apply, hnone]
    cases call.trace with
    | none => exact ⟨_, by rw [Dict.get?_set, if_pos rfl], rfl⟩
    | some t => exact ⟨_, by rw [Dict.get?_set, if_pos rfl], rfl⟩
  · obtain ⟨call', hget, hended⟩ := hheld
    simp only [Note.op, AdapterState.apply, hget, hended]
    exact ⟨{ call' with ended := true }, by simp [Dict.get?_set], rfl⟩
  · obtain ⟨call', hget, hended⟩ := hheld
    simp only [Note.op, AdapterState.apply, hget, hended, if_true]
    show Dict.get? _ c = none
    rw [Dict.get?_erase, if_pos rfl]

/-- The notes of a call do not touch what is held of another. -/
theorem note_other {note : Note} {s : AdapterState} {d : ℕ} (hd : d ≠ c) :
    (s.apply reader (note.op c call uuid opened closed)).calls.get? d = s.calls.get? d := by
  cases note with
  | begun =>
    simp only [Note.op, AdapterState.apply]
    split
    · rfl
    · rw [Dict.get?_set, if_neg hd]
    · rw [Dict.get?_set, if_neg hd]
  | ended ending =>
    simp only [Note.op, AdapterState.apply]
    split
    · rfl
    · split
      · rfl
      · rw [Dict.get?_set, if_neg hd]
  | left =>
    simp only [Note.op, AdapterState.apply]
    split
    · rfl
    · split
      · rw [Dict.get?_erase, if_neg hd]
      · rfl

end Notes

end VllmObserver.Adapter
