import VllmObserver.Stages.Executor
import VllmObserver.Stages.Transport

/-! # The observed engine

All wrappers of the engine process at once, around whatever EngineCore does with
its scheduler and its executor. The engine they leave differs from the plain one
in two things: it aborts expired requests before it schedules, and it repeats a
model step that has raised. -/
namespace VllmObserver.Stages
open VllmObserver.Lib VllmObserver.Core

/-- The methods of vLLM that are wrapped or called: over the engine's state `E`, with
exceptions `ε`, scheduler outputs `ς` and results `ν` of the executor. -/
structure EngineCore (E ε ς ν : Type) where
  addRequest : Request → E → E × Except ε Unit
  schedule : E → E × Except ε ς
  executeModel : ς → E → E × Except ε ν
  finishRequests : List String → E → E × Except ε Unit
  requests : E → Requests
  numScheduledTokens : ς → Dict String ℤ
  isFuture : ν → Bool

/-- The code of a step, as it calls the scheduler and the executor. -/
inductive StepCode (E ε ς ν ρ : Type) where
  | own (change : E → E) (next : E → StepCode E ε ς ν ρ)
  | schedule (next : Except ε ς → StepCode E ε ς ν ρ)
  | executeModel (output : ς) (next : Except ε ν → StepCode E ε ς ν ρ)
  | ends (result : Except ε ρ)

/-- What stands in the place of the wrapped methods, over a state `W` of its own. -/
structure Hooks (E ε ς ν W : Type) where
  addRequest : Request → E → W → E × W × Except ε Unit
  schedule : E → W → E × W × Except ε ς
  executeModel : ς → E → W → E × W × Except ε ν
  outputs : List (List Output) → W → W × List (List Output)
  executed : List String → ℚ → ℚ → W → W

/-- What happens in the engine process: a call of `add_request`, a step, something
of vLLM's own, or the end of a future of the executor. -/
inductive EngineTurn (E ε ς ν ρ : Type) where
  | addRequest (request : Request)
  | step (code : StepCode E ε ς ν (List (List Output) × ρ))
  | own (change : E → E)
  | executed (requestIds : List String) (started ended : ℚ)

inductive EngineReply (ε ρ : Type) where
  | added (result : Except ε Unit)
  | stepped (result : Except ε (List (List Output) × ρ))

structure EngineProcess (E ε ρ W : Type) where
  engine : E
  watch : W
  replies : List (EngineReply ε ρ) := []

section Process
variable {E ε ς ν ρ W V : Type}

def StepCode.run (hooks : Hooks E ε ς ν W) : StepCode E ε ς ν ρ → E → W → E × W × Except ε ρ
  | .own change next, e, w => (next e).run hooks (change e) w
  | .schedule next, e, w =>
    let scheduled := hooks.schedule e w
    (next scheduled.2.2).run hooks scheduled.1 scheduled.2.1
  | .executeModel output next, e, w =>
    let executed := hooks.executeModel output e w
    (next executed.2.2).run hooks executed.1 executed.2.1
  | .ends result, e, w => (e, w, result)

def EngineProcess.turn (hooks : Hooks E ε ς ν W) (s : EngineProcess E ε ρ W) :
    EngineTurn E ε ς ν ρ → EngineProcess E ε ρ W
  | .addRequest request =>
    let added := hooks.addRequest request s.engine s.watch
    ⟨added.1, added.2.1, s.replies ++ [.added added.2.2]⟩
  | .step code =>
    match code.run hooks s.engine s.watch with
    | (engine, watch, .error e) => ⟨engine, watch, s.replies ++ [.stepped (.error e)]⟩
    | (engine, watch, .ok (batches, rest)) =>
      let sent := hooks.outputs batches watch
      ⟨engine, sent.1, s.replies ++ [.stepped (.ok (sent.2, rest))]⟩
  | .own change => { s with engine := change s.engine }
  | .executed requestIds started ended =>
    { s with watch := hooks.executed requestIds started ended s.watch }

end Process

/-! ## The wrappers -/

/-- What the guard of one `schedule` meets. -/
structure GuardReading where
  deadline : Option String
  importable : Bool
  now : ℚ

/-- The settings and the clocks of the process. The clock wrapper stands inside or
outside the other one, if Langfuse is enabled. -/
structure Host where
  reader : Reader
  guards : ℕ → GuardReading
  clock : ℕ → ℚ
  dumps : Record → Except PyError String
  writer : Writer
  calibration : ℕ → ClockReading
  langfuse : Option Nesting

/-- The registry, and how often a clock was read and `schedule` called. -/
structure Watch where
  registry : Registry := Dict.empty
  schedules : ℕ := 0
  reads : ℕ := 0

section Wrappers
variable {E ε ς ν : Type} (engine : EngineCore E ε ς ν) (host : Host)

/-- `drop_expired`, for what it does to the engine. What it raises is logged. -/
def EngineCore.dropExpired (guard : GuardReading) (e : E) : E :=
  match deadlineSeconds host.reader guard.deadline with
  | .error _ => e
  | .ok ttl =>
    if ttl.le (.fin 0) || !guard.importable then e
    else
      let requestIds := expired ttl guard.now (engine.requests e)
      if requestIds.isEmpty then e else (engine.finishRequests requestIds e).1

def EngineCore.observedAddRequest (request : Request) (e : E) (w : Watch) :
    E × Watch × Except ε Unit :=
  match engine.addRequest request e with
  | (e, .error raised) => (e, w, .error raised)
  | (e, .ok ()) => (e, { w with
      registry := w.registry.observedAddRequest request.requestId (host.clock w.reads)
      reads := w.reads + 1 }, .ok ())

/-- `guarded` around `observed_schedule`. -/
def EngineCore.observedSchedule (e : E) (w : Watch) : E × Watch × Except ε ς :=
  match engine.schedule (engine.dropExpired host (host.guards w.schedules) e) with
  | (e, .error raised) =>
    (e, { w with schedules := w.schedules + 1, reads := w.reads + 1 }, .error raised)
  | (e, .ok output) => (e, {
      registry := w.registry.observedSchedule (engine.numScheduledTokens output)
        (host.clock (w.reads + 2)) (host.clock (w.reads + 1) - host.clock w.reads)
      schedules := w.schedules + 1
      reads := w.reads + 3 }, .ok output)

/-- The observer's steps around `execute_model`, of which none raises. -/
def EngineCore.bookkeeping (output : ς) (w : Watch) : Bookkeeping ν Empty where
  debug := false
  requestIds := .ok (engine.numScheduledTokens output).keys
  debugLog := .ok ()
  startClock := .ok (host.clock w.reads)
  isFuture := fun value => .ok (engine.isFuture value)
  addDoneCallback := fun _ => .ok ()
  callbackLog := .ok ()
  endClock := .ok (host.clock (w.reads + 1))
  recordExecute := fun _ _ _ => .ok ()
  recoveryLog := .ok ()

/-- The call is recorded at once unless it gave a future or was repeated. -/
def EngineCore.recorded (output : ς) (w : Watch) : List ς → Outcome ν ε Empty → Watch
  | [_], .returned value =>
    let requestIds := (engine.numScheduledTokens output).keys
    if !requestIds.isEmpty && engine.isFuture value then { w with reads := w.reads + 1 }
    else { w with
      registry :=
        w.registry.recordExecute requestIds (host.clock w.reads) (host.clock (w.reads + 1))
      reads := w.reads + 2 }
  | _, _ => { w with reads := w.reads + 1 }

def Outcome.result : Outcome ν ε Empty → Except ε ν
  | .returned value => .ok value
  | .raised e => .error e

def EngineCore.timedExecute (output : ς) (e : E) (w : Watch) : E × Watch × Except ε ν :=
  let served := Stages.timedExecute engine.executeModel (engine.bookkeeping host output w) output
    ⟨e, []⟩
  (served.1.state, engine.recorded host output w served.1.calls served.2, served.2.result)

/-- The wrappers of a step. -/
def Host.outputs (batches : List (List Output)) (w : Watch) : Watch × List (List Output) :=
  let sent := match host.langfuse with
    | none => attachBatches host.dumps w.registry batches
    | some nesting =>
      observedStep host.dumps host.writer (host.calibration w.reads) nesting w.registry batches
  ({ w with registry := sent.1, reads := w.reads + 1 }, sent.2)

def observedHooks : Hooks E ε ς ν Watch where
  addRequest := engine.observedAddRequest host
  schedule := engine.observedSchedule host
  executeModel := engine.timedExecute host
  outputs := host.outputs
  executed := fun requestIds started ended w =>
    { w with registry := w.registry.recordExecute requestIds started ended }

/-- A model step, once more when it raises. -/
def EngineCore.repeatedExecute (output : ς) (e : E) : E × Except ε ν :=
  match engine.executeModel output e with
  | (e, .ok value) => (e, .ok value)
  | (e, .error _) => engine.executeModel output e

/-- The engine as it is, but that it aborts what has expired before it schedules and
repeats a model step that has raised. Only the calls of `schedule` are counted. -/
def abortingHooks : Hooks E ε ς ν ℕ where
  addRequest := fun request e n =>
    ((engine.addRequest request e).1, n, (engine.addRequest request e).2)
  schedule := fun e n =>
    let scheduled := engine.schedule (engine.dropExpired host (host.guards n) e)
    (scheduled.1, n + 1, scheduled.2)
  executeModel := fun output e n =>
    ((engine.repeatedExecute output e).1, n, (engine.repeatedExecute output e).2)
  outputs := fun batches n => (n, batches)
  executed := fun _ _ _ n => n

end Wrappers

/-- The engine as it is. -/
def plainHooks {E ε ς ν : Type} (engine : EngineCore E ε ς ν) : Hooks E ε ς ν Unit where
  addRequest := fun request e _ =>
    ((engine.addRequest request e).1, (), (engine.addRequest request e).2)
  schedule := fun e _ => ((engine.schedule e).1, (), (engine.schedule e).2)
  executeModel := fun output e _ =>
    ((engine.executeModel output e).1, (), (engine.executeModel output e).2)
  outputs := fun batches _ => ((), batches)
  executed := fun _ _ _ _ => ()

/-! ## Simulation

Hooks are compared along a view of their states: what they do to the engine and
answer to its code is the same, and the outputs they send differ at most in the
headers of the observer. -/

structure SameOutput (output output' : Output) : Prop where
  requestId : output'.requestId = output.requestId
  finished : output'.finished = output.finished
  others : ∀ key, key ∉ observerKeys → output'.header key = output.header key

abbrev SameBatches : List (List Output) → List (List Output) → Prop :=
  List.Forall₂ (List.Forall₂ SameOutput)

inductive SameReply {ε ρ : Type} : EngineReply ε ρ → EngineReply ε ρ → Prop where
  | added (result : Except ε Unit) : SameReply (.added result) (.added result)
  | raised (e : ε) : SameReply (.stepped (.error e)) (.stepped (.error e))
  | stepped {batches batches' : List (List Output)} (h : SameBatches batches batches') (rest : ρ) :
      SameReply (.stepped (.ok (batches, rest))) (.stepped (.ok (batches', rest)))

structure Refines {E ε ς ν W V : Type} (hooks : Hooks E ε ς ν W) (hooks' : Hooks E ε ς ν V)
    (view : W → V) : Prop where
  addRequest : ∀ request e w, hooks'.addRequest request e (view w) =
    ((hooks.addRequest request e w).1, view (hooks.addRequest request e w).2.1,
      (hooks.addRequest request e w).2.2)
  schedule : ∀ e w, hooks'.schedule e (view w) =
    ((hooks.schedule e w).1, view (hooks.schedule e w).2.1, (hooks.schedule e w).2.2)
  executeModel : ∀ output e w, hooks'.executeModel output e (view w) =
    ((hooks.executeModel output e w).1, view (hooks.executeModel output e w).2.1,
      (hooks.executeModel output e w).2.2)
  outputs : ∀ batches w, (hooks'.outputs batches (view w)).1 = view (hooks.outputs batches w).1 ∧
    SameBatches (hooks'.outputs batches (view w)).2 (hooks.outputs batches w).2
  executed : ∀ requestIds started ended w, hooks'.executed requestIds started ended (view w) =
    view (hooks.executed requestIds started ended w)

/-- The second process is the first one in the view. -/
structure Mirrors {E ε ρ W V : Type} (view : W → V) (s : EngineProcess E ε ρ W)
    (s' : EngineProcess E ε ρ V) : Prop where
  engine : s'.engine = s.engine
  watch : s'.watch = view s.watch
  replies : List.Forall₂ SameReply s'.replies s.replies

section Simulation
variable {E ε ς ν ρ W V : Type} {hooks : Hooks E ε ς ν W} {hooks' : Hooks E ε ς ν V} {view : W → V}

theorem StepCode.run_refines (h : Refines hooks hooks' view) (code : StepCode E ε ς ν ρ) :
    ∀ e w, code.run hooks' e (view w) =
      ((code.run hooks e w).1, view (code.run hooks e w).2.1, (code.run hooks e w).2.2) := by
  induction code with
  | own change next ih => exact fun e w => ih e (change e) w
  | schedule next ih =>
    intro e w
    simp only [StepCode.run, h.schedule]
    exact ih _ _ _
  | executeModel output next ih =>
    intro e w
    simp only [StepCode.run, h.executeModel]
    exact ih _ _ _
  | ends result => exact fun _ _ => rfl

theorem Mirrors.turn (h : Refines hooks hooks' view) {s : EngineProcess E ε ρ W}
    {s' : EngineProcess E ε ρ V} (hs : Mirrors view s s') (turn : EngineTurn E ε ς ν ρ) :
    Mirrors view (s.turn hooks turn) (s'.turn hooks' turn) := by
  obtain ⟨engine, watch, replies⟩ := s'
  obtain ⟨rfl, rfl, hreplies⟩ := hs
  cases turn with
  | addRequest request =>
    simp only [EngineProcess.turn, h.addRequest]
    exact ⟨rfl, rfl, List.rel_append hreplies (.cons (.added _) .nil)⟩
  | step code =>
    simp only [EngineProcess.turn, code.run_refines h]
    obtain ⟨engine, watch, result⟩ := code.run hooks s.engine s.watch
    cases result with
    | error e => exact ⟨rfl, rfl, List.rel_append hreplies (.cons (.raised e) .nil)⟩
    | ok result =>
      obtain ⟨hwatch, hbatches⟩ := h.outputs result.1 watch
      exact ⟨rfl, hwatch, List.rel_append hreplies (.cons (.stepped hbatches result.2) .nil)⟩
  | own change => exact ⟨rfl, rfl, hreplies⟩
  | executed requestIds started ended =>
    exact ⟨rfl, h.executed requestIds started ended s.watch, hreplies⟩

theorem Mirrors.run (h : Refines hooks hooks' view) :
    ∀ (turns : List (EngineTurn E ε ς ν ρ)) {s : EngineProcess E ε ρ W}
      {s' : EngineProcess E ε ρ V}, Mirrors view s s' →
      Mirrors view (run (EngineProcess.turn hooks) s turns)
        (run (EngineProcess.turn hooks') s' turns)
  | [], _, _, hs => hs
  | turn :: rest, _, _, hs => Mirrors.run h rest (hs.turn h turn)

end Simulation

/-! ## The wrappers against the engine -/

theorem forall₂_trans {α : Type} {R : α → α → Prop} (h : ∀ a b c, R a b → R b c → R a c) :
    ∀ xs ys zs : List α, List.Forall₂ R xs ys → List.Forall₂ R ys zs → List.Forall₂ R xs zs
  | _, _, _, .nil, .nil => .nil
  | _, _, _, .cons hab hxs, .cons hbc hys =>
    .cons (h _ _ _ hab hbc) (forall₂_trans h _ _ _ hxs hys)

theorem SameOutput.refl (output : Output) : SameOutput output output := ⟨rfl, rfl, fun _ _ => rfl⟩

theorem SameOutput.trans {output output' output'' : Output} (h : SameOutput output output')
    (h' : SameOutput output' output'') : SameOutput output output'' :=
  ⟨h'.requestId.trans h.requestId, h'.finished.trans h.finished,
    fun key hk => (h'.others key hk).trans (h.others key hk)⟩

theorem SameBatches.trans {batches batches' batches'' : List (List Output)}
    (h : SameBatches batches batches') (h' : SameBatches batches' batches'') :
    SameBatches batches batches'' :=
  forall₂_trans (forall₂_trans fun _ _ _ h h' => h.trans h') _ _ _ h h'

theorem SameBatches.refl (batches : List (List Output)) : SameBatches batches batches :=
  List.forall₂_same.mpr fun _ _ => List.forall₂_same.mpr fun output _ => .refl output

theorem Refines.trans {E ε ς ν W V U : Type} {hooks : Hooks E ε ς ν W} {hooks' : Hooks E ε ς ν V}
    {hooks'' : Hooks E ε ς ν U} {view : W → V} {view' : V → U} (h : Refines hooks hooks' view)
    (h' : Refines hooks' hooks'' view') : Refines hooks hooks'' (view' ∘ view) where
  addRequest := by
    intro request e w
    rw [Function.comp_apply, h'.addRequest, h.addRequest]
    rfl
  schedule := by
    intro e w
    rw [Function.comp_apply, h'.schedule, h.schedule]
    rfl
  executeModel := by
    intro output e w
    rw [Function.comp_apply, h'.executeModel, h.executeModel]
    rfl
  outputs := by
    intro batches w
    obtain ⟨hwatch, hsame⟩ := h.outputs batches w
    obtain ⟨hwatch', hsame'⟩ := h'.outputs batches (view w)
    exact ⟨hwatch'.trans (congrArg view' hwatch), hsame'.trans hsame⟩
  executed := by
    intro requestIds started ended w
    rw [Function.comp_apply, h'.executed, h.executed]
    rfl

section Outputs
variable {dumps : Record → Except PyError String} {writer : Writer} {reading : ClockReading}

theorem sameOutput_attached {output : Output} (registry : Registry) :
    SameOutput output (attached dumps registry output) :=
  ⟨attached_requestId, attached_finished, fun _ hk => header_attached_other fun he =>
    hk (List.mem_append_right _ (List.mem_singleton.mpr he))⟩

theorem sameOutput_stamped {output : Output} : SameOutput output (stamped writer reading output) :=
  ⟨stamped_requestId, stamped_finished, fun _ hk => header_stamped_other fun hc =>
    hk (List.mem_append_left _ hc)⟩

theorem sameOutputs_attach : ∀ (outputs : List Output) (registry : Registry),
    List.Forall₂ SameOutput outputs (attachOutputs dumps registry outputs).2
  | [], _ => .nil
  | output :: rest, registry => by
    have hsame : SameOutput output (attached dumps registry output) := sameOutput_attached registry
    simp only [attachOutputs]
    refine .cons ?_ (sameOutputs_attach rest _)
    unfold attached at hsame
    split
    · rwa [if_pos ‹_›] at hsame
    · exact .refl output

theorem sameBatches_attach : ∀ (batches : List (List Output)) (registry : Registry),
    SameBatches batches (attachBatches dumps registry batches).2
  | [], _ => .nil
  | outputs :: rest, registry => .cons (sameOutputs_attach outputs registry)
      (sameBatches_attach rest _)

theorem sameBatches_stamp (batches : List (List Output)) :
    SameBatches batches (stampOutputs writer reading batches) := by
  rw [stampOutputs_map]
  refine List.forall₂_map_right_iff.mpr (List.forall₂_same.mpr fun outputs _ => ?_)
  exact List.forall₂_map_right_iff.mpr (List.forall₂_same.mpr fun _ _ => sameOutput_stamped)

theorem sameBatches_observedStep (nesting : Nesting) (registry : Registry)
    (batches : List (List Output)) :
    SameBatches batches (observedStep dumps writer reading nesting registry batches).2 := by
  cases nesting with
  | clockInside => exact (sameBatches_stamp batches).trans (sameBatches_attach _ registry)
  | stagesInside => exact (sameBatches_attach batches registry).trans (sameBatches_stamp _)

end Outputs

section Engine
variable {E ε ς ν ρ : Type} (engine : EngineCore E ε ς ν) (host : Host)

theorem invoke_result (output : ς) (s : Served E ς) :
    ((invoke engine.executeModel output s : Served E ς × Outcome ν ε Empty).1.state,
      (invoke engine.executeModel output s : Served E ς × Outcome ν ε Empty).2.result) =
      engine.executeModel output s.state := by
  unfold invoke
  split <;> exact Eq.symm ‹_›

theorem timedExecute_result (output : ς) (e : E) (w : Watch) :
    ((engine.timedExecute host output e w).1, (engine.timedExecute host output e w).2.2) =
      engine.repeatedExecute output e := by
  have hbefore : (engine.bookkeeping host output w).before =
      .ok ((engine.numScheduledTokens output).keys, host.clock w.reads) := rfl
  have hafter (ids : List String) (started : ℚ) (value : ν) :
      (engine.bookkeeping host output w).after ids started value = .ok () := by
    unfold Bookkeeping.after
    split
    · rfl
    · change (if engine.isFuture value then _ else _) = _
      split <;> rfl
  unfold EngineCore.timedExecute EngineCore.repeatedExecute
  cases hx : engine.executeModel output e with
  | mk state result =>
    cases result with
    | ok value =>
      rw [timedExecute_of_returned hbefore hx (hafter _ _ value)]
      rfl
    | error raised =>
      rw [timedExecute_of_raised hbefore hx]
      exact invoke_result engine output _

/-- Only `schedule` is counted. -/
theorem recorded_schedules (output : ς) (w : Watch) (calls : List ς) (outcome : Outcome ν ε Empty) :
    (engine.recorded host output w calls outcome).schedules = w.schedules := by
  unfold EngineCore.recorded
  split
  · simp only
    split <;> rfl
  · rfl

theorem sameBatches_outputs (batches : List (List Output)) (w : Watch) :
    SameBatches batches (host.outputs batches w).2 := by
  unfold Host.outputs
  cases host.langfuse with
  | none => exact sameBatches_attach batches w.registry
  | some nesting => exact sameBatches_observedStep nesting w.registry batches

theorem observed_refines_aborting :
    Refines (observedHooks engine host) (abortingHooks engine host) Watch.schedules where
  addRequest := by
    intro request e w
    simp only [observedHooks, abortingHooks, EngineCore.observedAddRequest]
    split <;> simp [*]
  schedule := by
    intro e w
    simp only [observedHooks, abortingHooks, EngineCore.observedSchedule]
    split <;> simp [*]
  executeModel := by
    intro output e w
    have hschedules : (engine.timedExecute host output e w).2.1.schedules = w.schedules :=
      recorded_schedules ..
    simp only [observedHooks, abortingHooks, ← timedExecute_result engine host output e w,
      hschedules]
  outputs := fun batches w => ⟨rfl, sameBatches_outputs host batches w⟩
  executed := fun _ _ _ _ => rfl

/-- **The observed engine.** Whatever EngineCore does with its scheduler and its
executor, the observed process is the one that aborts what has expired and
repeats a model step that has raised: the engine is in the same state, and its
callers have the same answers, up to the observer's headers. -/
theorem observed_engine (e : E) (turns : List (EngineTurn E ε ς ν ρ)) :
    Mirrors Watch.schedules
      (run (EngineProcess.turn (observedHooks engine host)) ⟨e, {}, []⟩ turns)
      (run (EngineProcess.turn (abortingHooks engine host)) ⟨e, 0, []⟩ turns) :=
  Mirrors.run (observed_refines_aborting engine host) turns ⟨rfl, rfl, .nil⟩

/-- There is no deadline, and no model step raises. -/
structure Undisturbed : Prop where
  deadline : ∀ n, ∃ ttl, deadlineSeconds host.reader (host.guards n).deadline = .ok ttl ∧
    ttl.le (.fin 0) = true
  executes : ∀ output e, ∃ value, (engine.executeModel output e).2 = .ok value

variable {engine host}

theorem Undisturbed.dropExpired (h : Undisturbed engine host) (n : ℕ) (e : E) :
    engine.dropExpired host (host.guards n) e = e := by
  obtain ⟨ttl, hread, hle⟩ := h.deadline n
  simp only [EngineCore.dropExpired, hread, hle, Bool.true_or, if_true]

theorem Undisturbed.repeatedExecute (h : Undisturbed engine host) (output : ς) (e : E) :
    engine.repeatedExecute output e = engine.executeModel output e := by
  obtain ⟨value, hvalue⟩ := h.executes output e
  unfold EngineCore.repeatedExecute
  split
  · exact Eq.symm ‹_›
  · rename_i hraised
    rw [hraised] at hvalue
    cases hvalue

theorem aborting_refines_plain (h : Undisturbed engine host) :
    Refines (abortingHooks engine host) (plainHooks engine) fun _ => () where
  addRequest := fun _ _ _ => rfl
  schedule := by
    intro e n
    simp only [plainHooks, abortingHooks, h.dropExpired]
  executeModel := by
    intro output e n
    simp only [plainHooks, abortingHooks, h.repeatedExecute]
  outputs := fun batches _ => ⟨rfl, .refl batches⟩
  executed := fun _ _ _ _ => rfl

/-- With no deadline set and a model that does not raise, the observed engine is
the plain one. -/
theorem observed_engine_plain (h : Undisturbed engine host) (e : E)
    (turns : List (EngineTurn E ε ς ν ρ)) :
    Mirrors (fun _ => ())
      (run (EngineProcess.turn (observedHooks engine host)) ⟨e, {}, []⟩ turns)
      (run (EngineProcess.turn (plainHooks engine)) ⟨e, (), []⟩ turns) :=
  Mirrors.run ((observed_refines_aborting engine host).trans (aborting_refines_plain h)) turns
    ⟨rfl, rfl, .nil⟩

end Engine

end VllmObserver.Stages
