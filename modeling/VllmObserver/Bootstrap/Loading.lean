import VllmObserver.Bootstrap.Install

/-! # Loading the hooked modules

The import system as the bootstrap sees it. A module enters `sys.modules` before
its body runs, the body creates and binds classes, and imports inside a body let
the bodies of several modules overlap in any way. A loader taken from the
observer's finder instruments its module when the body has ended. -/
namespace VllmObserver.Bootstrap

open Lib

/-- The parameters an installer asks of a method it wraps. -/
def contractParameters : ClassName → Method → List String
  | .openAIServingChat, .renderChatRequest => ["request"]
  | .openAIServingCompletion, .renderCompletionRequest => ["request"]
  | .inputProcessor, .processInputs => ["request_id", "prompt", "params"]
  | .chatCompletionRequest, .toSamplingParams => ["self"]
  | .completionRequest, .toSamplingParams => ["self"]
  | .asyncLLM, .addRequest => ["self"]
  | .asyncLLM, .privateAddRequest => ["request"]
  | .asyncLLM, .generate => ["request_id"]
  | .iterationStats, .updateFromFinishedRequest => ["request_id"]
  | _, _ => []

/-- The kind an installer asks for. -/
def contractKind : ClassName → Method → Option Kind
  | .asyncLLM, .addRequest => some .coroutine
  | .asyncLLM, .generate => some .asyncGenerator
  | _, _ => none

/-- The methods an installer cannot do without. -/
def contractMethods : ClassName → List Method
  | .engineCore => [.step, .stepWithBatchQueue]
  | .scheduler => [.addRequest, .schedule]
  | .asyncLLM => [.generate]
  | .iterationStats => [.updateFromFinishedRequest]
  | _ => []

def Definition.Meets (d : Definition) (n : ClassName) (m : Method) : Prop :=
  (∀ p ∈ contractParameters n m, p ∈ d.parameters) ∧ ∀ k ∈ contractKind n m, d.kind = k

instance (d : Definition) (n : ClassName) (m : Method) : Decidable (d.Meets n m) :=
  inferInstanceAs (Decidable (_ ∧ _))

/-- What a class statement has to say of a hooked class, by method. -/
structure ClassBody where
  name : ClassName
  methods : Dict Method Definition

/-- The class has the methods, parameters and kinds the installers check. -/
def ClassBody.MeetsContract (body : ClassBody) : Prop :=
  (∀ m ∈ contractMethods body.name, m ∈ body.methods.keys) ∧
    ∀ e ∈ body.methods.entries, e.2.Meets body.name e.1

instance (body : ClassBody) : Decidable body.MeetsContract := inferInstanceAs (Decidable (_ ∧ _))

/-- The class object of a class statement: nothing is wrapped yet. -/
def ClassBody.create (body : ClassBody) : ClassObj :=
  ⟨body.name, body.methods.mapValues fun _ d => .base d⟩

/-- What happens in the process, one event at a time. -/
inductive Event
  /-- An import finds the module's spec and begins to run its body. -/
  | load (t : Target)
  /-- A class statement runs, in a hooked module or in any other. -/
  | define (c : ℕ) (body : ClassBody)
  /-- The body of the module binds the class under its name. -/
  | bind (t : Target) (c : ℕ)
  /-- The body of the module defines its own `build_app`. -/
  | defineApp (t : Target) (d : Definition)
  /-- The body of the module imports `build_app` from another hooked one. -/
  | importApp (t source : Target)
  /-- The body of the module has run to its end. -/
  | finish (t : Target)
  /-- A call of `install()`, with the order of iteration over `TARGETS`. -/
  | install (order : List Target)
  /-- A call of `_instrument(module)`. -/
  | instrument (t : Target)

/-- The module while its body runs. -/
def World.running (w : World) (t : Target) : Option Module :=
  (w.modules.get? t).filter (·.initializing)

/-- The state after the class statement. -/
def World.define (w : World) (c : ℕ) (body : ClassBody) : World :=
  { w with classes := w.classes.set c body.create }

/-- The state after the binding. -/
def World.bindName (w : World) (t : Target) (mod : Module) (n : ClassName) (c : ℕ) : World :=
  w.setModule t { mod with names := mod.names.set n c }

/-- One event; `none` when it cannot happen in this state. A module is loaded
once, a class object is created once, and a body binds a hooked class once. -/
def step (sw : Switches) (w : World) : Event → Option World
  | .load t =>
    match w.modules.get? t with
    | some _ => none
    | none => some (w.setModule t ⟨true, w.finder, none, .empty⟩)
  | .define c body =>
    if w.nameAt c = none ∧ body.MeetsContract then
      some (w.define c body)
    else none
  | .bind t c =>
    match w.running t, w.nameAt c with
    | some mod, some n =>
      if mod.names.get? n = none then some (w.bindName t mod n c) else none
    | _, _ => none
  | .defineApp t d =>
    (w.running t).map fun mod => w.setModule t { mod with buildApp := some (.base d) }
  | .importApp t source =>
    match w.running t, w.buildApp source with
    | some mod, some f => some (w.setModule t { mod with buildApp := some f })
    | _, _ => none
  | .finish t =>
    match w.running t with
    | none => none
    | some mod =>
      -- `exec_module` instruments before the import system clears `_initializing`
      let w := if mod.hooked then instrument sw t w else w
      (w.modules.get? t).map fun mod => w.setModule t { mod with initializing := false }
  | .install order => if order.Perm targets then some (install sw order w) else none
  | .instrument t =>
    match w.modules.get? t with
    | none => none
    | some _ => some (instrument sw t w)

/-- The state after the events, if all of them can happen. -/
def run (sw : Switches) (w : World) : List Event → Option World
  | [] => some w
  | e :: rest => (step sw w e).bind fun w => run sw w rest

end VllmObserver.Bootstrap
