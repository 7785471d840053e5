import VllmObserver.Bootstrap.Objects

/-! # The installers

Each installer reads a method, looks for its own attribute on it, and assigns a
wrapper. An exception ends an installer where it stands and keeps what was
assigned before it. -/
namespace VllmObserver.Bootstrap

open Lib

/-- The state a piece of patching code leaves, and the exception that ended it. -/
abbrev Patched := World × Option PyError

/-- The next statement, unless an exception was raised. -/
def andThen (r : Patched) (next : World → Patched) : Patched :=
  match r with
  | (w, none) => next w
  | (w, some e) => (w, some e)

/-- A statement under an `if`. -/
def onlyIf (condition : Bool) (body : World → Patched) (w : World) : Patched :=
  if condition then body w else (w, none)

/-- Wrap the method unless it is missing or carries the layer's attribute. -/
def wrapMethod (layer : Layer) (wrap : Func → Except PyError Func) (t : Target) (n : ClassName)
    (m : Method) (w : World) : Patched :=
  match w.method t n m with
  | none => (w, none)
  | some method =>
    if layer.mark ∈ method.attributes then (w, none)
    else
      match wrap method with
      | .ok wrapped => (w.setMethod t n m wrapped, none)
      | .error e => (w, some e)

/-- The common part of `_timed_async` and `_timed_sync`. -/
def timed (kind : Kind) (method : Func) (contract : List String) : Except PyError Func :=
  if contract.all (· ∈ method.parameters) then
    .ok (method.wraps .stages kind [.observerStages])
  else .error (.runtimeError ("Unsupported " ++ method.qualname ++ " contract"))

def timedAsync : Func → List String → Except PyError Func := timed .coroutine

def timedSync : Func → List String → Except PyError Func := timed .plain

/-- The loop of `install_serving` and `install_protocol`: every hook that is
there is wrapped, and it is an error when none is. -/
def installEach (wrap : Func → Except PyError Func) (missing : String) (t : Target)
    (hooks : List (ClassName × Method)) (w : World) : Patched :=
  andThen (hooks.foldl (fun r h => andThen r (wrapMethod .stages wrap t h.1 h.2)) (w, none))
    fun w =>
      if hooks.any (fun h => (w.method t h.1 h.2).isSome) then (w, none)
      else (w, some (.runtimeError (missing ++ t.name)))

def servingHooks : List (ClassName × Method) :=
  [(.openAIServingChat, .renderChatRequest), (.openAIServingCompletion, .renderCompletionRequest)]

def installServing (t : Target) : World → Patched :=
  installEach (timedAsync · ["request"]) "No serving render hook found in " t servingHooks

def installInputProcessor (t : Target) : World → Patched :=
  wrapMethod .stages (timedSync · ["request_id", "prompt", "params"]) t .inputProcessor
    .processInputs

def protocolHooks : List (ClassName × Method) :=
  [(.chatCompletionRequest, .toSamplingParams), (.completionRequest, .toSamplingParams)]

def installProtocol (t : Target) : World → Patched :=
  installEach (timedSync · ["self"]) "No sampling params hook found in " t protocolHooks

/-- `add_request` is wrapped where it is a coroutine; a contract it fails is
logged and the next hook tried. -/
def installAddRequest (w : World) : World :=
  match w.method .engine .asyncLLM .addRequest with
  | none => w
  | some addRequest =>
    if addRequest.kind = .coroutine ∧ .observerStages ∉ addRequest.attributes then
      match timedAsync addRequest ["self"] with
      | .ok wrapped => w.setMethod .engine .asyncLLM .addRequest wrapped
      | .error _ => w
    else w

/-- `AsyncLLM` is the one bound in `vllm.v1.engine.async_llm`. -/
def installAsyncLlm (w : World) : Patched :=
  wrapMethod .stages (timedAsync · ["request"]) .engine .asyncLLM .privateAddRequest
    (installAddRequest w)

/-- Both methods are wrapped when `schedule` has no attribute yet. -/
def installScheduler (t : Target) (w : World) : Patched :=
  match w.method t .scheduler .addRequest, w.method t .scheduler .schedule with
  | some addRequest, some schedule =>
    if .observerStages ∈ schedule.attributes then (w, none)
    else
      let observedAddRequest := addRequest.wraps .stages .plain [.observerStages]
      let observedSchedule := schedule.wraps .stages .plain [.observerStages]
      ((w.setMethod t .scheduler .addRequest observedAddRequest).setMethod t .scheduler .schedule
        observedSchedule, none)
  | _, _ => (w, some (.runtimeError "Unsupported vLLM Scheduler contract"))

/-- `deadline.install`. -/
def installDeadline (t : Target) (w : World) : Patched :=
  match w.method t .scheduler .schedule with
  | none => (w, some (.runtimeError "Unsupported vLLM Scheduler contract"))
  | some _ =>
    wrapMethod .deadline (fun f => .ok (f.wraps .deadline .plain [.observerDeadline])) t .scheduler
      .schedule w

def stepMethods : List Method := [.step, .stepWithBatchQueue]

/-- `EngineCore` is the one bound in `vllm.v1.engine.core`. -/
def installEngineCore (w : World) : Patched :=
  stepMethods.foldl (fun r m => andThen r
    (wrapMethod .stages (fun f => .ok (f.wraps .stages .plain [.observerStages])) .core .engineCore
      m)) (w, none)

/-- The body of the loop of `engine_clock.install`, which reads the attribute with no default. -/
def wrapClock (m : Method) (w : World) : Patched :=
  match w.method .core .engineCore m with
  | none => (w, some (.attributeError "EngineCore"))
  | some _ =>
    wrapMethod .clock (fun f => .ok (f.wraps .clock .plain [.observerClock])) .core .engineCore m w

/-- `engine_clock.install`. -/
def installClock (w : World) : Patched :=
  stepMethods.foldl (fun r m => andThen r (wrapClock m)) (w, none)

/-- `update_from_output` is wrapped where the class has it. -/
def installOutputUpdate (w : World) : World :=
  match w.method .stats .iterationStats .updateFromOutput with
  | none => w
  | some outputUpdate =>
    w.setMethod .stats .iterationStats .updateFromOutput (outputUpdate.wraps .adapter .plain [])

/-- `adapter.install`: one attribute, on `generate`, guards three wrappers on two classes. -/
def installAdapter (w : World) : Patched :=
  match w.method .engine .asyncLLM .generate with
  | none => (w, some (.attributeError "generate"))
  | some generate =>
    if .observer ∈ generate.attributes then (w, none)
    else
      match w.method .stats .iterationStats .updateFromFinishedRequest with
      | none => (w, some (.attributeError "update_from_finished_request"))
      | some update =>
        if "request_id" ∉ generate.parameters ∨ generate.kind ≠ .asyncGenerator then
          (w, some (.runtimeError "Unsupported vLLM AsyncLLM.generate contract"))
        else if "request_id" ∉ update.parameters then
          (w, some (.runtimeError "Unsupported vLLM request statistics contract"))
        else
          let w := w.setMethod .engine .asyncLLM .generate
            (generate.wraps .adapter .asyncGenerator [.observer])
          let w := w.setMethod .stats .iterationStats .updateFromFinishedRequest
            (update.wraps .adapter .plain [])
          (installOutputUpdate w, none)

/-- `_instrument_app`. -/
def instrumentApp (t : Target) (w : World) : World :=
  match w.buildApp t with
  | none => w
  | some original =>
    if .observerBootstrap ∈ original.attributes then w
    else w.setBuildApp t (original.wraps .bootstrap .plain [.observerBootstrap])

/-- The installers of `vllm.v1.engine.core`: the clock asks for both methods first. -/
def instrumentCore (sw : Switches) (w : World) : Patched :=
  match w.bound .core .engineCore with
  | none => (w, some (.attributeError "EngineCore"))
  | some _ =>
    andThen (installEngineCore w) <| onlyIf sw.langfuse fun w =>
      if stepMethods.all (fun m => (w.method .core .engineCore m).isSome) then installClock w
      else (w, some (.runtimeError "Unsupported vLLM EngineCore step contract"))

/-- The adapter needs both classes, whichever module came last. -/
def instrumentEngine (w : World) : Patched :=
  match w.bound .engine .asyncLLM, w.bound .stats .iterationStats with
  | some _, some _ => andThen (installAsyncLlm w) installAdapter
  | _, _ => (w, none)

/-- The engine part of `_instrument`, chosen by the module's name. -/
def instrumentHooks (sw : Switches) (w : World) : Target → Patched
  | .servingChat => installServing .servingChat w
  | .servingCompletion => installServing .servingCompletion w
  | .protocolChat => installProtocol .protocolChat w
  | .protocolCompletion => installProtocol .protocolCompletion w
  | .inputProcessor => installInputProcessor .inputProcessor w
  | .scheduler => andThen (installScheduler .scheduler w) (installDeadline .scheduler)
  | .core => instrumentCore sw w
  | .engine => instrumentEngine w
  | .stats => instrumentEngine w
  | .launchersApp => (w, none)
  | .apiServer => (w, none)

/-- `_instrument`: an exception is logged and the import goes on. -/
def instrument (sw : Switches) (t : Target) (w : World) : World :=
  let w := if t ∈ apps then instrumentApp t w else w
  match onlyIf sw.engine (instrumentHooks sw · t) w with
  | (w, none) => w
  | (w, some e) => { w with warnings := w.warnings ++ [(t, e)] }

/-- The modules whose body has run, in the order of iteration over `TARGETS`. -/
def instrumentLoaded (sw : Switches) (order : List Target) (w : World) : World :=
  order.foldl (fun w t => if w.Finished t then instrument sw t w else w) w

/-- `install`. `TARGETS` is a set, so its order is one of the process. -/
def install (sw : Switches) (order : List Target) (w : World) : World :=
  if sw.observer then instrumentLoaded sw order { w with finder := true } else w

end VllmObserver.Bootstrap
