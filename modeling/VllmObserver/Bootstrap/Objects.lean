import VllmObserver.Lib.Dict
import VllmObserver.Lib.Layered

/-! # The objects the bootstrap patches

The modules of `sys.modules` that the import hook watches, the classes bound in
them, and the functions their methods are. A method is replaced by assigning a
wrapper to the class, so a class object imported into a second module is patched
there too. -/
namespace VllmObserver.Bootstrap

open Lib

/-- The hooked modules. -/
inductive Target
  | core
  | engine
  | stats
  | inputProcessor
  | scheduler
  | servingChat
  | servingCompletion
  | protocolChat
  | protocolCompletion
  | launchersApp
  | apiServer
  deriving DecidableEq

/-- `APPS`. -/
def apps : List Target := [.launchersApp, .apiServer]

/-- `TARGETS`. -/
def targets : List Target :=
  [.core, .engine, .stats, .inputProcessor, .scheduler, .servingChat, .servingCompletion,
    .protocolChat, .protocolCompletion] ++ apps

theorem mem_targets (t : Target) : t ∈ targets := by cases t <;> decide

/-- `module.__name__`. -/
def Target.name : Target → String
  | .core => "vllm.v1.engine.core"
  | .engine => "vllm.v1.engine.async_llm"
  | .stats => "vllm.v1.metrics.stats"
  | .inputProcessor => "vllm.v1.engine.input_processor"
  | .scheduler => "vllm.v1.core.sched.scheduler"
  | .servingChat => "vllm.entrypoints.openai.chat_completion.serving"
  | .servingCompletion => "vllm.entrypoints.openai.completion.serving"
  | .protocolChat => "vllm.entrypoints.openai.chat_completion.protocol"
  | .protocolCompletion => "vllm.entrypoints.openai.completion.protocol"
  | .launchersApp => "vllm.entrypoints.launchers.app"
  | .apiServer => "vllm.entrypoints.openai.api_server"

/-- The environment's switches: `OBSERVER_ENABLED`, `OBSERVER_ENGINE_ENABLED`
and `OBSERVER_LANGFUSE_ENABLED`. -/
structure Switches where
  observer : Bool
  engine : Bool
  langfuse : Bool

/-- The classes with hooked methods. -/
inductive ClassName
  | engineCore
  | asyncLLM
  | iterationStats
  | inputProcessor
  | scheduler
  | openAIServingChat
  | openAIServingCompletion
  | chatCompletionRequest
  | completionRequest
  deriving DecidableEq

/-- The methods the installers name; `privateAddRequest` is `_add_request`. -/
inductive Method
  | step
  | stepWithBatchQueue
  | addRequest
  | privateAddRequest
  | generate
  | schedule
  | updateFromFinishedRequest
  | updateFromOutput
  | processInputs
  | renderChatRequest
  | renderCompletionRequest
  | toSamplingParams
  deriving DecidableEq

/-- What wraps a method. -/
inductive Layer
  | bootstrap
  | stages
  | clock
  | deadline
  | adapter
  deriving DecidableEq

/-- The attributes the observer sets on its wrappers. -/
inductive Attribute
  | observerBootstrap
  | observerStages
  | observerClock
  | observerDeadline
  | observer
  deriving DecidableEq

def Layer.mark : Layer → Attribute
  | .bootstrap => .observerBootstrap
  | .stages => .observerStages
  | .clock => .observerClock
  | .deadline => .observerDeadline
  | .adapter => .observer

theorem Layer.mark_injective : Function.Injective Layer.mark := by
  intro l l' h
  cases l <;> cases l' <;> first | rfl | cases h

/-- What `inspect` tells of a function. -/
inductive Kind
  | plain
  | coroutine
  | asyncGenerator
  deriving DecidableEq

/-- A function as vLLM defines it. -/
structure Definition where
  qualname : String
  kind : Kind
  parameters : List String
  deriving DecidableEq

abbrev Func := Layered Definition Kind Layer Attribute

namespace Func

/-- `inspect.signature` follows `__wrapped__`. -/
def parameters (f : Func) : List String := f.origin.parameters

def qualname (f : Func) : String := f.origin.qualname

/-- `inspect.iscoroutinefunction` and `isasyncgenfunction` look at the wrapper itself. -/
def kind : Func → Kind
  | .base d => d.kind
  | .wrapper _ k _ _ => k

theorem kind_eq_origin {f : Func} (h : f.layers = []) : f.kind = f.origin.kind := by
  rw [Layered.eq_base h]
  rfl

end Func

structure ClassObj where
  name : ClassName
  methods : Dict Method Func

/-- An entry of `sys.modules`: whether its body still runs
(`__spec__._initializing`), whether its loader is the observer's, and what is
bound in it. -/
structure Module where
  initializing : Bool
  hooked : Bool
  buildApp : Option Func
  names : Dict ClassName ℕ

inductive PyError
  | runtimeError (message : String)
  | attributeError (name : String)
  deriving DecidableEq

/-- `finder` tells whether the observer's finder is on `sys.meta_path`; `warnings`
holds the failures `_instrument` logged. -/
structure World where
  finder : Bool
  modules : Dict Target Module
  classes : Dict ℕ ClassObj
  warnings : List (Target × PyError)

namespace World

/-- The interpreter before anything is imported. -/
def initial : World := ⟨false, .empty, .empty, []⟩

/-- The class bound to a name in a module. -/
def bound (w : World) (t : Target) (n : ClassName) : Option ℕ :=
  (w.modules.get? t).bind (·.names.get? n)

def nameAt (w : World) (c : ℕ) : Option ClassName := (w.classes.get? c).map (·.name)

def methodAt (w : World) (c : ℕ) (m : Method) : Option Func :=
  (w.classes.get? c).bind (·.methods.get? m)

/-- `getattr(getattr(module, n, None), m, None)`. -/
def method (w : World) (t : Target) (n : ClassName) (m : Method) : Option Func :=
  (w.bound t n).bind (w.methodAt · m)

/-- `getattr(module, "build_app", None)`. -/
def buildApp (w : World) (t : Target) : Option Func := (w.modules.get? t).bind (·.buildApp)

/-- The module is there and its body has run. -/
def Finished (w : World) (t : Target) : Prop :=
  (w.modules.get? t).any (!·.initializing) = true

instance (w : World) (t : Target) : Decidable (w.Finished t) :=
  inferInstanceAs (Decidable (_ = true))

def setMethodAt (w : World) (c : ℕ) (m : Method) (f : Func) : World :=
  match w.classes.get? c with
  | none => w
  | some cls => { w with classes := w.classes.set c { cls with methods := cls.methods.set m f } }

/-- `setattr` on the class a module binds. -/
def setMethod (w : World) (t : Target) (n : ClassName) (m : Method) (f : Func) : World :=
  match w.bound t n with
  | none => w
  | some c => w.setMethodAt c m f

def setModule (w : World) (t : Target) (mod : Module) : World :=
  { w with modules := w.modules.set t mod }

def setBuildApp (w : World) (t : Target) (f : Func) : World :=
  match w.modules.get? t with
  | none => w
  | some mod => w.setModule t { mod with buildApp := some f }

section setMethodAt

variable (w : World) (c : ℕ) (m : Method) (f : Func)

@[simp] theorem modules_setMethodAt : (w.setMethodAt c m f).modules = w.modules := by
  unfold setMethodAt
  split <;> rfl

@[simp] theorem finder_setMethodAt : (w.setMethodAt c m f).finder = w.finder := by
  unfold setMethodAt
  split <;> rfl

@[simp] theorem bound_setMethodAt : (w.setMethodAt c m f).bound = w.bound := by
  funext t n
  simp [bound]

@[simp] theorem buildApp_setMethodAt : (w.setMethodAt c m f).buildApp = w.buildApp := by
  funext t
  simp [buildApp]

@[simp] theorem nameAt_setMethodAt : (w.setMethodAt c m f).nameAt = w.nameAt := by
  funext c'
  unfold setMethodAt nameAt
  split
  · rfl
  · rename_i cls hcls
    rw [Dict.get?_set]
    split
    · rename_i hc
      simp [hc, hcls]
    · rfl

theorem methodAt_setMethodAt {w : World} {c : ℕ} {m : Method} {f₀ : Func}
    (h : w.methodAt c m = some f₀) (f : Func) (c' : ℕ) (m' : Method) :
    (w.setMethodAt c m f).methodAt c' m' =
      if c' = c ∧ m' = m then some f else w.methodAt c' m' := by
  unfold methodAt at h
  obtain ⟨cls, hcls, hm⟩ := Option.bind_eq_some_iff.mp h
  unfold setMethodAt methodAt
  rw [hcls]
  simp only [Dict.get?_set]
  by_cases hc : c' = c
  · subst hc
    by_cases hmm : m' = m
    · simp [hmm, Dict.get?_set]
    · simp [hmm, Dict.get?_set, hcls]
  · simp [hc]

end setMethodAt

@[simp] theorem buildApp_setMethod (w : World) (t : Target) (n : ClassName) (m : Method)
    (f : Func) : (w.setMethod t n m f).buildApp = w.buildApp := by
  unfold setMethod
  split
  · rfl
  · simp

theorem method_eq_some {w : World} {t : Target} {n : ClassName} {m : Method} {f : Func} :
    w.method t n m = some f ↔ ∃ c, w.bound t n = some c ∧ w.methodAt c m = some f :=
  Option.bind_eq_some_iff

theorem setMethod_eq {w : World} {t : Target} {n : ClassName} {c : ℕ}
    (h : w.bound t n = some c) (m : Method) (f : Func) :
    w.setMethod t n m f = w.setMethodAt c m f := by
  simp only [setMethod, h]

end World

end VllmObserver.Bootstrap
