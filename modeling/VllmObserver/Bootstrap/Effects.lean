import VllmObserver.Bootstrap.Loading
import Mathlib.Logic.Relation

/-! # What patching can do

Every assignment an installer makes is one of five effects, each under the guard
its installer checks. `instrument` and `install` are sequences of them, also
where an exception ends an installer half way. -/
namespace VllmObserver.Bootstrap

open Lib

/-- The layers a hooked method is to carry while the engine hooks are on. -/
def hookLayers (langfuse : Bool) : ClassName → Method → List Layer
  | .engineCore, .step => if langfuse then [.clock, .stages] else [.stages]
  | .engineCore, .stepWithBatchQueue => if langfuse then [.clock, .stages] else [.stages]
  | .scheduler, .addRequest => [.stages]
  | .scheduler, .schedule => [.deadline, .stages]
  | .asyncLLM, .addRequest => [.stages]
  | .asyncLLM, .privateAddRequest => [.stages]
  | .asyncLLM, .generate => [.adapter]
  | .iterationStats, .updateFromFinishedRequest => [.adapter]
  | .iterationStats, .updateFromOutput => [.adapter]
  | .inputProcessor, .processInputs => [.stages]
  | .openAIServingChat, .renderChatRequest => [.stages]
  | .openAIServingCompletion, .renderCompletionRequest => [.stages]
  | .chatCompletionRequest, .toSamplingParams => [.stages]
  | .completionRequest, .toSamplingParams => [.stages]
  | _, _ => []

/-- The layers of a method under the switches. -/
def expectedLayers (sw : Switches) (n : ClassName) (m : Method) : List Layer :=
  if sw.engine then hookLayers sw.langfuse n m else []

/-- Both assignments of `install_scheduler`. -/
def World.patchScheduler (w : World) (c : ℕ) (add schedule : Func) : World :=
  (w.setMethodAt c .addRequest (add.wraps .stages .plain [.observerStages])).setMethodAt c .schedule
    (schedule.wraps .stages .plain [.observerStages])

/-- The assignments of `adapter.install`. -/
def World.patchAdapter (w : World) (e s : ℕ) (generate update : Func) : World :=
  installOutputUpdate ((w.setMethodAt e .generate
    (generate.wraps .adapter .asyncGenerator [.observer])).setMethodAt s .updateFromFinishedRequest
      (update.wraps .adapter .plain []))

inductive Effect (sw : Switches) (w : World) : World → Prop
  /-- A layer that looks for its own attribute on the method it wraps. -/
  | wrap {t n c m f l} (k : Kind) (hbound : w.bound t n = some c)
      (hmethod : w.methodAt c m = some f) (hmark : l.mark ∉ f.attributes)
      (hlayer : l ∈ expectedLayers sw n m) (hown : l ≠ .adapter ∧ (n = .scheduler → l ≠ .stages)) :
      Effect sw w (w.setMethodAt c m (f.wraps l k [l.mark]))
  /-- Both methods of the scheduler, under the attribute of `schedule`. -/
  | scheduler {t c add schedule} (hengine : sw.engine = true)
      (hbound : w.bound t .scheduler = some c) (hadd : w.methodAt c .addRequest = some add)
      (hschedule : w.methodAt c .schedule = some schedule)
      (hmark : Attribute.observerStages ∉ schedule.attributes) :
      Effect sw w (w.patchScheduler c add schedule)
  /-- `generate` and the updates, under the attribute of `generate`. -/
  | adapter {e s generate update} (hengine : sw.engine = true)
      (hboundEngine : w.bound .engine .asyncLLM = some e)
      (hboundStats : w.bound .stats .iterationStats = some s)
      (hgenerate : w.methodAt e .generate = some generate)
      (hupdate : w.methodAt s .updateFromFinishedRequest = some update)
      (hmark : Attribute.observer ∉ generate.attributes) :
      Effect sw w (w.patchAdapter e s generate update)
  | app {t f} (happ : w.buildApp t = some f)
      (hmark : Attribute.observerBootstrap ∉ f.attributes) :
      Effect sw w (w.setBuildApp t (f.wraps .bootstrap .plain [.observerBootstrap]))
  | warn (t : Target) (e : PyError) : Effect sw w { w with warnings := w.warnings ++ [(t, e)] }

abbrev Effects (sw : Switches) : World → World → Prop := Relation.ReflTransGen (Effect sw)

variable {sw : Switches}

theorem Effects.one {w w' : World} (h : Effect sw w w') : Effects sw w w' := .single h

theorem andThen_effects {w : World} {r : Patched} {next : World → Patched}
    (hr : Effects sw w r.1) (hnext : ∀ w', Effects sw w' (next w').1) :
    Effects sw w (andThen r next).1 := by
  unfold andThen
  split
  · exact hr.trans (hnext _)
  · exact hr

theorem foldl_andThen_effects {α : Type} {body : α → World → Patched} {w : World} {xs : List α}
    (hbody : ∀ x ∈ xs, ∀ w', Effects sw w' (body x w').1) {r : Patched}
    (hr : Effects sw w r.1) :
    Effects sw w (xs.foldl (fun r x => andThen r (body x)) r).1 := by
  induction xs generalizing r with
  | nil => exact hr
  | cons x xs ih =>
    exact ih (fun y hy => hbody y (List.mem_cons_of_mem x hy))
      (andThen_effects hr (hbody x List.mem_cons_self))

theorem onlyIf_effects {condition : Bool} {body : World → Patched} {w : World}
    (h : condition = true → Effects sw w (body w).1) :
    Effects sw w (onlyIf condition body w).1 := by
  unfold onlyIf
  split
  · rename_i hc
    exact h hc
  · exact .refl

/-- The shape of a wrapper that leaves its own mark. -/
def WrapsOnly (l : Layer) (wrap : Func → Except PyError Func) : Prop :=
  ∀ f g, wrap f = .ok g → ∃ k, g = f.wraps l k [l.mark]

theorem timed_wrapsOnly (k : Kind) (contract : List String) :
    WrapsOnly .stages (timed k · contract) := by
  intro f g h
  simp only [timed] at h
  split at h
  · exact ⟨k, (Except.ok.inj h).symm⟩
  · cases h

theorem wraps_wrapsOnly (l : Layer) (k : Kind) :
    WrapsOnly l (fun f => .ok (f.wraps l k [l.mark])) :=
  fun _ _ h => ⟨k, (Except.ok.inj h).symm⟩

theorem setMethod_effects {t : Target} {n : ClassName} {m : Method} {l : Layer} {w : World}
    {f : Func} (hf : w.method t n m = some f) (hmark : l.mark ∉ f.attributes)
    (hlayer : l ∈ expectedLayers sw n m) (hown : l ≠ .adapter ∧ (n = .scheduler → l ≠ .stages))
    (k : Kind) : Effects sw w (w.setMethod t n m (f.wraps l k [l.mark])) := by
  obtain ⟨c, hbound, hmethod⟩ := World.method_eq_some.mp hf
  rw [World.setMethod_eq hbound]
  exact .one (.wrap k hbound hmethod hmark hlayer hown)

theorem wrapMethod_effects {l : Layer} {wrap : Func → Except PyError Func}
    (hwrap : WrapsOnly l wrap) (t : Target) {n : ClassName} {m : Method}
    (hlayer : l ∈ expectedLayers sw n m) (hown : l ≠ .adapter ∧ (n = .scheduler → l ≠ .stages))
    (w : World) : Effects sw w (wrapMethod l wrap t n m w).1 := by
  unfold wrapMethod
  split
  · exact .refl
  · rename_i f hf
    split
    · exact .refl
    · rename_i hmark
      split
      · rename_i g hg
        obtain ⟨k, rfl⟩ := hwrap f g hg
        exact setMethod_effects hf hmark hlayer hown k
      · exact .refl

theorem installEach_effects {k : Kind} {contract : List String} (missing : String) (t : Target)
    {hooks : List (ClassName × Method)}
    (hhooks : ∀ h ∈ hooks, Layer.stages ∈ expectedLayers sw h.1 h.2 ∧ h.1 ≠ .scheduler)
    (w : World) : Effects sw w (installEach (timed k · contract) missing t hooks w).1 := by
  refine andThen_effects (foldl_andThen_effects (fun h hh w' => ?_) .refl) fun w' => ?_
  · obtain ⟨hlayer, hne⟩ := hhooks h hh
    exact wrapMethod_effects (timed_wrapsOnly k contract) t hlayer
      ⟨by decide, fun he => absurd he hne⟩ w'
  · split <;> exact .refl

section engine

variable (hengine : sw.engine = true)
include hengine

theorem mem_expectedLayers {l : Layer} {n : ClassName} {m : Method} :
    l ∈ expectedLayers sw n m ↔ l ∈ hookLayers sw.langfuse n m := by
  rw [expectedLayers, if_pos hengine]

theorem installServing_effects (t : Target) (w : World) :
    Effects sw w (installServing t w).1 := by
  refine installEach_effects _ t (fun h hh => ?_) w
  simp only [servingHooks, List.mem_cons, List.not_mem_nil, or_false] at hh
  rcases hh with rfl | rfl <;>
    exact ⟨(mem_expectedLayers hengine).mpr List.mem_cons_self, by decide⟩

theorem installProtocol_effects (t : Target) (w : World) :
    Effects sw w (installProtocol t w).1 := by
  refine installEach_effects _ t (fun h hh => ?_) w
  simp only [protocolHooks, List.mem_cons, List.not_mem_nil, or_false] at hh
  rcases hh with rfl | rfl <;>
    exact ⟨(mem_expectedLayers hengine).mpr List.mem_cons_self, by decide⟩

theorem installInputProcessor_effects (t : Target) (w : World) :
    Effects sw w (installInputProcessor t w).1 :=
  wrapMethod_effects (timed_wrapsOnly _ _) t ((mem_expectedLayers hengine).mpr List.mem_cons_self)
    (by decide) w

theorem installAddRequest_effects (w : World) : Effects sw w (installAddRequest w) := by
  unfold installAddRequest
  split
  · exact .refl
  · rename_i f hf
    split
    · rename_i hguard
      split
      · rename_i g hg
        obtain ⟨k, rfl⟩ := timed_wrapsOnly _ _ f g hg
        have hmark : Layer.stages.mark ∉ f.attributes := hguard.2
        exact setMethod_effects hf hmark ((mem_expectedLayers hengine).mpr List.mem_cons_self)
          (by decide) k
      · exact .refl
    · exact .refl

theorem installAsyncLlm_effects (w : World) : Effects sw w (installAsyncLlm w).1 :=
  (installAddRequest_effects hengine w).trans <| wrapMethod_effects (timed_wrapsOnly _ _) _
    ((mem_expectedLayers hengine).mpr List.mem_cons_self) (by decide) _

theorem installScheduler_effects (t : Target) (w : World) :
    Effects sw w (installScheduler t w).1 := by
  unfold installScheduler
  split
  · rename_i add schedule hadd hschedule
    split
    · exact .refl
    · rename_i hmark
      obtain ⟨c, hbound, hadd⟩ := World.method_eq_some.mp hadd
      obtain ⟨c', hbound', hschedule⟩ := World.method_eq_some.mp hschedule
      obtain rfl : c = c' := Option.some.inj (hbound.symm.trans hbound')
      dsimp only
      rw [World.setMethod_eq hbound, World.setMethod_eq (by simpa using hbound)]
      exact .one (.scheduler hengine hbound hadd hschedule hmark)
  · exact .refl

theorem installDeadline_effects (t : Target) (w : World) :
    Effects sw w (installDeadline t w).1 := by
  unfold installDeadline
  split
  · exact .refl
  · exact wrapMethod_effects (wraps_wrapsOnly .deadline .plain) t
      ((mem_expectedLayers hengine).mpr List.mem_cons_self) (by decide) w

theorem installEngineCore_effects (w : World) : Effects sw w (installEngineCore w).1 := by
  refine foldl_andThen_effects (fun m hm w' => ?_) .refl
  refine wrapMethod_effects (wraps_wrapsOnly .stages .plain) _ ?_ (by decide) w'
  simp only [stepMethods, List.mem_cons, List.not_mem_nil, or_false] at hm
  rw [mem_expectedLayers hengine]
  rcases hm with rfl | rfl <;> cases sw.langfuse <;> decide

theorem installClock_effects (hlangfuse : sw.langfuse = true) (w : World) :
    Effects sw w (installClock w).1 := by
  refine foldl_andThen_effects (fun m hm w' => ?_) .refl
  unfold wrapClock
  split
  · exact .refl
  · refine wrapMethod_effects (wraps_wrapsOnly .clock .plain) _ ?_ (by decide) w'
    simp only [stepMethods, List.mem_cons, List.not_mem_nil, or_false] at hm
    rw [mem_expectedLayers hengine, hlangfuse]
    rcases hm with rfl | rfl <;> decide

theorem installAdapter_effects (w : World) : Effects sw w (installAdapter w).1 := by
  unfold installAdapter
  split
  · exact .refl
  · rename_i generate hgenerate
    split
    · exact .refl
    · rename_i hmark
      split
      · exact .refl
      · rename_i update hupdate
        split
        · exact .refl
        · split
          · exact .refl
          · obtain ⟨e, hbe, hgenerate⟩ := World.method_eq_some.mp hgenerate
            obtain ⟨s, hbs, hupdate⟩ := World.method_eq_some.mp hupdate
            simp only [World.setMethod_eq hbe, World.setMethod_eq
              (show (w.setMethodAt e _ _).bound .stats .iterationStats = some s by simpa using hbs)]
            exact .one (.adapter hengine hbe hbs hgenerate hupdate hmark)

theorem instrumentCore_effects (w : World) : Effects sw w (instrumentCore sw w).1 := by
  unfold instrumentCore
  split
  · exact .refl
  · refine andThen_effects (installEngineCore_effects hengine w) fun w' => ?_
    refine onlyIf_effects fun hlangfuse => ?_
    split
    · exact installClock_effects hengine hlangfuse w'
    · exact .refl

theorem instrumentEngine_effects (w : World) : Effects sw w (instrumentEngine w).1 := by
  unfold instrumentEngine
  split
  · exact andThen_effects (installAsyncLlm_effects hengine w) (installAdapter_effects hengine)
  · exact .refl

theorem instrumentHooks_effects (t : Target) (w : World) :
    Effects sw w (instrumentHooks sw w t).1 := by
  cases t with
  | core => exact instrumentCore_effects hengine w
  | engine => exact instrumentEngine_effects hengine w
  | stats => exact instrumentEngine_effects hengine w
  | inputProcessor => exact installInputProcessor_effects hengine _ w
  | scheduler =>
    exact andThen_effects (installScheduler_effects hengine _ w)
      (installDeadline_effects hengine _)
  | servingChat => exact installServing_effects hengine _ w
  | servingCompletion => exact installServing_effects hengine _ w
  | protocolChat => exact installProtocol_effects hengine _ w
  | protocolCompletion => exact installProtocol_effects hengine _ w
  | launchersApp => exact .refl
  | apiServer => exact .refl

end engine

theorem instrumentApp_effects (t : Target) (w : World) : Effects sw w (instrumentApp t w) := by
  unfold instrumentApp
  split
  · exact .refl
  · rename_i f hf
    split
    · exact .refl
    · rename_i hmark
      exact .one (.app hf hmark)

/-- The part of `_instrument` after `_instrument_app`. -/
theorem instrument_after_app (sw : Switches) (t : Target) (w : World) :
    Effects sw (if t ∈ apps then instrumentApp t w else w) (instrument sw t w) := by
  unfold instrument
  have hhooks : ∀ w', Effects sw w' (onlyIf sw.engine (instrumentHooks sw · t) w').1 := fun w' =>
    onlyIf_effects fun hengine => instrumentHooks_effects hengine t w'
  generalize (if t ∈ apps then instrumentApp t w else w) = patched
  specialize hhooks patched
  dsimp only
  split
  · rename_i w' hw'
    rw [hw'] at hhooks
    exact hhooks
  · rename_i w' e hw'
    rw [hw'] at hhooks
    exact hhooks.tail (.warn t e)

theorem instrument_effects (sw : Switches) (t : Target) (w : World) :
    Effects sw w (instrument sw t w) := by
  refine .trans ?_ (instrument_after_app sw t w)
  split
  · exact instrumentApp_effects t w
  · exact .refl

theorem instrumentLoaded_effects (sw : Switches) (order : List Target) (w : World) :
    Effects sw w (instrumentLoaded sw order w) := by
  unfold instrumentLoaded
  induction order generalizing w with
  | nil => exact .refl
  | cons t order ih =>
    rw [List.foldl_cons]
    refine .trans ?_ (ih _)
    split
    · exact instrument_effects sw t w
    · exact .refl

end VllmObserver.Bootstrap
