import VllmObserver.Bootstrap.Coverage

/-! # Instrumentation over whole runs

Modules are loaded in any order, with imports nested in any way, and `install`
and `_instrument` are called at any time. No function ever carries a layer
twice, and a module that was reached carries every layer once. -/
namespace VllmObserver.Bootstrap

open Lib

variable {sw : Switches}

/-- The event instruments the module. -/
def Event.Instruments (sw : Switches) (w : World) (t : Target) : Event → Prop
  | .finish u => u = t ∧ (w.modules.get? t).any (·.hooked) = true
  | .install _ => sw.observer = true ∧ w.Finished t
  | .instrument u => u = t
  | _ => False

/-- The module's body has run when the event happens. -/
def Event.After (w : World) (t : Target) : Event → Prop
  | .finish u => u = t
  | _ => w.Finished t

/-- The adapter's two modules. -/
def adapterModules : List Target := [.engine, .stats]

/-- The event instruments the module when all it binds is there. For the
adapter's modules either will do, once both classes are bound. -/
def Event.Covers (sw : Switches) (w : World) (t : Target) (e : Event) : Prop :=
  if t ∈ adapterModules then
    (∃ u ∈ adapterModules, e.Instruments sw w u) ∧
      (w.bound .engine .asyncLLM).isSome ∧ (w.bound .stats .iterationStats).isSome
  else e.Instruments sw w t ∧ e.After w t

/-- Some event of the run covers the module. -/
def Covered (sw : Switches) (t : Target) : World → List Event → Prop
  | _, [] => False
  | w, e :: rest =>
    e.Covers sw w t ∨
      match step sw w e with
      | some w' => Covered sw t w' rest
      | none => False

instance (w : World) (t : Target) : (e : Event) → Decidable (e.Instruments sw w t)
  | .finish _ => inferInstanceAs (Decidable (_ ∧ _))
  | .install _ => inferInstanceAs (Decidable (_ ∧ _))
  | .instrument u => inferInstanceAs (Decidable (u = t))
  | .load _ => inferInstanceAs (Decidable False)
  | .define _ _ => inferInstanceAs (Decidable False)
  | .bind _ _ => inferInstanceAs (Decidable False)
  | .defineApp _ _ => inferInstanceAs (Decidable False)
  | .importApp _ _ => inferInstanceAs (Decidable False)

instance (w : World) (t : Target) : (e : Event) → Decidable (e.After w t)
  | .finish u => inferInstanceAs (Decidable (u = t))
  | .install _ => inferInstanceAs (Decidable (w.Finished t))
  | .instrument _ => inferInstanceAs (Decidable (w.Finished t))
  | .load _ => inferInstanceAs (Decidable (w.Finished t))
  | .define _ _ => inferInstanceAs (Decidable (w.Finished t))
  | .bind _ _ => inferInstanceAs (Decidable (w.Finished t))
  | .defineApp _ _ => inferInstanceAs (Decidable (w.Finished t))
  | .importApp _ _ => inferInstanceAs (Decidable (w.Finished t))

instance (w : World) (t : Target) (e : Event) : Decidable (e.Covers sw w t) :=
  inferInstanceAs (Decidable (if t ∈ adapterModules then (_ ∧ _ ∧ _) else (_ ∧ _)))

instance decidableCovered (t : Target) : (w : World) → (events : List Event) →
    Decidable (Covered sw t w events)
  | _, [] => inferInstanceAs (Decidable False)
  | w, e :: rest =>
    have : Decidable (match step sw w e with
        | some w' => Covered sw t w' rest
        | none => False) :=
      match step sw w e with
      | some w' => decidableCovered t w' rest
      | none => inferInstanceAs (Decidable False)
    inferInstanceAs (Decidable (_ ∨ _))

/-- Every hooked method a module binds carries its layers, and so does `build_app`. -/
def Complete (sw : Switches) (w : World) (t : Target) : Prop :=
  (∀ n ∈ t.hooks, ∀ m, ∀ l ∈ expectedLayers sw n m, w.Carries t n m l) ∧
    (t ∈ apps → ∀ f, w.buildApp t = some f → Layer.bootstrap ∈ f.layers)

theorem Extends.complete {w w' : World} (hg : Extends w w') {t : Target} (h : Complete sw w t) :
    Complete sw w' t := by
  refine ⟨fun n hn m l hl => hg.carries (h.1 n hn m l hl), fun ht f' hf' => ?_⟩
  obtain ⟨f, hf, hthick⟩ := hg.buildApp hf'
  exact hthick.layers _ (h.2 ht f hf)

/-- With the engine hooks on, `_instrument` of an engine module is its installers. -/
theorem instrument_sameObjects (hengine : sw.engine = true) {t : Target} (ht : t ∉ apps)
    (w : World) : SameObjects (instrumentHooks sw w t).1 (instrument sw t w) := by
  simp only [instrument, if_neg ht, onlyIf, hengine, if_true]
  split
  · rename_i w' hw'
    rw [hw']
    exact ⟨rfl, rfl, rfl, rfl⟩
  · rename_i w' e hw'
    rw [hw']
    exact ⟨rfl, rfl, rfl, rfl⟩

theorem not_app_of_hook {t : Target} {n : ClassName} (hn : n ∈ t.hooks) : t ∉ apps := by
  cases t <;> simp_all [Target.hooks, apps]

theorem not_app_of_adapter {t : Target} (ht : t ∈ adapterModules) : t ∉ apps := by
  cases t <;> simp_all [adapterModules, apps]

/-- Either of the adapter's modules runs the same installers. -/
theorem instrumentHooks_adapter {t u : Target} (ht : t ∈ adapterModules)
    (hu : u ∈ adapterModules) (w : World) : instrumentHooks sw w u = instrumentHooks sw w t := by
  simp only [adapterModules, List.mem_cons, List.not_mem_nil, or_false] at ht hu
  rcases ht with rfl | rfl <;> rcases hu with rfl | rfl <;> rfl

/-- The classes of a module are complete after its instrumentation. -/
theorem instrument_carries {w : World} (h : Inv sw w) {t u : Target}
    (hu : u = t ∨ t ∈ adapterModules ∧ u ∈ adapterModules)
    (hpair : t ∈ adapterModules →
      (w.bound .engine .asyncLLM).isSome ∧ (w.bound .stats .iterationStats).isSome)
    {n : ClassName} (hn : n ∈ t.hooks) {m : Method} {l : Layer} (hl : l ∈ expectedLayers sw n m) :
    (instrument sw u w).Carries t n m l := by
  cases hengine : sw.engine with
  | false => simp [expectedLayers, hengine] at hl
  | true =>
    rw [mem_expectedLayers hengine] at hl
    have hbound := (instrument_effects sw u w).grows.bound
    cases hc : w.bound t n with
    | none => exact carries_of_unbound (by rw [hbound]; exact hc) m l
    | some c =>
      have hnot : u ∉ apps := by
        rcases hu with rfl | ⟨-, hu⟩
        · exact not_app_of_hook hn
        · exact not_app_of_adapter hu
      have hhooks : instrumentHooks sw w u = instrumentHooks sw w t := by
        rcases hu with rfl | ⟨ht, hu⟩
        · rfl
        · exact instrumentHooks_adapter ht hu w
      refine (instrument_sameObjects hengine hnot w).extends.carries ?_
      rw [hhooks]
      exact instrumentHooks_carries hengine h hn hc (fun ht => hpair (by simpa [adapterModules])) hl

/-- The application factory is complete after its instrumentation. -/
theorem instrument_app {w : World} (h : Inv sw w) {t : Target} (ht : t ∈ apps) {f : Func}
    (hf : (instrument sw t w).buildApp t = some f) : Layer.bootstrap ∈ f.layers := by
  obtain ⟨f₁, hf₁, hthick⟩ := (instrument_after_app sw t w).grows.buildApp hf
  refine hthick.layers _ ?_
  rw [if_pos ht, instrumentApp] at hf₁
  split at hf₁
  · rename_i hnone
    rw [hnone] at hf₁
    cases hf₁
  · rename_i original horiginal
    split at hf₁
    · rename_i hmark
      obtain rfl := Option.some.inj (horiginal.symm.trans hf₁)
      exact ((h.app horiginal).1.mark_iff .bootstrap).mp hmark
    · rw [World.buildApp_setBuildApp horiginal, if_pos rfl] at hf₁
      obtain rfl := Option.some.inj hf₁
      simp

/-- One instrumentation completes its module, and both of the adapter's. -/
theorem instrument_complete {w : World} (h : Inv sw w) {t u : Target}
    (hu : u = t ∨ t ∈ adapterModules ∧ u ∈ adapterModules)
    (hpair : t ∈ adapterModules →
      (w.bound .engine .asyncLLM).isSome ∧ (w.bound .stats .iterationStats).isSome) :
    Complete sw (instrument sw u w) t := by
  refine ⟨fun n hn m l hl => instrument_carries h hu hpair hn hl, fun ht f hf => ?_⟩
  rcases hu with rfl | ⟨hadapter, -⟩
  · exact instrument_app h ht hf
  · exact absurd ht (not_app_of_adapter hadapter)

/-- The loop of `install` comes to a finished module. -/
theorem instrumentLoaded_split {w : World} {u : Target} {before after : List Target}
    (hfin : (instrumentLoaded sw before w).Finished u) :
    instrumentLoaded sw (before ++ u :: after) w =
      instrumentLoaded sw after (instrument sw u (instrumentLoaded sw before w)) := by
  unfold instrumentLoaded at hfin ⊢
  rw [List.foldl_append, List.foldl_cons, if_pos hfin]

/-- The moment an event instruments a module, and what is left of it afterwards. -/
theorem step_instruments {w w' : World} (h : Inv sw w) {e : Event} {u : Target}
    (he : e.Instruments sw w u) (hs : step sw w e = some w') :
    ∃ w₁, Inv sw w₁ ∧ w₁.bound = w.bound ∧ Extends (instrument sw u w₁) w' := by
  cases step_cases hs with
  | @finish t mod mod' hmod _ hmod' =>
    obtain ⟨rfl, hhooked⟩ := he
    have hflag : mod.hooked = true := by simpa [hmod] using hhooked
    rw [if_pos hflag] at hmod' ⊢
    exact ⟨w, h, rfl, (sameObjects_finish hmod').extends⟩
  | install hperm =>
    obtain ⟨hobserver, hfin⟩ := he
    have hmem : u ∈ _ := hperm.mem_iff.mpr (mem_targets u)
    obtain ⟨before, after, rfl⟩ := List.append_of_mem hmem
    have hsame : SameObjects w { w with finder := true } := ⟨rfl, rfl, rfl, rfl⟩
    have hbefore := instrumentLoaded_effects sw before { w with finder := true }
    have hafter := instrumentLoaded_effects sw after
      (instrument sw u (instrumentLoaded sw before { w with finder := true }))
    refine ⟨instrumentLoaded sw before { w with finder := true }, (hsame.inv h).effects hbefore,
      hbefore.grows.bound, ?_⟩
    have hfin' : (instrumentLoaded sw before { w with finder := true }).Finished u :=
      (hbefore.grows.finished u).mpr hfin
    have heq : install sw (before ++ u :: after) w = instrumentLoaded sw after
        (instrument sw u (instrumentLoaded sw before { w with finder := true })) := by
      rw [install, if_pos hobserver]
      exact instrumentLoaded_split hfin'
    rw [heq]
    exact hafter.grows.toExtends
  | @instrument t =>
    obtain rfl : t = u := he
    exact ⟨w, h, rfl, .refl _⟩
  | load _ => cases he
  | define _ _ => cases he
  | bind _ _ _ _ => cases he
  | defineApp _ _ _ => cases he
  | importApp _ _ _ => cases he

/-- What a module binds under its hooked names cannot change any more. -/
def Settled (w : World) (t : Target) : Prop :=
  if t ∈ adapterModules then
    (w.bound .engine .asyncLLM).isSome ∧ (w.bound .stats .iterationStats).isSome
  else w.Finished t

theorem Settled.bound {w w' : World} {t : Target} (hs : Settled w t) (hl : Later w w')
    {n : ClassName} (hn : n ∈ t.hooks) : w'.bound t n = w.bound t n := by
  have hkept : ∀ {t n}, (w.bound t n).isSome → w'.bound t n = w.bound t n := by
    intro t n hsome
    obtain ⟨c, hc⟩ := Option.isSome_iff_exists.mp hsome
    rw [hl.bound hc, hc]
  unfold Settled at hs
  split at hs
  · rename_i ht
    simp only [adapterModules, List.mem_cons, List.not_mem_nil, or_false] at ht
    rcases ht with rfl | rfl <;> simp only [Target.hooks, List.mem_singleton] at hn <;> subst hn
    · exact hkept hs.1
    · exact hkept hs.2
  · exact hl.closed hs n

theorem Settled.later {w w' : World} {t : Target} (hs : Settled w t) (hl : Later w w') :
    Settled w' t := by
  have hkept : ∀ {t n}, (w.bound t n).isSome → (w'.bound t n).isSome := by
    intro t n hsome
    obtain ⟨c, hc⟩ := Option.isSome_iff_exists.mp hsome
    rw [hl.bound hc]
    rfl
  unfold Settled at hs ⊢
  split at hs
  · rename_i ht
    rw [if_pos ht]
    exact ⟨hkept hs.1, hkept hs.2⟩
  · rename_i ht
    rw [if_neg ht]
    exact hl.finished hs

/-- What is complete stays complete. -/
theorem Complete.later {w w' : World} (h : Inv sw w) {t : Target} (hs : Settled w t)
    (hc : Complete sw w t) (hl : Later w w') : Complete sw w' t := by
  refine ⟨fun n hn m l hlayer f' hf' => ?_, fun ht f' hf' => ?_⟩
  · obtain ⟨c, hbound, hmethod⟩ := World.method_eq_some.mp hf'
    rw [hs.bound hl hn] at hbound
    obtain ⟨f, hf, hthick⟩ := hl.methodAt (h.named hbound) hmethod
    exact hthick.layers l (hc.1 n hn m l hlayer f (World.method_eq_some.mpr ⟨c, hbound, hf⟩))
  · have hfin : w.Finished t := by
      rw [Settled, if_neg fun hadapter => not_app_of_adapter hadapter ht] at hs
      exact hs
    obtain ⟨f, hf, hthick⟩ := hl.buildApp hfin hf'
    exact hthick.layers _ (hc.2 ht f hf)

/-- The module of an event that comes after its body is finished afterwards. -/
theorem Event.After.finished {w w' : World} (h : Inv sw w) {t : Target} {e : Event}
    (he : e.After w t) (hs : step sw w e = some w') : w'.Finished t := by
  cases e with
  | finish u =>
    obtain rfl : u = t := he
    cases step_cases hs with
    | finish _ _ _ => exact finished_finish (.inr rfl)
  | load u => exact (h.step hs).2.finished he
  | define c body => exact (h.step hs).2.finished he
  | bind u c => exact (h.step hs).2.finished he
  | defineApp u d => exact (h.step hs).2.finished he
  | importApp u source => exact (h.step hs).2.finished he
  | install order => exact (h.step hs).2.finished he
  | instrument u => exact (h.step hs).2.finished he

/-- A covering event completes the module for good. -/
theorem Event.Covers.complete {w w' : World} (h : Inv sw w) {t : Target} {e : Event}
    (he : e.Covers sw w t) (hs : step sw w e = some w') : Settled w' t ∧ Complete sw w' t := by
  unfold Event.Covers at he
  split at he
  · rename_i ht
    obtain ⟨⟨u, hu, hinstruments⟩, hbe, hbs⟩ := he
    obtain ⟨w₁, hinv₁, hbound, hext⟩ := step_instruments h hinstruments hs
    refine ⟨?_, hext.complete (instrument_complete hinv₁ (.inr ⟨ht, hu⟩) fun _ => ?_)⟩
    · have hsettled : Settled w t := by
        rw [Settled, if_pos ht]
        exact ⟨hbe, hbs⟩
      exact hsettled.later (h.step hs).2
    · rw [hbound]
      exact ⟨hbe, hbs⟩
  · rename_i ht
    obtain ⟨hinstruments, hafter⟩ := he
    obtain ⟨w₁, hinv₁, -, hext⟩ := step_instruments h hinstruments hs
    refine ⟨?_, hext.complete (instrument_complete hinv₁ (.inl rfl) fun hadapter =>
      absurd hadapter ht)⟩
    rw [Settled, if_neg ht]
    exact hafter.finished h hs

/-- A covered module is complete when the run ends. -/
theorem covered_complete {events : List Event} {w w' : World} (h : Inv sw w) {t : Target}
    (hc : Covered sw t w events) (hr : run sw w events = some w') : Complete sw w' t := by
  induction events generalizing w with
  | nil => cases hc
  | cons e rest ih =>
    obtain ⟨w₁, hs, hr⟩ := Option.bind_eq_some_iff.mp hr
    have hinv₁ := (h.step hs).1
    simp only [Covered, hs] at hc
    rcases hc with hcovers | hrest
    · obtain ⟨hsettled, hcomplete⟩ := hcovers.complete h hs
      exact hcomplete.later hinv₁ hsettled (hinv₁.run hr).2
    · exact ih hinv₁ hrest hr

theorem Inv.nodup {w : World} (h : Inv sw w) {c : ℕ} {m : Method} {f : Func}
    (hf : w.methodAt c m = some f) : f.layers.Nodup := by
  obtain ⟨cls, hcls, -⟩ := Option.bind_eq_some_iff.mp hf
  have hn : w.nameAt c = some cls.name := by rw [World.nameAt, hcls]; rfl
  by_cases hstats : cls.name = .iterationStats
  · rw [hstats] at hn
    exact h.updatesOnce hn hf
  · exact (h.marked hn hstats hf).nodup

/-- In a complete module each layer of a method lies once, and no other lies there. -/
theorem Complete.count_method {w : World} (h : Inv sw w) {t : Target} (hc : Complete sw w t)
    {n : ClassName} (hn : n ∈ t.hooks) {m : Method} {f : Func} (hf : w.method t n m = some f)
    (l : Layer) : f.layers.count l = if l ∈ expectedLayers sw n m then 1 else 0 := by
  obtain ⟨c, hbound, hmethod⟩ := World.method_eq_some.mp hf
  refine Layered.count_layers (h.nodup hmethod) (fun l => ⟨fun hl => ?_, fun hl => ?_⟩) l
  · exact h.within (h.named hbound) hmethod hl
  · exact hc.1 n hn m l hl f hf

theorem Complete.count_app {w : World} (h : Inv sw w) {t : Target} (hc : Complete sw w t)
    (ht : t ∈ apps) {f : Func} (hf : w.buildApp t = some f) (l : Layer) :
    f.layers.count l = if l ∈ [Layer.bootstrap] then 1 else 0 := by
  refine Layered.count_layers (h.app hf).1.nodup (fun l => ⟨fun hl => ?_, fun hl => ?_⟩) l
  · exact List.mem_singleton.mpr ((h.app hf).2 l hl)
  · rw [List.mem_singleton.mp hl]
    exact hc.2 ht f hf

/-- Whatever the order of loading and however often `install` and `_instrument`
are called, no method and no `build_app` carries a layer twice. Where the module
was covered, each hooked method it binds carries each of its layers exactly once
and no other. -/
theorem layers_once {events : List Event} {w : World}
    (hr : run sw World.initial events = some w) :
    (∀ c m f, w.methodAt c m = some f → ∀ l, f.layers.count l ≤ 1) ∧
      (∀ t f, w.buildApp t = some f → ∀ l, f.layers.count l ≤ 1) ∧
      ∀ t, Covered sw t World.initial events →
        (∀ n ∈ t.hooks, ∀ m f, w.method t n m = some f → ∀ l,
          f.layers.count l = if l ∈ expectedLayers sw n m then 1 else 0) ∧
        (t ∈ apps → ∀ f, w.buildApp t = some f → ∀ l,
          f.layers.count l = if l ∈ [Layer.bootstrap] then 1 else 0) := by
  have hinv := ((inv_initial sw).run hr).1
  refine ⟨fun c m f hf => List.nodup_iff_count_le_one.mp (hinv.nodup hf),
    fun t f hf => List.nodup_iff_count_le_one.mp (hinv.app hf).1.nodup, fun t hc => ?_⟩
  have hcomplete := covered_complete (inv_initial sw) hc hr
  exact ⟨fun n hn m f hf => hcomplete.count_method hinv hn hf,
    fun ht f hf => hcomplete.count_app hinv ht hf⟩

/-- Every switch on. -/
def allOn : Switches := ⟨true, true, true⟩

def coroutine (qualname : String) (parameters : List String) : Definition :=
  ⟨qualname, .coroutine, parameters⟩

def plain (qualname : String) (parameters : List String) : Definition :=
  ⟨qualname, .plain, parameters⟩

def engineCoreBody : ClassBody :=
  ⟨.engineCore, .ofList [(.step, plain "EngineCore.step" ["self"]),
    (.stepWithBatchQueue, plain "EngineCore.step_with_batch_queue" ["self"])]⟩

def asyncLLMBody : ClassBody :=
  ⟨.asyncLLM, .ofList [
    (.generate, ⟨"AsyncLLM.generate", .asyncGenerator, ["self", "prompt", "request_id"]⟩),
    (.addRequest, coroutine "AsyncLLM.add_request" ["self", "request_id"]),
    (.privateAddRequest, coroutine "AsyncLLM._add_request" ["self", "request"])]⟩

def iterationStatsBody : ClassBody :=
  ⟨.iterationStats, .ofList [
    (.updateFromOutput, plain "IterationStats.update_from_output" ["self", "output", "req_stats"]),
    (.updateFromFinishedRequest,
      plain "IterationStats.update_from_finished_request" ["self", "request_id", "req_stats"])]⟩

def inputProcessorBody : ClassBody :=
  ⟨.inputProcessor, .ofList [(.processInputs,
    plain "InputProcessor.process_inputs" ["self", "request_id", "prompt", "params"])]⟩

def schedulerBody : ClassBody :=
  ⟨.scheduler, .ofList [(.addRequest, plain "Scheduler.add_request" ["self", "request"]),
    (.schedule, plain "Scheduler.schedule" ["self"])]⟩

def servingChatBody : ClassBody :=
  ⟨.openAIServingChat, .ofList [(.renderChatRequest,
    coroutine "OpenAIServingChat.render_chat_request" ["self", "request"])]⟩

def servingCompletionBody : ClassBody :=
  ⟨.openAIServingCompletion, .ofList [(.renderCompletionRequest,
    coroutine "OpenAIServingCompletion.render_completion_request" ["self", "request"])]⟩

def chatRequestBody : ClassBody :=
  ⟨.chatCompletionRequest, .ofList [(.toSamplingParams,
    plain "ChatCompletionRequest.to_sampling_params" ["self"])]⟩

def completionRequestBody : ClassBody :=
  ⟨.completionRequest, .ofList [(.toSamplingParams,
    plain "CompletionRequest.to_sampling_params" ["self"])]⟩

/-- A module whose body defines one class. -/
def loadClass (t : Target) (c : ℕ) (body : ClassBody) : List Event :=
  [.load t, .define c body, .bind t c, .finish t]

/-- The modules beside `async_llm` and `stats`; `api_server` imports its
`build_app`, and `completion.serving` the class of `chat_completion.serving`. -/
def loadOthers : List Event :=
  loadClass .core 2 engineCoreBody ++ loadClass .inputProcessor 3 inputProcessorBody ++
    loadClass .scheduler 4 schedulerBody ++ loadClass .servingChat 5 servingChatBody ++
    [.load .servingCompletion, .bind .servingCompletion 5, .define 6 servingCompletionBody,
      .bind .servingCompletion 6, .finish .servingCompletion] ++
    loadClass .protocolChat 7 chatRequestBody ++
    loadClass .protocolCompletion 8 completionRequestBody ++
    [.load .apiServer, .load .launchersApp, .defineApp .launchersApp (plain "build_app" ["args"]),
      .finish .launchersApp, .importApp .apiServer .launchersApp, .finish .apiServer]

/-- `async_llm` imports `stats` half way. -/
def loadEngine : List Event :=
  .load .engine :: loadClass .stats 0 iterationStatsBody ++
    [.define 1 asyncLLMBody, .bind .engine 1, .finish .engine]

/-- The startup hook, the imports, and calls of both functions in between and afterwards. -/
def startup : List Event :=
  .install targets :: loadEngine ++ [.install targets, .instrument .stats] ++ loadOthers ++
    [.install targets, .instrument .scheduler]

/-- The startup covers every module, so every layer lies once. -/
theorem layers_once_startup : ∃ w, run allOn World.initial startup = some w ∧
    ∀ t, ∀ n ∈ t.hooks, ∀ m f, w.method t n m = some f → ∀ l,
      f.layers.count l = if l ∈ expectedLayers allOn n m then 1 else 0 := by
  obtain ⟨w, hr⟩ := Option.isSome_iff_exists.mp
    (show (run allOn World.initial startup).isSome = true by decide +kernel)
  have hcovered : ∀ t ∈ targets, Covered allOn t World.initial startup := by decide +kernel
  exact ⟨w, hr, fun t => ((layers_once hr).2.2 t (hcovered t (mem_targets t))).1⟩

/-- `install` is called while `async_llm`, imported before, still runs its body. -/
def installInside : List Event :=
  .load .engine :: loadClass .stats 0 iterationStatsBody ++
    [.install targets, .define 1 asyncLLMBody, .bind .engine 1, .finish .engine] ++ loadOthers

/-- `install` leaves a module alone whose body still runs, and its loader has no
hook: all modules are loaded and `generate` has no layer. -/
theorem initializing_engine_missed :
    ¬ ∀ (events : List Event) (w : World), run allOn World.initial events = some w →
      (∃ order, Event.install order ∈ events) → (∀ t, w.Finished t) →
        ∀ t, ∀ n ∈ t.hooks, ∀ m f, w.method t n m = some f →
          ∀ l ∈ expectedLayers allOn n m, f.layers.count l = 1 := by
  intro h
  obtain ⟨w, hr⟩ := Option.isSome_iff_exists.mp
    (show (run allOn World.initial installInside).isSome = true by decide +kernel)
  have hend : (run allOn World.initial installInside).all (fun w =>
      decide (∀ t ∈ targets, w.Finished t) &&
        (w.method .engine .asyncLLM .generate).any (·.layers == [])) = true := by
    decide +kernel
  rw [hr, Option.all_some, Bool.and_eq_true] at hend
  obtain ⟨hfinished, hgenerate⟩ := hend
  obtain ⟨f, hf, hnil⟩ := (Option.any_eq_true _ _).mp hgenerate
  have hlayers : f.layers = [] := by simpa using hnil
  have hone := h installInside w hr ⟨targets, by simp [installInside]⟩
    (fun t => of_decide_eq_true hfinished t (mem_targets t)) .engine .asyncLLM (by decide) .generate
    f hf .adapter (by decide)
  rw [hlayers] at hone
  cases hone

end VllmObserver.Bootstrap
