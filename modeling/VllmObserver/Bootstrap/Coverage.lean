import VllmObserver.Bootstrap.Steps
import Mathlib.Data.List.Induction

/-! # Every layer, once a module is reached

When the hook, `install` or a call of `_instrument` comes to a module whose body
has run, every hooked method it binds has all its layers afterwards. The adapter
asks for two modules: it is there when one of them is instrumented while both
classes are bound. -/
namespace VllmObserver.Bootstrap

open Lib

variable {sw : Switches}

/-- The classes a module's installer looks up in it. -/
def Target.hooks : Target → List ClassName
  | .core => [.engineCore]
  | .engine => [.asyncLLM]
  | .stats => [.iterationStats]
  | .inputProcessor => [.inputProcessor]
  | .scheduler => [.scheduler]
  | .servingChat => [.openAIServingChat, .openAIServingCompletion]
  | .servingCompletion => [.openAIServingChat, .openAIServingCompletion]
  | .protocolChat => [.chatCompletionRequest, .completionRequest]
  | .protocolCompletion => [.chatCompletionRequest, .completionRequest]
  | .launchersApp => []
  | .apiServer => []

/-- The method, where the module has it, carries the layer. -/
def World.Carries (w : World) (t : Target) (n : ClassName) (m : Method) (l : Layer) : Prop :=
  ∀ f, w.method t n m = some f → l ∈ f.layers

theorem Extends.carries {w w' : World} (hg : Extends w w') {t : Target} {n : ClassName} {m : Method}
    {l : Layer} (h : w.Carries t n m l) : w'.Carries t n m l := by
  intro f' hf'
  obtain ⟨c, hbound, hmethod⟩ := World.method_eq_some.mp hf'
  obtain ⟨f, hf, ht⟩ := hg.methodAt hmethod
  rw [hg.bound] at hbound
  exact ht.layers l (h f (World.method_eq_some.mpr ⟨c, hbound, hf⟩))

/-- The code ran to its end by effects, and a fact holds after it. -/
structure Settles (sw : Switches) (w : World) (r : Patched) (P : World → Prop) : Prop where
  effects : Effects sw w r.1
  quiet : r.2 = none
  holds : P r.1

theorem Settles.andThen {w : World} {r : Patched} {next : World → Patched} {P Q : World → Prop}
    (hinv : Inv sw w) (hr : Settles sw w r P)
    (hnext : ∀ w', Inv sw w' → Grows w w' → P w' → Settles sw w' (next w') Q) :
    Settles sw w (andThen r next) Q := by
  obtain ⟨w', raised⟩ := r
  obtain rfl : raised = none := hr.quiet
  have hlast := hnext w' (hinv.effects hr.effects) hr.effects.grows hr.holds
  exact ⟨hr.effects.trans hlast.effects, hlast.quiet, hlast.holds⟩

theorem Settles.imp {w : World} {r : Patched} {P Q : World → Prop} (h : Settles sw w r P)
    (hPQ : P r.1 → Q r.1) : Settles sw w r Q :=
  ⟨h.effects, h.quiet, hPQ h.holds⟩

/-- A loop whose body settles a fact that later effects keep. -/
theorem foldl_settles {α : Type} (body : α → World → Patched) (P : α → World → Prop) {w : World}
    (hinv : Inv sw w) (hkeep : ∀ x w₁ w₂, Grows w₁ w₂ → P x w₁ → P x w₂) (xs : List α)
    (hbody : ∀ x ∈ xs, ∀ w', Inv sw w' → Grows w w' → Settles sw w' (body x w') (P x)) :
    Settles sw w (xs.foldl (fun r x => andThen r (body x)) (w, none)) fun w => ∀ x ∈ xs, P x w := by
  induction xs using List.reverseRecOn with
  | nil => exact ⟨.refl, rfl, by simp⟩
  | append_singleton xs x ih =>
    rw [List.foldl_append, List.foldl_cons, List.foldl_nil]
    have hxs := ih fun y hy => hbody y (List.mem_append_left [x] hy)
    refine hxs.andThen hinv fun w' hinv' hg hdone => ?_
    have hx := hbody x (List.mem_append_right xs List.mem_cons_self) w' hinv' hg
    refine hx.imp fun hP y hy => ?_
    rcases List.mem_append.mp hy with hy | hy
    · exact hkeep y _ _ hx.effects.grows (hdone y hy)
    · rw [List.mem_singleton.mp hy]
      exact hP

/-- A last check that changes nothing. -/
theorem andThen_keeps {r : Patched} {next : World → Patched} (h : ∀ w, (next w).1 = w) :
    (andThen r next).1 = r.1 := by
  obtain ⟨w, raised⟩ := r
  cases raised with
  | none => exact h w
  | some e => rfl

theorem timed_ok {k : Kind} {f : Func} {contract : List String}
    (h : ∀ p ∈ contract, p ∈ f.parameters) :
    timed k f contract = .ok (f.wraps .stages k [.observerStages]) := by
  unfold timed
  rw [if_pos]
  exact List.all_eq_true.mpr fun p hp => decide_eq_true (h p hp)

theorem method_setMethod {w : World} {t : Target} {n : ClassName} {m : Method} {f₀ : Func}
    (h : w.method t n m = some f₀) (f : Func) : (w.setMethod t n m f).method t n m = some f := by
  obtain ⟨c, hbound, hmethod⟩ := World.method_eq_some.mp h
  rw [World.setMethod_eq hbound]
  refine World.method_eq_some.mpr ⟨c, by simpa using hbound, ?_⟩
  rw [World.methodAt_setMethodAt hmethod, if_pos ⟨rfl, rfl⟩]

/-- What the invariant says of a method found through a module. -/
theorem Inv.marked_method {w : World} (h : Inv sw w) {t : Target} {n : ClassName} {m : Method}
    {f : Func} (hstats : n ≠ .iterationStats) (hf : w.method t n m = some f) :
    Layered.Marked Layer.mark f := by
  obtain ⟨c, hbound, hmethod⟩ := World.method_eq_some.mp hf
  exact h.marked (h.named hbound) hstats hmethod

theorem Inv.meets_method {w : World} (h : Inv sw w) {t : Target} {n : ClassName} {m : Method}
    {f : Func} (hf : w.method t n m = some f) : f.origin.Meets n m := by
  obtain ⟨c, hbound, hmethod⟩ := World.method_eq_some.mp hf
  exact h.meets (h.named hbound) hmethod

theorem Inv.exists_method {w : World} (h : Inv sw w) {t : Target} {n : ClassName} {c : ℕ}
    (hbound : w.bound t n = some c) {m : Method} (hm : m ∈ contractMethods n) :
    ∃ f, w.methodAt c m = some f ∧ w.method t n m = some f := by
  obtain ⟨f, hf⟩ := Option.isSome_iff_exists.mp (h.present (h.named hbound) hm)
  exact ⟨f, hf, World.method_eq_some.mpr ⟨c, hbound, hf⟩⟩

/-- A wrapping that its contract cannot stop puts its layer on. -/
theorem wrapMethod_settles {l : Layer} {wrap : Func → Except PyError Func} {t : Target}
    {n : ClassName} {m : Method} {w : World} (h : Inv sw w) (hstats : n ≠ .iterationStats)
    (hlayer : l ∈ expectedLayers sw n m) (hown : l ≠ .adapter ∧ (n = .scheduler → l ≠ .stages))
    (hwrap : ∀ f, w.method t n m = some f → ∃ k, wrap f = .ok (f.wraps l k [l.mark])) :
    Settles sw w (wrapMethod l wrap t n m w) (·.Carries t n m l) := by
  unfold wrapMethod
  split
  · rename_i hnone
    exact ⟨.refl, rfl, fun f hf => by rw [hnone] at hf; cases hf⟩
  · rename_i f hf
    split
    · rename_i hmark
      refine ⟨.refl, rfl, fun f' hf' => ?_⟩
      obtain rfl := Option.some.inj (hf.symm.trans hf')
      exact ((h.marked_method hstats hf).mark_iff l).mp hmark
    · rename_i hmark
      obtain ⟨k, hk⟩ := hwrap f hf
      rw [hk]
      refine ⟨setMethod_effects hf hmark hlayer hown k, rfl, fun f' hf' => ?_⟩
      obtain rfl := Option.some.inj ((method_setMethod hf _).symm.trans hf')
      simp

theorem installEach_carries {w : World} (h : Inv sw w) {k : Kind} {contract : List String}
    (missing : String) (t : Target)
    {hooks : List (ClassName × Method)}
    (hhooks : ∀ x ∈ hooks, Layer.stages ∈ expectedLayers sw x.1 x.2 ∧ x.1 ≠ .scheduler ∧
      x.1 ≠ .iterationStats ∧ contractParameters x.1 x.2 = contract) :
    ∀ x ∈ hooks, (installEach (timed k · contract) missing t hooks w).1.Carries t x.1 x.2
      .stages := by
  have hloop := foldl_settles (fun x => wrapMethod .stages (timed k · contract) t x.1 x.2)
    (fun x w => w.Carries t x.1 x.2 .stages) h (fun _ _ _ hg => hg.carries) hooks <| by
      intro x hx w' hinv' _
      obtain ⟨hlayer, hsched, hstats, hparams⟩ := hhooks x hx
      refine wrapMethod_settles hinv' hstats hlayer ⟨by decide, fun he => absurd he hsched⟩ ?_
      intro f hf
      refine ⟨k, timed_ok fun p hp => ?_⟩
      exact (hinv'.meets_method hf).1 p (hparams ▸ hp)
  intro x hx
  rw [installEach, andThen_keeps]
  · exact hloop.holds x hx
  · intro w'
    split <;> rfl

section engine

variable (hengine : sw.engine = true) {w : World} (h : Inv sw w)
include hengine h

theorem installServing_carries (t : Target) : ∀ x ∈ servingHooks,
    (installServing t w).1.Carries t x.1 x.2 .stages := by
  refine installEach_carries h _ t fun x hx => ?_
  simp only [servingHooks, List.mem_cons, List.not_mem_nil, or_false] at hx
  rcases hx with rfl | rfl <;> simp [mem_expectedLayers hengine, hookLayers, contractParameters]

theorem installProtocol_carries (t : Target) : ∀ x ∈ protocolHooks,
    (installProtocol t w).1.Carries t x.1 x.2 .stages := by
  refine installEach_carries h _ t fun x hx => ?_
  simp only [protocolHooks, List.mem_cons, List.not_mem_nil, or_false] at hx
  rcases hx with rfl | rfl <;> simp [mem_expectedLayers hengine, hookLayers, contractParameters]

theorem installInputProcessor_settles (t : Target) :
    Settles sw w (installInputProcessor t w)
      (·.Carries t .inputProcessor .processInputs .stages) := by
  refine wrapMethod_settles h (by decide) (by simp [mem_expectedLayers hengine, hookLayers])
    (by decide) fun f hf => ⟨.plain, timed_ok fun p hp => ?_⟩
  exact (h.meets_method hf).1 p hp

/-- Where the contract's methods are there, the scheduler's two are wrapped together. -/
theorem installScheduler_settles {t : Target} {c : ℕ} (hbound : w.bound t .scheduler = some c) :
    Settles sw w (installScheduler t w) fun w =>
      w.Carries t .scheduler .addRequest .stages ∧ w.Carries t .scheduler .schedule .stages := by
  obtain ⟨add, hadd, hadd'⟩ := h.exists_method hbound
    (show Method.addRequest ∈ _ by simp [contractMethods])
  obtain ⟨schedule, hschedule, hschedule'⟩ := h.exists_method hbound
    (show Method.schedule ∈ _ by simp [contractMethods])
  have heffects := installScheduler_effects hengine t w
  have hinv' := h.effects heffects
  have hg := heffects.grows
  -- the stage of `schedule` brings that of `add_request` along
  have hpair : ((installScheduler t w).1.Carries t .scheduler .schedule .stages) →
      (installScheduler t w).1.Carries t .scheduler .addRequest .stages := by
    intro hc add' hf
    obtain ⟨c', hbound', hmethod⟩ := World.method_eq_some.mp hf
    obtain ⟨schedule', hs', -⟩ := hg.exists_method hschedule
    obtain rfl : c = c' := by
      rw [hg.bound] at hbound'
      exact Option.some.inj (hbound.symm.trans hbound')
    exact (hinv'.scheduler (hinv'.named hbound') hmethod hs').mpr
      (hc schedule' (World.method_eq_some.mpr ⟨c, hbound', hs'⟩))
  refine ⟨heffects, ?_, ?_⟩
  · simp only [installScheduler, hadd', hschedule']
    split <;> rfl
  · have hcarries : (installScheduler t w).1.Carries t .scheduler .schedule .stages := by
      simp only [installScheduler, hadd', hschedule']
      split
      · rename_i hmark
        intro f hf
        obtain rfl := Option.some.inj (hschedule'.symm.trans hf)
        exact ((h.marked_method (by decide) hschedule').mark_iff .stages).mp hmark
      · intro f hf
        have hkept : (w.setMethod t .scheduler .addRequest
            (add.wraps .stages .plain [.observerStages])).method t .scheduler .schedule =
              some schedule := by
          rw [World.setMethod_eq hbound]
          refine World.method_eq_some.mpr ⟨c, by simpa using hbound, ?_⟩
          rw [World.methodAt_setMethodAt hadd, if_neg (by simp), hschedule]
        obtain rfl := Option.some.inj ((method_setMethod hkept _).symm.trans hf)
        simp
    exact ⟨hpair hcarries, hcarries⟩

theorem installDeadline_settles {t : Target} {c : ℕ} (hbound : w.bound t .scheduler = some c) :
    Settles sw w (installDeadline t w) (·.Carries t .scheduler .schedule .deadline) := by
  obtain ⟨schedule, -, hschedule'⟩ := h.exists_method hbound
    (show Method.schedule ∈ _ by simp [contractMethods])
  simp only [installDeadline, hschedule']
  exact wrapMethod_settles h (by decide) (by simp [mem_expectedLayers hengine, hookLayers])
    (by decide) fun f _ => ⟨.plain, rfl⟩

theorem installEngineCore_settles :
    Settles sw w (installEngineCore w) fun w =>
      ∀ m ∈ stepMethods, w.Carries .core .engineCore m .stages := by
  refine foldl_settles (fun m => wrapMethod .stages
    (fun f => .ok (f.wraps .stages .plain [.observerStages])) .core .engineCore m)
    (fun m w => w.Carries .core .engineCore m .stages) h (fun _ _ _ hg => hg.carries) _ ?_
  intro m hm w' hinv' _
  refine wrapMethod_settles hinv' (by decide) ?_ (by decide) fun f _ => ⟨.plain, rfl⟩
  simp only [stepMethods, List.mem_cons, List.not_mem_nil, or_false] at hm
  rcases hm with rfl | rfl <;> cases hl : sw.langfuse <;>
    simp [mem_expectedLayers hengine, hookLayers, hl]

theorem installClock_settles (hlangfuse : sw.langfuse = true) {c : ℕ}
    (hbound : w.bound .core .engineCore = some c) :
    Settles sw w (installClock w) fun w =>
      ∀ m ∈ stepMethods, w.Carries .core .engineCore m .clock := by
  refine foldl_settles wrapClock (fun m w => w.Carries .core .engineCore m .clock) h
    (fun _ _ _ hg => hg.carries) _ ?_
  intro m hm w' hinv' hg
  have hbound' : w'.bound .core .engineCore = some c := by rw [hg.bound]; exact hbound
  obtain ⟨f, -, hf⟩ := hinv'.exists_method hbound' (show m ∈ _ from hm)
  simp only [wrapClock, hf]
  refine wrapMethod_settles hinv' (by decide) ?_ (by decide) fun f _ => ⟨.plain, rfl⟩
  simp only [stepMethods, List.mem_cons, List.not_mem_nil, or_false] at hm
  rcases hm with rfl | rfl <;> simp [mem_expectedLayers hengine, hookLayers, hlangfuse]

/-- The only layer of a method is missing where its attribute is, and the method is as written. -/
theorem Inv.kind_method {t : Target} {n : ClassName} {m : Method} {f : Func} {l : Layer}
    (hstats : n ≠ .iterationStats) (hf : w.method t n m = some f)
    (honly : hookLayers sw.langfuse n m = [l]) (hmark : l.mark ∉ f.attributes) :
    ∀ k ∈ contractKind n m, f.kind = k := by
  obtain ⟨c, hbound, hmethod⟩ := World.method_eq_some.mp hf
  have hnil : f.layers = [] := by
    refine List.eq_nil_iff_forall_not_mem.mpr fun l' hl' => ?_
    have hexpected := h.within (h.named hbound) hmethod hl'
    rw [mem_expectedLayers hengine, honly, List.mem_singleton] at hexpected
    rw [hexpected] at hl'
    exact hmark (((h.marked_method hstats hf).mark_iff l).mpr hl')
  rw [Func.kind_eq_origin hnil]
  exact (h.meets_method hf).2

theorem installAddRequest_carries :
    (installAddRequest w).Carries .engine .asyncLLM .addRequest .stages := by
  unfold installAddRequest
  split
  · rename_i hnone
    intro f hf
    rw [hnone] at hf
    cases hf
  · rename_i f hf
    by_cases hmark : Attribute.observerStages ∈ f.attributes
    · rw [if_neg fun hh => hh.2 hmark]
      intro f' hf'
      obtain rfl := Option.some.inj (hf.symm.trans hf')
      exact ((h.marked_method (by decide) hf).mark_iff .stages).mp hmark
    · have hkind : f.kind = .coroutine :=
        h.kind_method hengine (by decide) hf (l := .stages) rfl hmark _ rfl
      have hself : ∀ p ∈ ["self"], p ∈ f.parameters := (h.meets_method hf).1
      rw [if_pos ⟨hkind, hmark⟩, timedAsync, timed_ok hself]
      intro f' hf'
      obtain rfl := Option.some.inj ((method_setMethod hf _).symm.trans hf')
      simp

theorem installAsyncLlm_settles :
    Settles sw w (installAsyncLlm w) fun w =>
      w.Carries .engine .asyncLLM .addRequest .stages ∧
        w.Carries .engine .asyncLLM .privateAddRequest .stages := by
  have heffects := installAddRequest_effects hengine w
  have hinv' := h.effects heffects
  have hlast : Settles sw (installAddRequest w) (installAsyncLlm w)
      (·.Carries .engine .asyncLLM .privateAddRequest .stages) := by
    refine wrapMethod_settles hinv' (by decide) (by simp [mem_expectedLayers hengine, hookLayers])
      (by decide) fun f hf => ⟨.coroutine, timed_ok fun p hp => ?_⟩
    exact (hinv'.meets_method hf).1 p hp
  exact ⟨heffects.trans hlast.effects, hlast.quiet,
    hlast.effects.grows.carries (installAddRequest_carries hengine h), hlast.holds⟩

/-- With both classes bound, `generate` is observed afterwards. -/
theorem installAdapter_observed {e s : ℕ} (hbe : w.bound .engine .asyncLLM = some e)
    (hbs : w.bound .stats .iterationStats = some s) : (installAdapter w).1.Observed := by
  obtain ⟨generate, hgenerate, hgenerate'⟩ := h.exists_method hbe
    (show Method.generate ∈ _ by simp [contractMethods])
  obtain ⟨update, hupdate, hupdate'⟩ := h.exists_method hbs
    (show Method.updateFromFinishedRequest ∈ _ by simp [contractMethods])
  by_cases hmark : Attribute.observer ∈ generate.attributes
  · have hobserved := (h.observed_iff hbe hgenerate).mpr hmark
    simpa only [installAdapter, hgenerate', if_pos hmark] using hobserved
  · have hkind : generate.kind = .asyncGenerator :=
      h.kind_method hengine (by decide) hgenerate' (l := .adapter) rfl hmark _ rfl
    have hid : "request_id" ∈ generate.parameters :=
      (h.meets_method hgenerate').1 _ (by simp [contractParameters])
    have hid' : "request_id" ∈ update.parameters :=
      (h.meets_method hupdate').1 _ (by simp [contractParameters])
    have hpatch : (installAdapter w).1 = w.patchAdapter e s generate update := by
      simp only [installAdapter, hgenerate', hupdate', if_neg hmark]
      rw [if_neg (by simp [hid, hkind]), if_neg (by simp [hid']), World.setMethod_eq hbe,
        World.setMethod_eq (by simpa using hbs)]
      rfl
    rw [hpatch]
    have heffect := Effect.adapter hengine hbe hbs hgenerate hupdate hmark
    exact h.observed_patchAdapter hbe hbs hgenerate hupdate heffect.grows

theorem instrumentCore_carries {c : ℕ} (hbound : w.bound .core .engineCore = some c) {m : Method}
    {l : Layer} (hl : l ∈ hookLayers sw.langfuse .engineCore m) :
    (instrumentCore sw w).1.Carries .core .engineCore m l := by
  have hstages := installEngineCore_settles hengine h
  have hm : m ∈ stepMethods := by
    cases m <;> simp_all [hookLayers, stepMethods]
  have hcore : Settles sw w (instrumentCore sw w) fun w =>
      w.Carries .core .engineCore m .stages ∧
        (sw.langfuse = true → w.Carries .core .engineCore m .clock) := by
    simp only [instrumentCore, hbound]
    refine hstages.andThen h fun w' hinv' hg hdone => ?_
    have hbound' : w'.bound .core .engineCore = some c := by rw [hg.bound]; exact hbound
    cases hlangfuse : sw.langfuse with
    | false => exact ⟨.refl, rfl, hdone m hm, by simp⟩
    | true =>
      have hall : (stepMethods.all fun m => (w'.method .core .engineCore m).isSome) = true := by
        refine List.all_eq_true.mpr fun m' hm' => ?_
        obtain ⟨f, -, hf⟩ := hinv'.exists_method hbound' (show m' ∈ _ from hm')
        rw [hf]
        rfl
      simp only [onlyIf, if_true, hall]
      have hclock := installClock_settles hengine hinv' hlangfuse hbound'
      exact hclock.imp fun hc => ⟨hclock.effects.grows.carries (hdone m hm), fun _ => hc m hm⟩
  have hcases : l = .stages ∨ sw.langfuse = true ∧ l = .clock := by
    cases hlangfuse : sw.langfuse <;> cases m <;> simp_all [hookLayers, stepMethods] <;> tauto
  rcases hcases with rfl | ⟨hlangfuse, rfl⟩
  · exact hcore.holds.1
  · exact hcore.holds.2 hlangfuse

theorem instrumentScheduler_carries {c : ℕ} (hbound : w.bound .scheduler .scheduler = some c)
    {m : Method} {l : Layer} (hl : l ∈ hookLayers sw.langfuse .scheduler m) :
    (andThen (installScheduler .scheduler w) (installDeadline .scheduler)).1.Carries .scheduler
      .scheduler m l := by
  have hboth : Settles sw w (andThen (installScheduler .scheduler w) (installDeadline .scheduler))
      fun w => (w.Carries .scheduler .scheduler .addRequest .stages ∧
        w.Carries .scheduler .scheduler .schedule .stages) ∧
          w.Carries .scheduler .scheduler .schedule .deadline := by
    refine (installScheduler_settles hengine h hbound).andThen h fun w' hinv' hg hdone => ?_
    have hdeadline := installDeadline_settles hengine hinv' (t := .scheduler)
      (by rw [hg.bound]; exact hbound)
    have hkept := hdeadline.effects.grows
    exact hdeadline.imp fun hd => ⟨⟨hkept.carries hdone.1, hkept.carries hdone.2⟩, hd⟩
  obtain ⟨⟨hadd, hschedule⟩, hdeadline⟩ := hboth.holds
  cases m <;> simp only [hookLayers, List.mem_cons, List.not_mem_nil, or_false] at hl
  case addRequest =>
    rw [hl]
    exact hadd
  case schedule =>
    rcases hl with rfl | rfl
    · exact hdeadline
    · exact hschedule

/-- Both classes bound: the stages of `AsyncLLM` and the adapter's three. -/
theorem instrumentEngine_carries {e s : ℕ} (hbe : w.bound .engine .asyncLLM = some e)
    (hbs : w.bound .stats .iterationStats = some s) :
    (∀ m, ∀ l ∈ hookLayers sw.langfuse .asyncLLM m,
      (instrumentEngine w).1.Carries .engine .asyncLLM m l) ∧
    ∀ m, ∀ l ∈ hookLayers sw.langfuse .iterationStats m,
      (instrumentEngine w).1.Carries .stats .iterationStats m l := by
  have hllm := installAsyncLlm_settles hengine h
  have hinv₁ := h.effects hllm.effects
  have hg₁ := hllm.effects.grows
  have hresult : (instrumentEngine w).1 = (installAdapter (installAsyncLlm w).1).1 := by
    simp only [instrumentEngine, hbe, hbs, andThen]
    have hquiet := hllm.quiet
    generalize installAsyncLlm w = r at hquiet
    obtain ⟨w', raised⟩ := r
    obtain rfl : raised = none := hquiet
    rfl
  rw [hresult]
  have heffects := installAdapter_effects hengine (installAsyncLlm w).1
  have hinv₂ := hinv₁.effects heffects
  have hg₂ := heffects.grows
  have hobserved := installAdapter_observed hengine hinv₁ (by rw [hg₁.bound]; exact hbe)
    (by rw [hg₁.bound]; exact hbs)
  refine ⟨fun m l hl => ?_, fun m l hl f hf => ?_⟩
  · cases m <;> simp only [hookLayers, List.mem_cons, List.not_mem_nil, or_false] at hl <;> subst hl
    case addRequest => exact hg₂.carries hllm.holds.1
    case privateAddRequest => exact hg₂.carries hllm.holds.2
    case generate =>
      intro f hf
      obtain ⟨e', f', hbound', hf', hmem⟩ := hobserved
      obtain ⟨e'', hbound'', hf''⟩ := World.method_eq_some.mp hf
      obtain rfl := Option.some.inj (hbound'.symm.trans hbound'')
      obtain rfl := Option.some.inj (hf'.symm.trans hf'')
      exact hmem
  · obtain ⟨s', hbound', hf'⟩ := World.method_eq_some.mp hf
    have hlayer : l = .adapter := layer_of_stats ((mem_expectedLayers hengine).mpr hl)
    subst hlayer
    exact (hinv₂.updates (hinv₂.named hbound') hl hf').mpr ⟨hbound', hobserved⟩

end engine

theorem carries_of_unbound {w : World} {t : Target} {n : ClassName} (h : w.bound t n = none)
    (m : Method) (l : Layer) : w.Carries t n m l := by
  intro f hf
  simp [World.method, h] at hf

section serving

variable (hengine : sw.engine = true) {w : World} (h : Inv sw w)
include hengine h

theorem installServing_layers (t : Target) {n : ClassName}
    (hn : n = .openAIServingChat ∨ n = .openAIServingCompletion) {m : Method} {l : Layer}
    (hl : l ∈ hookLayers sw.langfuse n m) : (installServing t w).1.Carries t n m l := by
  have hall := installServing_carries hengine h t
  rcases hn with rfl | rfl <;> cases m <;>
    simp only [hookLayers, List.mem_cons, List.not_mem_nil, or_false] at hl <;> subst hl
  · exact hall (.openAIServingChat, .renderChatRequest) (by simp [servingHooks])
  · exact hall (.openAIServingCompletion, .renderCompletionRequest) (by simp [servingHooks])

theorem installProtocol_layers (t : Target) {n : ClassName}
    (hn : n = .chatCompletionRequest ∨ n = .completionRequest) {m : Method} {l : Layer}
    (hl : l ∈ hookLayers sw.langfuse n m) : (installProtocol t w).1.Carries t n m l := by
  have hall := installProtocol_carries hengine h t
  rcases hn with rfl | rfl <;> cases m <;>
    simp only [hookLayers, List.mem_cons, List.not_mem_nil, or_false] at hl <;> subst hl
  · exact hall (.chatCompletionRequest, .toSamplingParams) (by simp [protocolHooks])
  · exact hall (.completionRequest, .toSamplingParams) (by simp [protocolHooks])

theorem installInputProcessor_layers (t : Target) {m : Method} {l : Layer}
    (hl : l ∈ hookLayers sw.langfuse .inputProcessor m) :
    (installInputProcessor t w).1.Carries t .inputProcessor m l := by
  cases m <;> simp only [hookLayers, List.mem_cons, List.not_mem_nil, or_false] at hl
  subst hl
  exact (installInputProcessor_settles hengine h t).holds

/-- A module's own installers put every layer on what it binds. The adapter's
two modules need both classes. -/
theorem instrumentHooks_carries {t : Target} {n : ClassName} (hn : n ∈ t.hooks) {c : ℕ}
    (hbound : w.bound t n = some c)
    (hpair : t = .engine ∨ t = .stats →
      (w.bound .engine .asyncLLM).isSome ∧ (w.bound .stats .iterationStats).isSome)
    {m : Method} {l : Layer} (hl : l ∈ hookLayers sw.langfuse n m) :
    (instrumentHooks sw w t).1.Carries t n m l := by
  cases t <;> simp only [Target.hooks, List.mem_cons, List.not_mem_nil, or_false] at hn
  case core =>
    subst hn
    exact instrumentCore_carries hengine h hbound hl
  case engine =>
    subst hn
    obtain ⟨s, hs⟩ := Option.isSome_iff_exists.mp (hpair (.inl rfl)).2
    exact (instrumentEngine_carries hengine h hbound hs).1 m l hl
  case stats =>
    subst hn
    obtain ⟨e, he⟩ := Option.isSome_iff_exists.mp (hpair (.inr rfl)).1
    exact (instrumentEngine_carries hengine h he hbound).2 m l hl
  case inputProcessor =>
    subst hn
    exact installInputProcessor_layers hengine h _ hl
  case scheduler =>
    subst hn
    exact instrumentScheduler_carries hengine h hbound hl
  case servingChat => exact installServing_layers hengine h _ hn hl
  case servingCompletion => exact installServing_layers hengine h _ hn hl
  case protocolChat => exact installProtocol_layers hengine h _ hn hl
  case protocolCompletion => exact installProtocol_layers hengine h _ hn hl

end serving

end VllmObserver.Bootstrap
