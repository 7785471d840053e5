import VllmObserver.Bootstrap.Growth

/-! # No layer twice

The invariants of a process in which modules are loaded and patched in any
order. A layer that guards itself is on a function exactly when its attribute is
on the outermost wrapper. Two groups of methods are guarded by another's
attribute: the scheduler's two by `schedule`, the adapter's three by `generate`;
for these the invariant ties the whole group together. -/
namespace VllmObserver.Bootstrap

open Lib

variable {sw : Switches}

theorem layer_of_stats {l : Layer} {m : Method}
    (h : l ∈ expectedLayers sw .iterationStats m) : l = .adapter := by
  unfold expectedLayers at h
  split at h
  · cases m <;> simp_all [hookLayers]
  · cases h

/-- `AsyncLLM.generate` carries the adapter. -/
def World.Observed (w : World) : Prop :=
  ∃ e f, w.bound .engine .asyncLLM = some e ∧ w.methodAt e .generate = some f ∧
    Layer.adapter ∈ f.layers

structure Inv (sw : Switches) (w : World) : Prop where
  named : ∀ {t n c}, w.bound t n = some c → w.nameAt c = some n
  meets : ∀ {c n m f}, w.nameAt c = some n → w.methodAt c m = some f → f.origin.Meets n m
  present : ∀ {c n m}, w.nameAt c = some n → m ∈ contractMethods n → (w.methodAt c m).isSome
  within : ∀ {c n m f l}, w.nameAt c = some n → w.methodAt c m = some f → l ∈ f.layers →
    l ∈ expectedLayers sw n m
  marked : ∀ {c n m f}, w.nameAt c = some n → n ≠ .iterationStats → w.methodAt c m = some f →
    Layered.Marked Layer.mark f
  /-- The updates carry no attribute. -/
  updatesOnce : ∀ {s m f}, w.nameAt s = some .iterationStats → w.methodAt s m = some f →
    f.layers.Nodup
  /-- `add_request` has its stage exactly when `schedule` has. -/
  scheduler : ∀ {c add schedule}, w.nameAt c = some .scheduler →
    w.methodAt c .addRequest = some add → w.methodAt c .schedule = some schedule →
    (Layer.stages ∈ add.layers ↔ Layer.stages ∈ schedule.layers)
  /-- Only the bound `AsyncLLM` is observed, and only beside a bound `IterationStats`. -/
  generate : ∀ {e f}, w.nameAt e = some .asyncLLM → w.methodAt e .generate = some f →
    Layer.adapter ∈ f.layers →
      w.bound .engine .asyncLLM = some e ∧ (w.bound .stats .iterationStats).isSome
  /-- The updates carry the adapter exactly when `generate` does. -/
  updates : ∀ {s m f}, w.nameAt s = some .iterationStats →
    Layer.adapter ∈ hookLayers sw.langfuse .iterationStats m → w.methodAt s m = some f →
    (Layer.adapter ∈ f.layers ↔ w.bound .stats .iterationStats = some s ∧ w.Observed)
  app : ∀ {t f}, w.buildApp t = some f →
    Layered.Marked Layer.mark f ∧ ∀ l ∈ f.layers, l = .bootstrap

theorem inv_initial (sw : Switches) : Inv sw World.initial where
  named h := by cases h
  meets h := by cases h
  present h := by cases h
  within h := by cases h
  marked h := by cases h
  updatesOnce h := by cases h
  scheduler h := by cases h
  generate h := by cases h
  updates h := by cases h
  app h := by cases h

/-- `schedule` has no stage where its attribute is missing, and so neither method has. -/
theorem Inv.scheduler_clean {w : World} (h : Inv sw w) {c : ℕ} {add schedule : Func}
    (hn : w.nameAt c = some .scheduler) (hadd : w.methodAt c .addRequest = some add)
    (hschedule : w.methodAt c .schedule = some schedule)
    (hmark : Attribute.observerStages ∉ schedule.attributes) :
    Layer.stages ∉ schedule.layers ∧ Layer.stages ∉ add.layers := by
  have hs : Layer.stages ∉ schedule.layers := fun hmem =>
    hmark (((h.marked hn (by simp) hschedule).mark_iff .stages).mpr hmem)
  exact ⟨hs, fun hmem => hs ((h.scheduler hn hadd hschedule).mp hmem)⟩

/-- The bound `generate` decides whether anything is observed. -/
theorem Inv.observed_iff {w : World} (h : Inv sw w) {e : ℕ} {generate : Func}
    (hbound : w.bound .engine .asyncLLM = some e)
    (hgenerate : w.methodAt e .generate = some generate) :
    w.Observed ↔ Attribute.observer ∈ generate.attributes := by
  rw [show Attribute.observer = Layer.adapter.mark from rfl,
    (h.marked (h.named hbound) (by simp) hgenerate).mark_iff]
  constructor
  · rintro ⟨e', f, hbound', hf, hmem⟩
    obtain rfl := Option.some.inj (hbound.symm.trans hbound')
    obtain rfl := Option.some.inj (hgenerate.symm.trans hf)
    exact hmem
  · exact fun hmem => ⟨e, generate, hbound, hgenerate, hmem⟩

/-- What an effect does to one function: nothing, or one layer that belongs there
and was missing, with its mark where the class has marks. -/
theorem Effect.layer {w w' : World} (h : Inv sw w) (he : Effect sw w w') {c : ℕ} {n : ClassName}
    {m : Method} {f' : Func} (hn : w.nameAt c = some n) (hf' : w'.methodAt c m = some f') :
    w.methodAt c m = some f' ∨ ∃ f l k marks, w.methodAt c m = some f ∧ f' = f.wraps l k marks ∧
      l ∈ expectedLayers sw n m ∧ l ∉ f.layers ∧
      (n ≠ .iterationStats → marks = [l.mark] ∧ l.mark ∉ f.attributes) := by
  cases he with
  | @wrap t n₀ c₀ m₀ f₀ l k hbound hmethod hmark hlayer hown =>
    rw [World.methodAt_setMethodAt hmethod] at hf'
    split at hf'
    · rename_i heq
      obtain ⟨rfl, rfl⟩ := heq
      obtain rfl : n₀ = n := Option.some.inj ((h.named hbound).symm.trans hn)
      have hstats : n₀ ≠ .iterationStats := by
        rintro rfl
        exact hown.1 (layer_of_stats hlayer)
      refine .inr ⟨f₀, l, k, [l.mark], hmethod, (Option.some.inj hf').symm, hlayer, ?_,
        fun _ => ⟨rfl, hmark⟩⟩
      exact fun hmem => hmark (((h.marked hn hstats hmethod).mark_iff l).mpr hmem)
    · exact .inl hf'
  | @scheduler t c₀ add schedule hengine hbound hadd hschedule hmark =>
    rw [methodAt_scheduler hadd hschedule] at hf'
    split at hf'
    · rename_i heq
      obtain ⟨rfl, hm⟩ := heq
      obtain ⟨f, hf, rfl⟩ := Option.map_eq_some_iff.mp hf'
      obtain rfl : ClassName.scheduler = n := Option.some.inj ((h.named hbound).symm.trans hn)
      obtain ⟨hs, ha⟩ := h.scheduler_clean hn hadd hschedule hmark
      have hclean : Layer.stages ∉ f.layers := by
        rcases hm with rfl | rfl
        · obtain rfl := Option.some.inj (hadd.symm.trans hf)
          exact ha
        · obtain rfl := Option.some.inj (hschedule.symm.trans hf)
          exact hs
      refine .inr ⟨f, .stages, .plain, [.observerStages], hf, rfl, ?_, hclean, fun _ => ⟨rfl, ?_⟩⟩
      · rw [mem_expectedLayers hengine]
        rcases hm with rfl | rfl <;> simp [hookLayers]
      · exact fun hmem => hclean (((h.marked hn (by simp) hf).mark_iff .stages).mp hmem)
    · exact .inl hf'
  | @adapter e s generate update hengine hbe hbs hgenerate hupdate hmark =>
    have hne : e ≠ s := by
      rintro rfl
      cases (h.named hbe).symm.trans (h.named hbs)
    have hobserved : ¬ w.Observed := fun ho => hmark ((h.observed_iff hbe hgenerate).mp ho)
    rw [methodAt_adapter hne hbs hgenerate hupdate] at hf'
    split at hf'
    · rename_i heq
      obtain ⟨rfl, rfl⟩ := heq
      obtain ⟨f, hf, rfl⟩ := Option.map_eq_some_iff.mp hf'
      obtain rfl := Option.some.inj (hgenerate.symm.trans hf)
      obtain rfl : ClassName.asyncLLM = n := Option.some.inj ((h.named hbe).symm.trans hn)
      refine .inr ⟨generate, .adapter, _, _, hf, rfl, ?_, ?_, fun _ => ⟨rfl, hmark⟩⟩
      · simp [mem_expectedLayers hengine, hookLayers]
      · exact fun hmem => hobserved ⟨c, generate, hbe, hf, hmem⟩
    · split at hf'
      · rename_i heq
        obtain ⟨rfl, hm⟩ := heq
        obtain ⟨f, hf, rfl⟩ := Option.map_eq_some_iff.mp hf'
        obtain rfl : ClassName.iterationStats = n := Option.some.inj ((h.named hbs).symm.trans hn)
        have hhook : Layer.adapter ∈ hookLayers sw.langfuse .iterationStats m := by
          rcases hm with rfl | rfl <;> simp [hookLayers]
        refine .inr ⟨f, .adapter, _, _, hf, rfl, (mem_expectedLayers hengine).mpr hhook, ?_,
          fun hstats => absurd rfl hstats⟩
        exact fun hmem => hobserved ((h.updates hn hhook hf).mp hmem).2
      · exact .inl hf'
  | app happ hmark =>
    rw [World.methodAt_setBuildApp] at hf'
    exact .inl hf'
  | warn t e => exact .inl hf'

/-- A layer of its own guard leaves the layers of the two groups as they were. -/
theorem Effect.group_wrap {w : World} (h : Inv sw w) {t : Target} {n : ClassName} {c c' : ℕ}
    {m m' : Method} {f f' : Func} {l l' : Layer} {k : Kind} (hbound : w.bound t n = some c)
    (hmethod : w.methodAt c m = some f) (hown : l ≠ .adapter ∧ (n = .scheduler → l ≠ .stages))
    (hl : l' = .adapter ∨ w.nameAt c' = some .scheduler ∧ l' = .stages)
    (hf' : (w.setMethodAt c m (f.wraps l k [l.mark])).methodAt c' m' = some f') :
    ∃ f₀, w.methodAt c' m' = some f₀ ∧ (l' ∈ f'.layers ↔ l' ∈ f₀.layers) := by
  rw [World.methodAt_setMethodAt hmethod] at hf'
  split at hf'
  · rename_i heq
    obtain ⟨rfl, rfl⟩ := heq
    obtain rfl := Option.some.inj hf'
    refine ⟨f, hmethod, ?_⟩
    have hne : l' ≠ l := by
      rcases hl with rfl | ⟨hsched, rfl⟩
      · exact hown.1.symm
      · exact (hown.2 (Option.some.inj ((h.named hbound).symm.trans hsched))).symm
    simp [hne]
  · exact ⟨f', hf', Iff.rfl⟩

theorem Effect.scheduler_group {w w' : World} (h : Inv sw w) (he : Effect sw w w') {c : ℕ}
    (hn : w.nameAt c = some .scheduler) {add schedule : Func}
    (hadd : w'.methodAt c .addRequest = some add)
    (hschedule : w'.methodAt c .schedule = some schedule) :
    Layer.stages ∈ add.layers ↔ Layer.stages ∈ schedule.layers := by
  cases he with
  | wrap k hbound hmethod hmark hlayer hown =>
    obtain ⟨add₀, hadd₀, hiff⟩ := Effect.group_wrap h hbound hmethod hown (.inr ⟨hn, rfl⟩) hadd
    obtain ⟨schedule₀, hschedule₀, hiff'⟩ :=
      Effect.group_wrap h hbound hmethod hown (.inr ⟨hn, rfl⟩) hschedule
    rw [hiff, hiff']
    exact h.scheduler hn hadd₀ hschedule₀
  | @scheduler t c₀ add₀ schedule₀ hengine hbound hadd₀ hschedule₀ hmark =>
    rw [methodAt_scheduler hadd₀ hschedule₀] at hadd hschedule
    by_cases hc : c = c₀
    · subst hc
      rw [if_pos ⟨rfl, .inl rfl⟩, hadd₀] at hadd
      rw [if_pos ⟨rfl, .inr rfl⟩, hschedule₀] at hschedule
      obtain rfl := Option.some.inj hadd
      obtain rfl := Option.some.inj hschedule
      simp
    · rw [if_neg fun hh => hc hh.1] at hadd hschedule
      exact h.scheduler hn hadd hschedule
  | @adapter e s generate update hengine hbe hbs hgenerate hupdate hmark =>
    have hce : c ≠ e := by
      rintro rfl
      cases (h.named hbe).symm.trans hn
    have hcs : c ≠ s := by
      rintro rfl
      cases (h.named hbs).symm.trans hn
    have hne : e ≠ s := by
      rintro rfl
      cases (h.named hbe).symm.trans (h.named hbs)
    rw [methodAt_adapter hne hbs hgenerate hupdate, if_neg fun hh => hce hh.1,
      if_neg fun hh => hcs hh.1] at hadd hschedule
    exact h.scheduler hn hadd hschedule
  | app happ hmark =>
    rw [World.methodAt_setBuildApp] at hadd hschedule
    exact h.scheduler hn hadd hschedule
  | warn t e => exact h.scheduler hn hadd hschedule

/-- The adapter is on the same functions in both states. -/
def SameAdapter (w w' : World) : Prop :=
  ∀ {c m f'}, w'.methodAt c m = some f' →
    ∃ f, w.methodAt c m = some f ∧ (Layer.adapter ∈ f'.layers ↔ Layer.adapter ∈ f.layers)

/-- Only the adapter's own effect puts it on. -/
theorem Effect.sameAdapter {w w' : World} (h : Inv sw w) (he : Effect sw w w') :
    SameAdapter w w' ∨ ∃ e s generate update, sw.engine = true ∧
      w.bound .engine .asyncLLM = some e ∧ w.bound .stats .iterationStats = some s ∧
      w.methodAt e .generate = some generate ∧
      w.methodAt s .updateFromFinishedRequest = some update ∧
      w' = w.patchAdapter e s generate update := by
  cases he with
  | wrap k hbound hmethod hmark hlayer hown =>
    exact .inl fun hf' => Effect.group_wrap h hbound hmethod hown (.inl rfl) hf'
  | scheduler hengine hbound hadd hschedule hmark =>
    refine .inl fun {c m f'} hf' => ?_
    rw [methodAt_scheduler hadd hschedule] at hf'
    split at hf'
    · obtain ⟨f, hf, rfl⟩ := Option.map_eq_some_iff.mp hf'
      exact ⟨f, hf, by simp⟩
    · exact ⟨f', hf', Iff.rfl⟩
  | adapter hengine hbe hbs hgenerate hupdate hmark =>
    exact .inr ⟨_, _, _, _, hengine, hbe, hbs, hgenerate, hupdate, rfl⟩
  | app happ hmark =>
    refine .inl fun {c m f'} hf' => ?_
    rw [World.methodAt_setBuildApp] at hf'
    exact ⟨f', hf', Iff.rfl⟩
  | warn t e => exact .inl fun {c m f'} hf' => ⟨f', hf', Iff.rfl⟩

theorem Extends.exists_method {w w' : World} (hg : Extends w w') {c : ℕ} {m : Method} {f : Func}
    (hf : w.methodAt c m = some f) : ∃ f', w'.methodAt c m = some f' ∧ Thicker f f' := by
  have hsome : (w'.methodAt c m).isSome := by rw [hg.present, hf]; rfl
  obtain ⟨f', hf'⟩ := Option.isSome_iff_exists.mp hsome
  obtain ⟨f₀, hf₀, ht⟩ := hg.methodAt hf'
  obtain rfl := Option.some.inj (hf.symm.trans hf₀)
  exact ⟨f', hf', ht⟩

theorem Grows.observed {w w' : World} (hg : Grows w w') (h : w.Observed) : w'.Observed := by
  obtain ⟨e, f, hbound, hf, hmem⟩ := h
  obtain ⟨f', hf', ht⟩ := hg.exists_method hf
  exact ⟨e, f', by rw [hg.bound]; exact hbound, hf', ht.layers _ hmem⟩

theorem SameAdapter.observed_iff {w w' : World} (hs : SameAdapter w w') (hg : Grows w w') :
    w'.Observed ↔ w.Observed := by
  refine ⟨?_, hg.observed⟩
  rintro ⟨e, f', hbound, hf', hmem⟩
  obtain ⟨f, hf, hiff⟩ := hs hf'
  exact ⟨e, f, by rw [← hg.bound]; exact hbound, hf, hiff.mp hmem⟩

section patchAdapter

variable {w : World} (h : Inv sw w) {e s : ℕ} {generate update : Func}
  (hbe : w.bound .engine .asyncLLM = some e) (hbs : w.bound .stats .iterationStats = some s)
  (hgenerate : w.methodAt e .generate = some generate)
  (hupdate : w.methodAt s .updateFromFinishedRequest = some update)
include h hbe hbs hgenerate hupdate

theorem Inv.methodAt_patchAdapter (c : ℕ) (m : Method) :
    (w.patchAdapter e s generate update).methodAt c m =
      if c = e ∧ m = .generate then
        (w.methodAt c m).map (·.wraps .adapter .asyncGenerator [.observer])
      else if c = s ∧ (m = .updateFromFinishedRequest ∨ m = .updateFromOutput) then
        (w.methodAt c m).map (·.wraps .adapter .plain [])
      else w.methodAt c m := by
  have hne : e ≠ s := by
    rintro rfl
    cases (h.named hbe).symm.trans (h.named hbs)
  exact methodAt_adapter hne hbs hgenerate hupdate c m

theorem Inv.observed_patchAdapter (hg : Grows w (w.patchAdapter e s generate update)) :
    (w.patchAdapter e s generate update).Observed := by
  refine ⟨e, generate.wraps .adapter .asyncGenerator [.observer], by rw [hg.bound]; exact hbe, ?_,
    by simp⟩
  rw [h.methodAt_patchAdapter hbe hbs hgenerate hupdate, if_pos ⟨rfl, rfl⟩, hgenerate]
  rfl

end patchAdapter

theorem Effect.generate_group {w w' : World} (h : Inv sw w) (he : Effect sw w w') {e : ℕ}
    (hn : w.nameAt e = some .asyncLLM) {f' : Func} (hf' : w'.methodAt e .generate = some f')
    (hmem : Layer.adapter ∈ f'.layers) :
    w.bound .engine .asyncLLM = some e ∧ (w.bound .stats .iterationStats).isSome := by
  rcases he.sameAdapter h with hs | ⟨e₀, s, generate, update, -, hbe, hbs, hgenerate, hupdate, rfl⟩
  · obtain ⟨f, hf, hiff⟩ := hs hf'
    exact h.generate hn hf (hiff.mp hmem)
  · rw [h.methodAt_patchAdapter hbe hbs hgenerate hupdate] at hf'
    split at hf'
    · rename_i heq
      exact ⟨heq.1 ▸ hbe, by rw [hbs]; rfl⟩
    · rw [if_neg (by simp)] at hf'
      exact h.generate hn hf' hmem

theorem Effect.updates_group {w w' : World} (h : Inv sw w) (he : Effect sw w w') {s : ℕ}
    (hn : w.nameAt s = some .iterationStats) {m : Method}
    (hhook : Layer.adapter ∈ hookLayers sw.langfuse .iterationStats m) {f' : Func}
    (hf' : w'.methodAt s m = some f') :
    Layer.adapter ∈ f'.layers ↔ w.bound .stats .iterationStats = some s ∧ w'.Observed := by
  have hg : Grows w w' := he.grows
  rcases he.sameAdapter h with hs | ⟨e, s₀, generate, update, -, hbe, hbs, hgenerate, hupdate, rfl⟩
  · obtain ⟨f, hf, hiff⟩ := hs hf'
    rw [hiff, hs.observed_iff hg]
    exact h.updates hn hhook hf
  · have hm : m = .updateFromFinishedRequest ∨ m = .updateFromOutput := by
      cases m <;> simp_all [hookLayers]
    have hse : s ≠ e := by
      rintro rfl
      cases (h.named hbe).symm.trans hn
    rw [h.methodAt_patchAdapter hbe hbs hgenerate hupdate, if_neg fun hh => hse hh.1] at hf'
    split at hf'
    · rename_i heq
      obtain ⟨f, -, rfl⟩ := Option.map_eq_some_iff.mp hf'
      have hobserved := h.observed_patchAdapter hbe hbs hgenerate hupdate hg
      exact iff_of_true (by simp) ⟨heq.1 ▸ hbs, hobserved⟩
    · rename_i hne
      rw [h.updates hn hhook hf']
      have hother : w.bound .stats .iterationStats ≠ some s := fun hbound =>
        hne ⟨(Option.some.inj (hbs.symm.trans hbound)).symm, hm⟩
      exact iff_of_false (fun hh => hother hh.1) fun hh => hother hh.1

theorem Effect.app_marked {w w' : World} (h : Inv sw w) (he : Effect sw w w') {t : Target}
    {f' : Func} (hf' : w'.buildApp t = some f') :
    Layered.Marked Layer.mark f' ∧ ∀ l ∈ f'.layers, l = .bootstrap := by
  have hkept : w'.buildApp t = w.buildApp t ∨ ∃ f, w.buildApp t = some f ∧
      Attribute.observerBootstrap ∉ f.attributes ∧
      w'.buildApp t = some (f.wraps .bootstrap .plain [.observerBootstrap]) := by
    cases he with
    | wrap => exact .inl (by simp)
    | scheduler => exact .inl (by simp [World.patchScheduler])
    | adapter =>
      refine .inl ?_
      unfold World.patchAdapter installOutputUpdate
      split <;> simp
    | app happ hmark =>
      rw [World.buildApp_setBuildApp happ]
      split
      · rename_i ht
        exact .inr ⟨_, ht ▸ happ, hmark, rfl⟩
      · exact .inl rfl
    | warn t e => exact .inl rfl
  rcases hkept with heq | ⟨f, hf, hmark, heq⟩
  · exact h.app (heq ▸ hf')
  · obtain ⟨hmarked, honly⟩ := h.app hf
    obtain rfl := Option.some.inj (hf'.symm.trans heq)
    refine ⟨hmarked.wraps Layer.mark_injective (l := .bootstrap) hmark _, fun l hl => ?_⟩
    rcases List.mem_cons.mp hl with rfl | hl
    · rfl
    · exact honly l hl

/-- Every effect keeps the invariants. -/
theorem Inv.effect {w w' : World} (h : Inv sw w) (he : Effect sw w w') : Inv sw w' := by
  have hg : Grows w w' := he.grows
  constructor
  case named =>
    intro t n c hbound
    rw [hg.bound] at hbound
    rw [hg.nameAt]
    exact h.named hbound
  case meets =>
    intro c n m f' hn hf'
    rw [hg.nameAt] at hn
    obtain ⟨f, hf, ht⟩ := hg.methodAt hf'
    rw [ht.origin]
    exact h.meets hn hf
  case present =>
    intro c n m hn hm
    rw [hg.nameAt] at hn
    rw [hg.present]
    exact h.present hn hm
  case within =>
    intro c n m f' l hn hf' hl
    rw [hg.nameAt] at hn
    rcases he.layer h hn hf' with hf | ⟨f, l₀, k, marks, hf, rfl, hlayer, -, -⟩
    · exact h.within hn hf hl
    · rcases List.mem_cons.mp hl with rfl | hl
      · exact hlayer
      · exact h.within hn hf hl
  case marked =>
    intro c n m f' hn hstats hf'
    rw [hg.nameAt] at hn
    rcases he.layer h hn hf' with hf | ⟨f, l, k, marks, hf, rfl, -, -, hmark⟩
    · exact h.marked hn hstats hf
    · obtain ⟨rfl, hfresh⟩ := hmark hstats
      exact (h.marked hn hstats hf).wraps Layer.mark_injective hfresh k
  case updatesOnce =>
    intro s m f' hn hf'
    rw [hg.nameAt] at hn
    rcases he.layer h hn hf' with hf | ⟨f, l, k, marks, hf, rfl, -, hl, -⟩
    · exact h.updatesOnce hn hf
    · exact List.nodup_cons.mpr ⟨hl, h.updatesOnce hn hf⟩
  case scheduler =>
    intro c add schedule hn hadd hschedule
    rw [hg.nameAt] at hn
    exact he.scheduler_group h hn hadd hschedule
  case generate =>
    intro e f' hn hf' hmem
    rw [hg.nameAt] at hn
    rw [hg.bound]
    exact he.generate_group h hn hf' hmem
  case updates =>
    intro s m f' hn hhook hf'
    rw [hg.nameAt] at hn
    rw [hg.bound]
    exact he.updates_group h hn hhook hf'
  case app =>
    intro t f' hf'
    exact he.app_marked h hf'

theorem Inv.effects {w w' : World} (h : Inv sw w) (he : Effects sw w w') : Inv sw w' := by
  induction he with
  | refl => exact h
  | tail _ hstep ih => exact ih.effect hstep

end VllmObserver.Bootstrap
