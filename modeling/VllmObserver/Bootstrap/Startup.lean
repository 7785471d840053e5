import VllmObserver.Bootstrap.Idempotence

/-! # Activation at startup

`sitecustomize` calls `install` before anything is imported. Every module is then
found by the observer's finder, its loader instruments it when its body has run,
and nothing is missed. -/
namespace VllmObserver.Bootstrap

open Lib

variable {sw : Switches}

/-- The finder is in place and has found every module. -/
structure Watched (w : World) : Prop where
  finder : w.finder = true
  hooked : ∀ {t mod}, w.modules.get? t = some mod → mod.hooked = true

theorem Watched.grows {w w' : World} (h : Watched w) (hg : Grows w w') : Watched w' := by
  refine ⟨hg.finder.trans h.finder, fun {t mod'} hmod' => ?_⟩
  have hmap := hg.hooked t
  rw [hmod', Option.map_some] at hmap
  obtain ⟨mod, hmod, heq⟩ := Option.map_eq_some_iff.mp hmap.symm
  rw [← heq]
  exact h.hooked hmod

theorem Watched.setModule {w : World} (h : Watched w) {t : Target} {mod : Module}
    (hmod : mod.hooked = true) : Watched (w.setModule t mod) := by
  refine ⟨h.finder, fun {t' mod'} hmod' => ?_⟩
  rw [World.setModule, Dict.get?_set] at hmod'
  split at hmod'
  · obtain rfl := Option.some.inj hmod'
    exact hmod
  · exact h.hooked hmod'

/-- The finder stays, and finds what is loaded next. -/
theorem Watched.step {w w' : World} (h : Watched w) {e : Event} (hs : step sw w e = some w') :
    Watched w' := by
  cases step_cases hs with
  | load _ => exact h.setModule h.finder
  | define _ _ => exact ⟨h.finder, h.hooked⟩
  | bind hmod _ _ _ =>
    have hhooked := h.hooked hmod
    exact h.setModule hhooked
  | defineApp _ hmod _ =>
    have hhooked := h.hooked hmod
    exact h.setModule hhooked
  | importApp hmod _ _ =>
    have hhooked := h.hooked hmod
    exact h.setModule hhooked
  | @finish t mod _ _ _ hmod' =>
    have hpatched := h.grows (hooked_effects sw w t mod.hooked).grows
    have hhooked := hpatched.hooked hmod'
    exact hpatched.setModule hhooked
  | @install order _ =>
    unfold install
    split
    · have hfinder : Watched { w with finder := true } := ⟨rfl, h.hooked⟩
      exact hfinder.grows (instrumentLoaded_effects sw order _).grows
    · exact h
  | @instrument t => exact h.grows (instrument_effects sw t w).grows

/-- A body that was replaced while it runs has not ended. -/
theorem finished_setModule_running {w : World} {t t' : Target} {mod : Module}
    (h : (w.setModule t mod).Finished t') (hinit : mod.initializing = true) : w.Finished t' := by
  rw [World.finished_setModule] at h
  split at h
  · rw [hinit] at h
    cases h
  · exact h

/-- Only the end of its body finishes a module. -/
theorem step_finishes {w w' : World} {e : Event} {t : Target} (hs : step sw w e = some w')
    (hbefore : ¬ w.Finished t) (hafter : w'.Finished t) : e = .finish t := by
  cases step_cases hs with
  | load _ => exact absurd (finished_setModule_running hafter rfl) hbefore
  | define _ _ => exact absurd hafter hbefore
  | bind _ hinit _ _ => exact absurd (finished_setModule_running hafter hinit) hbefore
  | defineApp _ _ hinit => exact absurd (finished_setModule_running hafter hinit) hbefore
  | importApp _ hinit _ => exact absurd (finished_setModule_running hafter hinit) hbefore
  | @finish u mod _ _ _ _ =>
    rw [World.finished_setModule] at hafter
    split at hafter
    · rename_i ht
      rw [ht]
    · exact absurd (((hooked_effects sw w u mod.hooked).grows.finished t).mp hafter) hbefore
  | @install order _ =>
    unfold install at hafter
    split at hafter
    · exact absurd (((instrumentLoaded_effects sw order _).grows.finished t).mp hafter) hbefore
    · exact absurd hafter hbefore
  | @instrument u =>
    exact absurd (((instrument_effects sw u w).grows.finished t).mp hafter) hbefore

/-- The end of the body of a watched module instruments it. -/
theorem Watched.instruments {w w' : World} (h : Watched w) {t : Target}
    (hs : Bootstrap.step sw w (.finish t) = some w') : (Event.finish t).Instruments sw w t := by
  cases step_cases hs with
  | finish hmod _ _ => exact ⟨rfl, by simp [hmod, h.hooked hmod]⟩

/-- What a body binds is bound when it ends. -/
theorem bound_before_finish {w w' : World} {t : Target} (hs : step sw w (.finish t) = some w') :
    w'.bound = w.bound := by
  cases step_cases hs with
  | @finish _ mod mod' _ _ hmod' =>
    have hnames : ({ mod' with initializing := false } : Module).names = mod'.names := rfl
    exact (World.bound_setModule_names hmod' hnames).trans
      (hooked_effects sw w t mod.hooked).grows.bound

/-- Watched from before its end, a module is covered. -/
theorem covered_of_watched {events : List Event} {w w' : World} (h : Watched w) {t : Target}
    (ht : t ∉ adapterModules) (hr : run sw w events = some w') (hbefore : ¬ w.Finished t)
    (hafter : w'.Finished t) : Covered sw t w events := by
  induction events generalizing w with
  | nil =>
    obtain rfl := Option.some.inj hr
    exact absurd hafter hbefore
  | cons e rest ih =>
    obtain ⟨w₁, hs, hr⟩ := Option.bind_eq_some_iff.mp hr
    simp only [Covered, hs]
    by_cases hfin : w₁.Finished t
    · obtain rfl := step_finishes hs hbefore hfin
      refine .inl ?_
      rw [Event.Covers, if_neg ht]
      exact ⟨h.instruments hs, rfl⟩
    · exact .inr (ih (h.step hs) hr hfin)

/-- The adapter's modules are covered when the second of them ends. -/
theorem adapter_covered_of_watched {events : List Event} {w w' : World} (hinv : Inv sw w)
    (h : Watched w) {t : Target} (ht : t ∈ adapterModules) (hr : run sw w events = some w')
    (hbefore : ¬ (w.Finished .engine ∧ w.Finished .stats))
    (hafter : w'.Finished .engine ∧ w'.Finished .stats)
    (hbound : (w'.bound .engine .asyncLLM).isSome ∧ (w'.bound .stats .iterationStats).isSome) :
    Covered sw t w events := by
  induction events generalizing w with
  | nil =>
    obtain rfl := Option.some.inj hr
    exact absurd hafter hbefore
  | cons e rest ih =>
    obtain ⟨w₁, hs, hr₁⟩ := Option.bind_eq_some_iff.mp hr
    have hinv₁ := (hinv.step hs).1
    simp only [Covered, hs]
    by_cases hfin : w₁.Finished .engine ∧ w₁.Finished .stats
    · have hlast : ∃ u ∈ adapterModules, e = .finish u := by
        by_cases hengine : w.Finished .engine
        · exact ⟨.stats, by decide, step_finishes hs (fun hf => hbefore ⟨hengine, hf⟩) hfin.2⟩
        · exact ⟨.engine, by decide, step_finishes hs hengine hfin.1⟩
      obtain ⟨u, hu, rfl⟩ := hlast
      have hlater := (hinv₁.run hr₁).2
      refine .inl ?_
      rw [Event.Covers, if_pos ht]
      refine ⟨⟨u, hu, h.instruments hs⟩, ?_⟩
      rw [← bound_before_finish hs, ← hlater.closed hfin.1, ← hlater.closed hfin.2]
      exact hbound
    · exact .inr (ih hinv₁ (h.step hs) hr₁ hfin)

/-- With `install` called before any module is loaded, every hooked method of the
loaded modules carries each of its layers exactly once, whatever comes after. -/
theorem layers_once_watched {order : List Target} {events : List Event} {w : World}
    (hobserver : sw.observer = true)
    (hr : run sw World.initial (.install order :: events) = some w) (hfin : ∀ t, w.Finished t)
    (hbound : (w.bound .engine .asyncLLM).isSome ∧ (w.bound .stats .iterationStats).isSome)
    {t : Target} {n : ClassName} (hn : n ∈ t.hooks) {m : Method} {f : Func}
    (hf : w.method t n m = some f) (l : Layer) :
    f.layers.count l = if l ∈ expectedLayers sw n m then 1 else 0 := by
  obtain ⟨w₁, hs, hr₁⟩ := Option.bind_eq_some_iff.mp hr
  have hinv₁ := ((inv_initial sw).step hs).1
  have hfirst : w₁ = instrumentLoaded sw order { World.initial with finder := true } := by
    cases step_cases hs with
    | install _ => rw [install, if_pos hobserver]
  have hgrows : Grows { World.initial with finder := true } w₁ :=
    hfirst ▸ (instrumentLoaded_effects sw order _).grows
  have hwatched : Watched w₁ := Watched.grows ⟨rfl, by rintro t mod ⟨⟩⟩ hgrows
  have hnone : ∀ t, ¬ w₁.Finished t := fun t h => by cases (hgrows.finished t).mp h
  have hcovered : Covered sw t World.initial (.install order :: events) := by
    simp only [Covered, hs]
    by_cases ht : t ∈ adapterModules
    · exact .inr (adapter_covered_of_watched hinv₁ hwatched ht hr₁ (fun h => hnone _ h.1)
        ⟨hfin _, hfin _⟩ hbound)
    · exact .inr (covered_of_watched hwatched ht hr₁ (hnone t) (hfin t))
  have hcomplete := covered_complete (inv_initial sw) hcovered hr
  exact hcomplete.count_method ((inv_initial sw).run hr).1 hn hf l

end VllmObserver.Bootstrap
