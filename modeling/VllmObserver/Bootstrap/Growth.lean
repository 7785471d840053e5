import VllmObserver.Bootstrap.Effects

/-! # What patching leaves alone

Patching binds nothing, creates nothing and removes nothing: the functions get
layers and keep the ones they have. -/
namespace VllmObserver.Bootstrap

open Lib

variable {sw : Switches}

/-- The function kept its definition and its layers, and may have got more. -/
structure Thicker (f f' : Func) : Prop where
  layers : ∀ l ∈ f.layers, l ∈ f'.layers
  origin : f'.origin = f.origin

theorem Thicker.refl (f : Func) : Thicker f f := ⟨fun _ h => h, rfl⟩

theorem Thicker.trans {f g h : Func} (hfg : Thicker f g) (hgh : Thicker g h) : Thicker f h :=
  ⟨fun l hl => hgh.layers l (hfg.layers l hl), hgh.origin.trans hfg.origin⟩

theorem Thicker.wraps (f : Func) (l : Layer) (k : Kind) (marks : List Attribute) :
    Thicker f (f.wraps l k marks) :=
  ⟨fun _ h => List.mem_cons_of_mem l h, rfl⟩

/-- The same classes in the same places, and their functions thicker. -/
structure Extends (w w' : World) : Prop where
  bound : w'.bound = w.bound
  nameAt : w'.nameAt = w.nameAt
  present : ∀ c m, (w'.methodAt c m).isSome = (w.methodAt c m).isSome
  methodAt : ∀ {c m f'}, w'.methodAt c m = some f' →
    ∃ f, w.methodAt c m = some f ∧ Thicker f f'
  buildApp : ∀ {t f'}, w'.buildApp t = some f' → ∃ f, w.buildApp t = some f ∧ Thicker f f'

theorem Extends.refl (w : World) : Extends w w :=
  ⟨rfl, rfl, fun _ _ => rfl, fun h => ⟨_, h, .refl _⟩, fun h => ⟨_, h, .refl _⟩⟩

theorem Extends.trans {w₁ w₂ w₃ : World} (h₁ : Extends w₁ w₂) (h₂ : Extends w₂ w₃) :
    Extends w₁ w₃ where
  bound := h₂.bound.trans h₁.bound
  nameAt := h₂.nameAt.trans h₁.nameAt
  present c m := (h₂.present c m).trans (h₁.present c m)
  methodAt h := by
    obtain ⟨f₂, hf₂, ht₂⟩ := h₂.methodAt h
    obtain ⟨f₁, hf₁, ht₁⟩ := h₁.methodAt hf₂
    exact ⟨f₁, hf₁, ht₁.trans ht₂⟩
  buildApp h := by
    obtain ⟨f₂, hf₂, ht₂⟩ := h₂.buildApp h
    obtain ⟨f₁, hf₁, ht₁⟩ := h₁.buildApp hf₂
    exact ⟨f₁, hf₁, ht₁.trans ht₂⟩

/-- What patching does to a state. -/
structure Grows (w w' : World) : Prop extends Extends w w' where
  finished : ∀ t, w'.Finished t ↔ w.Finished t
  finder : w'.finder = w.finder
  hooked : ∀ t, (w'.modules.get? t).map (·.hooked) = (w.modules.get? t).map (·.hooked)

theorem Grows.refl (w : World) : Grows w w := ⟨.refl w, fun _ => Iff.rfl, rfl, fun _ => rfl⟩

theorem Grows.trans {w₁ w₂ w₃ : World} (h₁ : Grows w₁ w₂) (h₂ : Grows w₂ w₃) : Grows w₁ w₃ :=
  ⟨h₁.toExtends.trans h₂.toExtends, fun t => (h₂.finished t).trans (h₁.finished t),
    h₂.finder.trans h₁.finder, fun t => (h₂.hooked t).trans (h₁.hooked t)⟩

/-- The state differs in the flags of the process and of the modules at most. -/
structure SameObjects (w w' : World) : Prop where
  bound : w'.bound = w.bound
  nameAt : w'.nameAt = w.nameAt
  methodAt : w'.methodAt = w.methodAt
  buildApp : w'.buildApp = w.buildApp

theorem SameObjects.extends {w w' : World} (h : SameObjects w w') : Extends w w' where
  bound := h.bound
  nameAt := h.nameAt
  present c m := by rw [h.methodAt]
  methodAt hf := ⟨_, by rw [← h.methodAt]; exact hf, .refl _⟩
  buildApp hf := ⟨_, by rw [← h.buildApp]; exact hf, .refl _⟩

namespace World

theorem buildApp_setBuildApp {w : World} {t : Target} {f₀ : Func} (h : w.buildApp t = some f₀)
    (f : Func) (t' : Target) :
    (w.setBuildApp t f).buildApp t' = if t' = t then some f else w.buildApp t' := by
  obtain ⟨mod, hmod, -⟩ := Option.bind_eq_some_iff.mp h
  unfold setBuildApp
  rw [hmod]
  simp only [buildApp, setModule, Dict.get?_set]
  split <;> rfl

@[simp] theorem classes_setBuildApp (w : World) (t : Target) (f : Func) :
    (w.setBuildApp t f).classes = w.classes := by
  unfold setBuildApp
  split <;> rfl

@[simp] theorem methodAt_setBuildApp (w : World) (t : Target) (f : Func) :
    (w.setBuildApp t f).methodAt = w.methodAt := by
  funext c m
  simp [methodAt]

theorem bound_setModule (w : World) (t : Target) (mod : Module) (t' : Target) (n : ClassName) :
    (w.setModule t mod).bound t' n = if t' = t then mod.names.get? n else w.bound t' n := by
  simp only [bound, setModule, Dict.get?_set]
  split <;> rfl

theorem buildApp_setModule (w : World) (t : Target) (mod : Module) (t' : Target) :
    (w.setModule t mod).buildApp t' = if t' = t then mod.buildApp else w.buildApp t' := by
  simp only [buildApp, setModule, Dict.get?_set]
  split <;> rfl

theorem finished_setModule (w : World) (t : Target) (mod : Module) (t' : Target) :
    (w.setModule t mod).Finished t' ↔
      if t' = t then mod.initializing = false else w.Finished t' := by
  simp only [Finished, setModule, Dict.get?_set]
  split <;> simp

@[simp] theorem methodAt_setModule (w : World) (t : Target) (mod : Module) :
    (w.setModule t mod).methodAt = w.methodAt := rfl

theorem bound_of_module {w : World} {t : Target} {mod : Module} (h : w.modules.get? t = some mod)
    (n : ClassName) : w.bound t n = mod.names.get? n := by
  simp only [bound, h, Option.bind_some]

theorem buildApp_of_module {w : World} {t : Target} {mod : Module}
    (h : w.modules.get? t = some mod) : w.buildApp t = mod.buildApp := by
  simp only [buildApp, h, Option.bind_some]

/-- A module that keeps its names keeps every binding. -/
theorem bound_setModule_names {w : World} {t : Target} {mod mod' : Module}
    (h : w.modules.get? t = some mod) (hnames : mod'.names = mod.names) :
    (w.setModule t mod').bound = w.bound := by
  funext t' n
  rw [bound_setModule]
  split
  · rename_i ht
    rw [ht, bound_of_module h, hnames]
  · rfl

/-- A module that keeps its `build_app` keeps every one. -/
theorem buildApp_setModule_same {w : World} {t : Target} {mod mod' : Module}
    (h : w.modules.get? t = some mod) (happ : mod'.buildApp = mod.buildApp) :
    (w.setModule t mod').buildApp = w.buildApp := by
  funext t'
  rw [buildApp_setModule]
  split
  · rename_i ht
    rw [ht, buildApp_of_module h, happ]
  · rfl

theorem finished_of_module {w : World} {t : Target} {mod : Module}
    (h : w.modules.get? t = some mod) : w.Finished t ↔ mod.initializing = false := by
  simp [Finished, h]

end World

theorem grows_setMethodAt {w : World} {c : ℕ} {m : Method} {f : Func}
    (h : w.methodAt c m = some f) (l : Layer) (k : Kind) (marks : List Attribute) :
    Grows w (w.setMethodAt c m (f.wraps l k marks)) where
  bound := by simp
  nameAt := by simp
  finished t := by simp [World.Finished]
  finder := by simp
  hooked t := by simp
  present c' m' := by
    rw [World.methodAt_setMethodAt h]
    split
    · rename_i he
      rw [he.1, he.2, h]
      rfl
    · rfl
  methodAt {c' m' f'} h' := by
    rw [World.methodAt_setMethodAt h] at h'
    split at h'
    · rename_i he
      obtain ⟨rfl, rfl⟩ := he
      obtain rfl := Option.some.inj h'
      exact ⟨f, h, .wraps f l k marks⟩
    · exact ⟨f', h', .refl f'⟩
  buildApp {t f'} h' := ⟨f', by simpa using h', .refl f'⟩

theorem grows_setBuildApp {w : World} {t : Target} {f : Func} (h : w.buildApp t = some f)
    (l : Layer) (k : Kind) (marks : List Attribute) :
    Grows w (w.setBuildApp t (f.wraps l k marks)) := by
  obtain ⟨mod, hmod, -⟩ := Option.bind_eq_some_iff.mp h
  have hset : w.setBuildApp t (f.wraps l k marks) =
      w.setModule t { mod with buildApp := some (f.wraps l k marks) } := by
    simp only [World.setBuildApp, hmod]
  refine ⟨⟨?_, by rw [hset]; rfl, fun c m => by rw [hset]; rfl, fun {c m f'} h' => ?_,
    fun {t' f'} h' => ?_⟩, fun t' => ?_, by rw [hset]; rfl, fun t' => ?_⟩
  · rw [hset]
    exact World.bound_setModule_names hmod rfl
  · rw [hset] at h'
    exact ⟨f', h', .refl f'⟩
  · rw [World.buildApp_setBuildApp h] at h'
    split at h'
    · rename_i ht
      obtain rfl := Option.some.inj h'
      exact ⟨f, ht ▸ h, .wraps f l k marks⟩
    · exact ⟨f', h', .refl f'⟩
  · rw [hset, World.finished_setModule]
    split
    · rename_i ht
      rw [ht, World.finished_of_module hmod]
    · rfl
  · rw [hset, World.setModule, Dict.get?_set]
    split
    · rename_i ht
      rw [ht, hmod]
      rfl
    · rfl

/-- The methods after the adapter's last assignment. -/
theorem methodAt_installOutputUpdate {w : World} {s : ℕ}
    (hbound : w.bound .stats .iterationStats = some s) (c : ℕ) (m : Method) :
    (installOutputUpdate w).methodAt c m =
      if c = s ∧ m = .updateFromOutput then
        (w.methodAt c m).map (·.wraps .adapter .plain [])
      else w.methodAt c m := by
  unfold installOutputUpdate
  split
  · rename_i hnone
    have hs : w.methodAt s .updateFromOutput = none := by
      simpa [World.method, hbound] using hnone
    split
    · rename_i he
      rw [he.1, he.2, hs]
      rfl
    · rfl
  · rename_i f hf
    obtain ⟨s', hs', hmethod⟩ := World.method_eq_some.mp hf
    obtain rfl := Option.some.inj (hbound.symm.trans hs')
    rw [World.setMethod_eq hbound, World.methodAt_setMethodAt hmethod]
    split
    · rename_i he
      rw [he.1, he.2, hmethod]
      rfl
    · rfl

theorem grows_installOutputUpdate (w : World) : Grows w (installOutputUpdate w) := by
  unfold installOutputUpdate
  split
  · exact .refl w
  · rename_i f hf
    obtain ⟨s, hbound, hmethod⟩ := World.method_eq_some.mp hf
    rw [World.setMethod_eq hbound]
    exact grows_setMethodAt hmethod _ _ _

/-- The methods after both methods of a scheduler are wrapped. -/
theorem methodAt_scheduler {w : World} {c : ℕ} {add schedule : Func}
    (hadd : w.methodAt c .addRequest = some add)
    (hschedule : w.methodAt c .schedule = some schedule) (c' : ℕ) (m : Method) :
    (w.patchScheduler c add schedule).methodAt c' m =
      if c' = c ∧ (m = .addRequest ∨ m = .schedule) then
        (w.methodAt c' m).map (·.wraps .stages .plain [.observerStages])
      else w.methodAt c' m := by
  have hkept : (w.setMethodAt c .addRequest
      (add.wraps .stages .plain [.observerStages])).methodAt c .schedule = some schedule := by
    rw [World.methodAt_setMethodAt hadd, if_neg (by simp), hschedule]
  rw [World.patchScheduler, World.methodAt_setMethodAt hkept, World.methodAt_setMethodAt hadd]
  by_cases hc : c' = c
  · subst hc
    by_cases hs : m = .schedule
    · simp [hs, hschedule]
    · by_cases ha : m = .addRequest
      · simp [ha, hadd]
      · simp [hs, ha]
  · simp [hc]

/-- The methods after the adapter's assignments. -/
theorem methodAt_adapter {w : World} {e s : ℕ} {generate update : Func} (hne : e ≠ s)
    (hbound : w.bound .stats .iterationStats = some s)
    (hgenerate : w.methodAt e .generate = some generate)
    (hupdate : w.methodAt s .updateFromFinishedRequest = some update) (c : ℕ) (m : Method) :
    (w.patchAdapter e s generate update).methodAt c m =
      if c = e ∧ m = .generate then
        (w.methodAt c m).map (·.wraps .adapter .asyncGenerator [.observer])
      else if c = s ∧ (m = .updateFromFinishedRequest ∨ m = .updateFromOutput) then
        (w.methodAt c m).map (·.wraps .adapter .plain [])
      else w.methodAt c m := by
  have hkept : (w.setMethodAt e .generate
      (generate.wraps .adapter .asyncGenerator [.observer])).methodAt s
        .updateFromFinishedRequest = some update := by
    rw [World.methodAt_setMethodAt hgenerate, if_neg (by simp), hupdate]
  rw [World.patchAdapter, methodAt_installOutputUpdate (by simpa using hbound),
    World.methodAt_setMethodAt hkept, World.methodAt_setMethodAt hgenerate]
  by_cases hc : c = s
  · subst hc
    have hce : c ≠ e := Ne.symm hne
    cases m <;> simp [hce, hupdate]
  · by_cases he : c = e ∧ m = .generate
    · simp [he.1, he.2, hne, hgenerate]
    · simp [hc, he]

/-- Every effect only adds layers. -/
theorem Effect.grows {w w' : World} (h : Effect sw w w') : Grows w w' := by
  cases h with
  | wrap k hbound hmethod => exact grows_setMethodAt hmethod _ _ _
  | scheduler hengine hbound hadd hschedule =>
    refine (grows_setMethodAt hadd _ _ _).trans (grows_setMethodAt ?_ _ _ _)
    rw [World.methodAt_setMethodAt hadd, if_neg (by simp), hschedule]
  | adapter hengine hbe hbs hgenerate hupdate =>
    refine ((grows_setMethodAt hgenerate _ _ _).trans (grows_setMethodAt ?_ _ _ _)).trans
      (grows_installOutputUpdate _)
    rw [World.methodAt_setMethodAt hgenerate, if_neg (by simp), hupdate]
  | app happ => exact grows_setBuildApp happ _ _ _
  | warn t e =>
    have hsame : SameObjects w { w with warnings := w.warnings ++ [(t, e)] } :=
      ⟨rfl, rfl, rfl, rfl⟩
    exact ⟨hsame.extends, fun _ => Iff.rfl, rfl, fun _ => rfl⟩

theorem Effects.grows {w w' : World} (h : Effects sw w w') : Grows w w' := by
  induction h with
  | refl => exact .refl w
  | tail _ hstep ih => exact ih.trans hstep.grows

end VllmObserver.Bootstrap
