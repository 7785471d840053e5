import VllmObserver.Bootstrap.Once

/-! # The events one at a time

Loading a module, creating a class and binding it put nothing on a function, and
what is bound or finished stays so. With the effects of patching this carries the
invariants through every run. -/
namespace VllmObserver.Bootstrap

open Lib

variable {sw : Switches}

/-- What stays once it is there. -/
structure Later (w w' : World) : Prop where
  bound : ∀ {t n c}, w.bound t n = some c → w'.bound t n = some c
  finished : ∀ {t}, w.Finished t → w'.Finished t
  closed : ∀ {t}, w.Finished t → ∀ n, w'.bound t n = w.bound t n
  nameAt : ∀ {c n}, w.nameAt c = some n → w'.nameAt c = some n
  methodAt : ∀ {c n m f'}, w.nameAt c = some n → w'.methodAt c m = some f' →
    ∃ f, w.methodAt c m = some f ∧ Thicker f f'
  buildApp : ∀ {t f'}, w.Finished t → w'.buildApp t = some f' →
    ∃ f, w.buildApp t = some f ∧ Thicker f f'

theorem Later.refl (w : World) : Later w w :=
  ⟨id, id, fun _ _ => rfl, id, fun _ h => ⟨_, h, .refl _⟩, fun _ h => ⟨_, h, .refl _⟩⟩

theorem Later.trans {w₁ w₂ w₃ : World} (h₁ : Later w₁ w₂) (h₂ : Later w₂ w₃) :
    Later w₁ w₃ where
  bound h := h₂.bound (h₁.bound h)
  finished h := h₂.finished (h₁.finished h)
  closed h n := (h₂.closed (h₁.finished h) n).trans (h₁.closed h n)
  nameAt h := h₂.nameAt (h₁.nameAt h)
  methodAt hn h := by
    obtain ⟨f₂, hf₂, ht₂⟩ := h₂.methodAt (h₁.nameAt hn) h
    obtain ⟨f₁, hf₁, ht₁⟩ := h₁.methodAt hn hf₂
    exact ⟨f₁, hf₁, ht₁.trans ht₂⟩
  buildApp hfin h := by
    obtain ⟨f₂, hf₂, ht₂⟩ := h₂.buildApp (h₁.finished hfin) h
    obtain ⟨f₁, hf₁, ht₁⟩ := h₁.buildApp hfin hf₂
    exact ⟨f₁, hf₁, ht₁.trans ht₂⟩

theorem SameObjects.inv {w w' : World} (hs : SameObjects w w') (h : Inv sw w) : Inv sw w' := by
  have hobserved : w'.Observed ↔ w.Observed := by
    unfold World.Observed
    rw [hs.bound, hs.methodAt]
  constructor <;> simp only [hs.bound, hs.nameAt, hs.methodAt, hs.buildApp, hobserved]
  · exact h.named
  · exact h.meets
  · exact h.present
  · exact h.within
  · exact h.marked
  · exact h.updatesOnce
  · exact h.scheduler
  · exact h.generate
  · exact h.updates
  · exact h.app

theorem Extends.later {w w' : World} (h : Extends w w')
    (hfin : ∀ t, w.Finished t → w'.Finished t) : Later w w' where
  bound hb := by rw [h.bound]; exact hb
  finished hf := hfin _ hf
  closed _ n := by rw [h.bound]
  nameAt hn := by rw [h.nameAt]; exact hn
  methodAt _ hm := h.methodAt hm
  buildApp _ ha := h.buildApp ha

theorem Grows.later {w w' : World} (h : Grows w w') : Later w w' :=
  h.toExtends.later fun t => (h.finished t).mpr

section load

variable {w : World} {t : Target} (hnew : w.modules.get? t = none) (hooked : Bool)
include hnew

theorem sameObjects_load : SameObjects w (w.setModule t ⟨true, hooked, none, .empty⟩) where
  bound := by
    funext t' n
    rw [World.bound_setModule]
    split
    · rename_i ht
      simp [World.bound, ht, hnew]
    · rfl
  nameAt := rfl
  methodAt := rfl
  buildApp := by
    funext t'
    rw [World.buildApp_setModule]
    split
    · rename_i ht
      simp [World.buildApp, ht, hnew]
    · rfl

theorem finished_load {t' : Target} (h : w.Finished t') :
    (w.setModule t ⟨true, hooked, none, .empty⟩).Finished t' := by
  rw [World.finished_setModule]
  split
  · rename_i ht
    simp [World.Finished, ht, hnew] at h
  · exact h

end load

section define

variable {w : World} {c : ℕ} (hnew : w.nameAt c = none) (body : ClassBody)

theorem World.nameAt_define (c' : ℕ) :
    (w.define c body).nameAt c' = if c' = c then some body.name else w.nameAt c' := by
  simp only [nameAt, define, Dict.get?_set]
  split <;> rfl

theorem World.methodAt_define (c' : ℕ) (m : Method) :
    (w.define c body).methodAt c' m =
      if c' = c then (body.methods.get? m).map .base else w.methodAt c' m := by
  simp only [methodAt, define, Dict.get?_set]
  split
  · simp [ClassBody.create, Dict.get?_mapValues]
  · rfl

/-- A method of the state is one of the new class, as written, or an old one. -/
theorem World.define_cases {c' : ℕ} {n : ClassName} {m : Method} {f' : Func}
    (hn : (w.define c body).nameAt c' = some n) (hf' : (w.define c body).methodAt c' m = some f') :
    (c' = c ∧ n = body.name ∧ ∃ d, body.methods.get? m = some d ∧ f' = .base d) ∨
      (c' ≠ c ∧ w.nameAt c' = some n ∧ w.methodAt c' m = some f') := by
  rw [World.nameAt_define] at hn
  rw [World.methodAt_define] at hf'
  by_cases hc : c' = c
  · rw [if_pos hc] at hn hf'
    obtain ⟨d, hd, rfl⟩ := Option.map_eq_some_iff.mp hf'
    exact .inl ⟨hc, (Option.some.inj hn).symm, d, hd, rfl⟩
  · rw [if_neg hc] at hn hf'
    exact .inr ⟨hc, hn, hf'⟩

include hnew

theorem later_define : Later w (w.define c body) where
  bound hb := hb
  finished hf := hf
  closed _ _ := rfl
  nameAt {c' n} hn := by
    rw [World.nameAt_define, if_neg]
    · exact hn
    · rintro rfl
      rw [hnew] at hn
      cases hn
  methodAt {c' n m f'} hn hf' := by
    rw [World.methodAt_define, if_neg] at hf'
    · exact ⟨f', hf', .refl f'⟩
    · rintro rfl
      rw [hnew] at hn
      cases hn
  buildApp _ ha := ⟨_, ha, .refl _⟩

theorem Inv.observed_define (h : Inv sw w) : (w.define c body).Observed ↔ w.Observed := by
  have hne : ∀ {e}, w.bound .engine .asyncLLM = some e → e ≠ c := by
    rintro e hbound rfl
    rw [h.named hbound] at hnew
    cases hnew
  constructor
  · rintro ⟨e, f, hbound, hf, hmem⟩
    rw [World.methodAt_define, if_neg (hne hbound)] at hf
    exact ⟨e, f, hbound, hf, hmem⟩
  · rintro ⟨e, f, hbound, hf, hmem⟩
    exact ⟨e, f, hbound, by rw [World.methodAt_define, if_neg (hne hbound), hf], hmem⟩

/-- A fresh class has no layer and is bound nowhere. -/
theorem Inv.define (h : Inv sw w) (hbody : body.MeetsContract) : Inv sw (w.define c body) := by
  have hunbound : ∀ {t n}, w.bound t n ≠ some c := by
    intro t n hbound
    rw [h.named hbound] at hnew
    cases hnew
  constructor
  case named =>
    exact fun hbound => (later_define hnew body).nameAt (h.named hbound)
  case meets =>
    intro c' n m f' hn hf'
    rcases World.define_cases body hn hf' with ⟨-, rfl, d, hd, rfl⟩ | ⟨-, hn, hf⟩
    · exact hbody.2 (m, d) (Dict.mem_entries_of_get? hd)
    · exact h.meets hn hf
  case present =>
    intro c' n m hn hm
    rw [World.nameAt_define] at hn
    rw [World.methodAt_define]
    split at hn
    · rename_i hc
      obtain rfl := Option.some.inj hn
      rw [if_pos hc, Option.isSome_map]
      exact Option.isSome_iff_exists.mpr (Dict.mem_keys_iff.mp (hbody.1 m hm))
    · rename_i hc
      rw [if_neg hc]
      exact h.present hn hm
  case within =>
    intro c' n m f' l hn hf' hl
    rcases World.define_cases body hn hf' with ⟨-, rfl, d, -, rfl⟩ | ⟨-, hn, hf⟩
    · cases hl
    · exact h.within hn hf hl
  case marked =>
    intro c' n m f' hn hstats hf'
    rcases World.define_cases body hn hf' with ⟨-, -, d, -, rfl⟩ | ⟨-, hn, hf⟩
    · exact .base d
    · exact h.marked hn hstats hf
  case updatesOnce =>
    intro c' m f' hn hf'
    rcases World.define_cases body hn hf' with ⟨-, -, d, -, rfl⟩ | ⟨-, hn, hf⟩
    · exact List.nodup_nil
    · exact h.updatesOnce hn hf
  case scheduler =>
    intro c' add schedule hn hadd hschedule
    rcases World.define_cases body hn hadd with ⟨rfl, -, d, -, rfl⟩ | ⟨hc, hn', hadd'⟩
    · rcases World.define_cases body hn hschedule with ⟨-, -, d', -, rfl⟩ | ⟨hc, -⟩
      · exact Iff.rfl
      · exact absurd rfl hc
    · rcases World.define_cases body hn hschedule with ⟨rfl, -⟩ | ⟨-, -, hschedule'⟩
      · exact absurd rfl hc
      · exact h.scheduler hn' hadd' hschedule'
  case generate =>
    intro c' f' hn hf' hmem
    rcases World.define_cases body hn hf' with ⟨-, -, d, -, rfl⟩ | ⟨-, hn, hf⟩
    · cases hmem
    · exact h.generate hn hf hmem
  case updates =>
    intro c' m f' hn hhook hf'
    rw [h.observed_define hnew body]
    rcases World.define_cases body hn hf' with ⟨rfl, -, d, -, rfl⟩ | ⟨-, hn, hf⟩
    · exact iff_of_false (by simp) fun hh => hunbound hh.1
    · exact h.updates hn hhook hf
  case app => exact fun ha => h.app ha

end define

section bind

variable {w : World} {t : Target} {mod : Module} (hmod : w.modules.get? t = some mod)
  {c : ℕ} {n : ClassName} (hn : w.nameAt c = some n) (hfree : mod.names.get? n = none)

include hmod

theorem World.bound_bindName (t' : Target) (n' : ClassName) :
    (w.bindName t mod n c).bound t' n' = if t' = t ∧ n' = n then some c else w.bound t' n' := by
  rw [bindName, World.bound_setModule]
  by_cases ht : t' = t
  · rw [if_pos ht, Dict.get?_set, ht, World.bound_of_module hmod]
    simp
  · rw [if_neg ht, if_neg fun hh => ht hh.1]

theorem World.buildApp_bindName : (w.bindName t mod n c).buildApp = w.buildApp :=
  World.buildApp_setModule_same hmod rfl

theorem World.finished_bindName (t' : Target) :
    (w.bindName t mod n c).Finished t' ↔ w.Finished t' := by
  rw [bindName, World.finished_setModule]
  split
  · rename_i ht
    rw [ht, World.finished_of_module hmod]
  · rfl

include hfree

theorem World.bound_of_bound {t' : Target} {n' : ClassName} {c' : ℕ}
    (h : w.bound t' n' = some c') : (w.bindName t mod n c).bound t' n' = some c' := by
  rw [World.bound_bindName hmod, if_neg]
  · exact h
  · rintro ⟨rfl, rfl⟩
    rw [World.bound_of_module hmod, hfree] at h
    cases h

theorem later_bindName (hinit : mod.initializing = true) : Later w (w.bindName t mod n c) where
  bound hb := World.bound_of_bound hmod hfree hb
  finished hf := (World.finished_bindName hmod _).mpr hf
  closed {t'} hf n' := by
    rw [World.bound_bindName hmod, if_neg]
    rintro ⟨rfl, -⟩
    rw [World.finished_of_module hmod, hinit] at hf
    cases hf
  nameAt hn := hn
  methodAt _ hm := ⟨_, hm, .refl _⟩
  buildApp _ ha := ⟨_, by rw [← World.buildApp_bindName hmod]; exact ha, .refl _⟩

/-- Nothing unbound is observed, so a binding observes nothing. -/
theorem Inv.observed_bindName (h : Inv sw w) (hn : w.nameAt c = some n) :
    (w.bindName t mod n c).Observed ↔ w.Observed := by
  constructor
  · rintro ⟨e, f, hbound, hf, hmem⟩
    rw [World.bound_bindName hmod] at hbound
    split at hbound
    · rename_i heq
      obtain rfl := Option.some.inj hbound
      have he : w.nameAt c = some .asyncLLM := heq.2 ▸ hn
      exact ⟨c, f, (h.generate he hf hmem).1, hf, hmem⟩
    · exact ⟨e, f, hbound, hf, hmem⟩
  · rintro ⟨e, f, hbound, hf, hmem⟩
    exact ⟨e, f, World.bound_of_bound hmod hfree hbound, hf, hmem⟩

theorem Inv.bindName (h : Inv sw w) (hn : w.nameAt c = some n) :
    Inv sw (w.bindName t mod n c) := by
  constructor
  case named =>
    intro t' n' c' hbound
    rw [World.bound_bindName hmod] at hbound
    split at hbound
    · rename_i heq
      obtain rfl := Option.some.inj hbound
      exact heq.2 ▸ hn
    · exact h.named hbound
  case meets => exact h.meets
  case present => exact h.present
  case within => exact h.within
  case marked => exact h.marked
  case updatesOnce => exact h.updatesOnce
  case scheduler => exact h.scheduler
  case generate =>
    intro e f hname hf hmem
    obtain ⟨hbound, hstats⟩ := h.generate hname hf hmem
    obtain ⟨s, hs⟩ := Option.isSome_iff_exists.mp hstats
    refine ⟨World.bound_of_bound hmod hfree hbound, ?_⟩
    rw [World.bound_of_bound hmod hfree hs]
    rfl
  case updates =>
    intro s m f hname hhook hf
    rw [h.observed_bindName hmod hfree hn, h.updates hname hhook hf]
    refine ⟨fun hh => ⟨World.bound_of_bound hmod hfree hh.1, hh.2⟩, fun hh => ⟨?_, hh.2⟩⟩
    -- what is observed stands beside a bound class already
    obtain ⟨e, g, hbound, hg, hmem⟩ := hh.2
    obtain ⟨s', hs'⟩ := Option.isSome_iff_exists.mp (h.generate (h.named hbound) hg hmem).2
    exact hs'.trans ((World.bound_of_bound hmod hfree hs').symm.trans hh.1)
  case app =>
    intro t' f hf
    rw [World.buildApp_bindName hmod] at hf
    exact h.app hf

end bind

section setApp

variable {w : World} {t : Target} {mod : Module} (hmod : w.modules.get? t = some mod) (f : Func)
include hmod

/-- A body may bind any `build_app` that is marked as it should be. -/
theorem Inv.setApp (h : Inv sw w)
    (hf : Layered.Marked Layer.mark f ∧ ∀ l ∈ f.layers, l = .bootstrap) :
    Inv sw (w.setModule t { mod with buildApp := some f }) := by
  have hbound : (w.setModule t { mod with buildApp := some f }).bound = w.bound :=
    World.bound_setModule_names hmod rfl
  have hobserved : (w.setModule t { mod with buildApp := some f }).Observed ↔ w.Observed := by
    unfold World.Observed
    rw [hbound, World.methodAt_setModule]
  constructor
  case named =>
    intro t' n c hb
    rw [hbound] at hb
    exact h.named hb
  case meets => exact h.meets
  case present => exact h.present
  case within => exact h.within
  case marked => exact h.marked
  case updatesOnce => exact h.updatesOnce
  case scheduler => exact h.scheduler
  case generate =>
    intro e f' hn hf' hmem
    rw [hbound]
    exact h.generate hn hf' hmem
  case updates =>
    intro s m f' hn hhook hf'
    rw [hbound, hobserved]
    exact h.updates hn hhook hf'
  case app =>
    intro t' f' hf'
    rw [World.buildApp_setModule] at hf'
    split at hf'
    · obtain rfl := Option.some.inj hf'
      exact hf
    · exact h.app hf'

theorem later_setApp (hinit : mod.initializing = true) :
    Later w (w.setModule t { mod with buildApp := some f }) := by
  have hnot : ∀ {t'}, w.Finished t' → t' ≠ t := by
    rintro t' hfin rfl
    rw [World.finished_of_module hmod, hinit] at hfin
    cases hfin
  have hbound : (w.setModule t { mod with buildApp := some f }).bound = w.bound :=
    World.bound_setModule_names hmod rfl
  constructor
  case bound =>
    intro t' n c hb
    rw [hbound]
    exact hb
  case finished =>
    intro t' hfin
    rw [World.finished_setModule, if_neg (hnot hfin)]
    exact hfin
  case closed => exact fun _ n => by rw [hbound]
  case nameAt => exact fun hn => hn
  case methodAt => exact fun _ hm => ⟨_, hm, .refl _⟩
  case buildApp =>
    intro t' f' hfin hf'
    rw [World.buildApp_setModule, if_neg (hnot hfin)] at hf'
    exact ⟨f', hf', .refl f'⟩

end setApp

section finish

variable {w : World} {t : Target} {mod : Module}

theorem sameObjects_finish (hmod : w.modules.get? t = some mod) :
    SameObjects w (w.setModule t { mod with initializing := false }) where
  bound := World.bound_setModule_names hmod rfl
  nameAt := rfl
  methodAt := rfl
  buildApp := World.buildApp_setModule_same hmod rfl

theorem finished_finish {t' : Target} (h : w.Finished t' ∨ t' = t) :
    (w.setModule t { mod with initializing := false }).Finished t' := by
  rw [World.finished_setModule]
  split
  · rfl
  · rename_i hne
    exact h.resolve_right hne

end finish

theorem running_eq_some {w : World} {t : Target} {mod : Module} :
    w.running t = some mod ↔ w.modules.get? t = some mod ∧ mod.initializing = true :=
  Option.filter_eq_some_iff

/-- All that an event can do, with what made it possible. The end of a body
patches, if it is hooked, before the flag is cleared. -/
inductive Stepped (sw : Switches) (w : World) : Event → World → Prop
  | load {t : Target} (hnew : w.modules.get? t = none) :
      Stepped sw w (.load t) (w.setModule t ⟨true, w.finder, none, .empty⟩)
  | define {c : ℕ} {body : ClassBody} (hfree : w.nameAt c = none) (hmeets : body.MeetsContract) :
      Stepped sw w (.define c body) (w.define c body)
  | bind {t : Target} {c : ℕ} {mod : Module} {n : ClassName} (hmod : w.modules.get? t = some mod)
      (hinit : mod.initializing = true) (hname : w.nameAt c = some n)
      (hfree : mod.names.get? n = none) : Stepped sw w (.bind t c) (w.bindName t mod n c)
  | defineApp {t : Target} {mod : Module} (d : Definition) (hmod : w.modules.get? t = some mod)
      (hinit : mod.initializing = true) :
      Stepped sw w (.defineApp t d) (w.setModule t { mod with buildApp := some (.base d) })
  | importApp {t source : Target} {mod : Module} {f : Func}
      (hmod : w.modules.get? t = some mod) (hinit : mod.initializing = true)
      (happ : w.buildApp source = some f) :
      Stepped sw w (.importApp t source) (w.setModule t { mod with buildApp := some f })
  | finish {t : Target} {mod mod' : Module} (hmod : w.modules.get? t = some mod)
      (hinit : mod.initializing = true)
      (hmod' : (if mod.hooked then instrument sw t w else w).modules.get? t = some mod') :
      Stepped sw w (.finish t) ((if mod.hooked then instrument sw t w else w).setModule t
        { mod' with initializing := false })
  | install {order : List Target} (hperm : order.Perm targets) :
      Stepped sw w (.install order) (install sw order w)
  | instrument {t : Target} : Stepped sw w (.instrument t) (instrument sw t w)

theorem step_cases {w w' : World} {e : Event} (h : step sw w e = some w') : Stepped sw w e w' := by
  cases e with
  | load t =>
    simp only [step] at h
    split at h
    · cases h
    · rename_i hnew
      obtain rfl := Option.some.inj h
      exact .load hnew
  | define c body =>
    simp only [step] at h
    split at h
    · rename_i hguard
      obtain rfl := Option.some.inj h
      exact .define hguard.1 hguard.2
    · cases h
  | bind t c =>
    simp only [step] at h
    split at h
    · rename_i mod n hrun hname
      obtain ⟨hmod, hinit⟩ := running_eq_some.mp hrun
      split at h
      · rename_i hfree
        obtain rfl := Option.some.inj h
        exact .bind hmod hinit hname hfree
      · cases h
    · cases h
  | defineApp t d =>
    obtain ⟨mod, hrun, rfl⟩ := Option.map_eq_some_iff.mp h
    obtain ⟨hmod, hinit⟩ := running_eq_some.mp hrun
    exact .defineApp d hmod hinit
  | importApp t source =>
    simp only [step] at h
    split at h
    · rename_i mod f hrun happ
      obtain ⟨hmod, hinit⟩ := running_eq_some.mp hrun
      obtain rfl := Option.some.inj h
      exact .importApp hmod hinit happ
    · cases h
  | finish t =>
    simp only [step] at h
    split at h
    · cases h
    · rename_i mod hrun
      obtain ⟨hmod, hinit⟩ := running_eq_some.mp hrun
      obtain ⟨mod', hmod', rfl⟩ := Option.map_eq_some_iff.mp h
      exact .finish hmod hinit hmod'
  | install order =>
    simp only [step] at h
    split at h
    · rename_i hperm
      obtain rfl := Option.some.inj h
      exact .install hperm
    · cases h
  | instrument t =>
    simp only [step] at h
    split at h
    · cases h
    · obtain rfl := Option.some.inj h
      exact .instrument

theorem hooked_effects (sw : Switches) (w : World) (t : Target) (hooked : Bool) :
    Effects sw w (if hooked then instrument sw t w else w) := by
  split
  · exact instrument_effects sw t w
  · exact .refl

/-- One event keeps the invariants and what is there. -/
theorem Inv.step {w w' : World} (h : Inv sw w) {e : Event} (hs : step sw w e = some w') :
    Inv sw w' ∧ Later w w' := by
  cases step_cases hs with
  | load hnew =>
    have hsame := sameObjects_load hnew w.finder
    exact ⟨hsame.inv h, hsame.extends.later fun t' hfin => finished_load hnew _ hfin⟩
  | define hfree hmeets => exact ⟨h.define hfree _ hmeets, later_define hfree _⟩
  | bind hmod hinit hname hfree =>
    exact ⟨h.bindName hmod hfree hname, later_bindName hmod hfree hinit⟩
  | defineApp d hmod hinit => exact ⟨h.setApp hmod _ ⟨.base d, by simp⟩, later_setApp hmod _ hinit⟩
  | importApp hmod hinit happ => exact ⟨h.setApp hmod _ (h.app happ), later_setApp hmod _ hinit⟩
  | @finish t mod mod' hmod hinit hmod' =>
    have he := hooked_effects sw w t mod.hooked
    have hsame := sameObjects_finish hmod'
    exact ⟨hsame.inv (h.effects he),
      he.grows.later.trans (hsame.extends.later fun t' hfin => finished_finish (.inl hfin))⟩
  | @install order _ =>
    unfold install
    split
    · have hsame : SameObjects w { w with finder := true } := ⟨rfl, rfl, rfl, rfl⟩
      have he := instrumentLoaded_effects sw order { w with finder := true }
      exact ⟨(hsame.inv h).effects he,
        (hsame.extends.later fun _ hfin => hfin).trans he.grows.later⟩
    · exact ⟨h, .refl w⟩
  | @instrument t =>
    have he := instrument_effects sw t w
    exact ⟨h.effects he, he.grows.later⟩

/-- A whole run keeps them. -/
theorem Inv.run {events : List Event} {w w' : World} (h : Inv sw w)
    (hr : run sw w events = some w') : Inv sw w' ∧ Later w w' := by
  induction events generalizing w with
  | nil =>
    obtain rfl := Option.some.inj hr
    exact ⟨h, .refl w⟩
  | cons e rest ih =>
    obtain ⟨w₁, hs, hr⟩ := Option.bind_eq_some_iff.mp hr
    obtain ⟨h₁, hl₁⟩ := h.step hs
    obtain ⟨h₂, hl₂⟩ := ih h₁ hr
    exact ⟨h₂, hl₁.trans hl₂⟩

end VllmObserver.Bootstrap
