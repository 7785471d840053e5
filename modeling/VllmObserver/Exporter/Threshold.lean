import VllmObserver.Core.Plain

/-! # The slow-TPOT threshold

The threshold is set in milliseconds, or in seconds by an older variable. Which
of the two a number is read in depends on how the variables are spelled. -/
namespace VllmObserver.Exporter
open VllmObserver.Lib VllmObserver.Core

/-- `OBSERVER_TPOT_SLOW_MS` and `OBSERVER_TPOT_SLOW_SECONDS`. -/
structure TpotSettings where
  slowMs : Option String
  slowSeconds : Option String

namespace TpotSettings

/-- The milliseconds, unless they are empty. -/
def milliseconds (settings : TpotSettings) : Option String := settings.slowMs.filter (· ≠ "")

/-- `os.getenv(MS) or os.getenv(SECONDS, "100")`. -/
def raw (settings : TpotSettings) : String :=
  settings.milliseconds.getD (settings.slowSeconds.getD "100")

end TpotSettings

def tpotThresholdSeconds (reader : Reader) (settings : TpotSettings) : Except PyError Flt :=
  match reader.float settings.raw with
  | .error (.typeError _) | .error (.valueError _) => .ok (.fin (1 / 10)) -- logged
  | .error e => .error e
  | .ok value =>
    if value.le (.fin 0) then .ok (.fin (1 / 10))
    else
      let legacySeconds := settings.slowMs.isNone && settings.raw != "100"
      .ok (if legacySeconds then value else value.scale (1 / 1000))

/-! ## The units -/

/-- A setting in its unit, and 100 ms if it is no positive number. -/
def positiveOr (unit : ℚ) (parsed : Except PyError Flt) : Flt :=
  match parsed with
  | .ok value => if (Flt.fin 0).lt value then value.scale unit else .fin (1 / 10)
  | .error _ => .fin (1 / 10)

/-- The threshold in the units of its two variables. -/
def unitThreshold (reader : Reader) (settings : TpotSettings) : Flt :=
  match settings.milliseconds, settings.slowSeconds with
  | some ms, _ => positiveOr (1 / 1000) (reader.float ms)
  | none, some seconds => positiveOr 1 (reader.float seconds)
  | none, none => .fin (1 / 10)

/-- What `float(text)` is documented to do: a text that is no number raises
`ValueError`, and `100` is a hundred. -/
structure FloatReads (reader : Reader) : Prop where
  raises : ∀ text e, reader.float text = .error e → ∃ message, e = .valueError message
  hundred : reader.float "100" = .ok (.fin 100)

/-- The settings that are read in their units: no NaN, of seconds without the
milliseconds not the text `100`, and with empty milliseconds no finite positive
seconds. -/
def ReadInUnits (reader : Reader) (settings : TpotSettings) : Prop :=
  match settings.milliseconds, settings.slowSeconds with
  | some ms, _ => reader.float ms ≠ .ok .nan
  | none, some seconds => reader.float seconds ≠ .ok .nan ∧
      (settings.slowMs = none → seconds ≠ "100") ∧
      (settings.slowMs = some "" → ∀ q, reader.float seconds = .ok (.fin q) → q ≤ 0)
  | none, none => True

section Units
variable {reader : Reader} {settings : TpotSettings}

/-- The code tests for numbers that are not positive, which NaN is not either. -/
theorem positiveOr_iff (unit : ℚ) (value : Flt) :
    (if value.le (.fin 0) then Flt.fin (1 / 10) else value.scale unit) =
      positiveOr unit (.ok value) ↔ value ≠ .nan := by
  rcases value with q | (_ | _) | _
  case fin =>
    rcases le_or_gt q 0 with h | h
    · simp [positiveOr, Flt.le, Flt.lt, h, not_lt.mpr h]
    · simp [positiveOr, Flt.le, Flt.lt, h, not_le.mpr h]
  all_goals simp [positiveOr, Flt.le, Flt.lt, Flt.scale]

/-- Seconds that are read as milliseconds. -/
theorem positiveOr_milliseconds (value : Flt) :
    (if value.le (.fin 0) then Flt.fin (1 / 10) else value.scale (1 / 1000)) =
      positiveOr 1 (.ok value) ↔ value ≠ .nan ∧ ∀ q, value = .fin q → q ≤ 0 := by
  rcases value with q | (_ | _) | _
  case fin =>
    rcases le_or_gt q 0 with h | h
    · simp [positiveOr, Flt.le, Flt.lt, h, not_lt.mpr h]
    · have hne : q * 1000⁻¹ ≠ q := by
        intro he
        linarith
      simp [positiveOr, Flt.le, Flt.lt, Flt.scale, h, not_le.mpr h, hne]
  all_goals simp [positiveOr, Flt.le, Flt.lt, Flt.scale]

/-- The value behind the text, in the unit that the branch of the code chooses. -/
theorem threshold_eq (h : FloatReads reader) (unit : ℚ)
    (hunit : unit = if settings.slowMs.isNone && settings.raw != "100" then 1 else 1 / 1000) :
    tpotThresholdSeconds reader settings = .ok (match reader.float settings.raw with
      | .ok value => if value.le (.fin 0) then .fin (1 / 10) else value.scale unit
      | .error _ => .fin (1 / 10)) := by
  unfold tpotThresholdSeconds
  cases hparsed : reader.float settings.raw with
  | error e =>
    obtain ⟨message, rfl⟩ := h.raises _ e hparsed
    rfl
  | ok value =>
    rw [hunit]
    simp only
    split
    · rfl
    · split
      · rw [Flt.scale_one]
      · rfl

/-- The settings with milliseconds, and the two ways to have none. -/
theorem milliseconds_cases (settings : TpotSettings) :
    (∃ ms, settings.milliseconds = some ms ∧ settings.slowMs = some ms) ∨
      settings.milliseconds = none ∧ (settings.slowMs = none ∨ settings.slowMs = some "") := by
  unfold TpotSettings.milliseconds
  cases settings.slowMs with
  | none => exact .inr ⟨rfl, .inl rfl⟩
  | some ms =>
    by_cases hempty : ms = ""
    · subst hempty
      exact .inr ⟨rfl, .inr rfl⟩
    · exact .inl ⟨ms, by simp [Option.filter, hempty], rfl⟩

/-- **The threshold is read in its units for these settings and no others.** -/
theorem threshold_units_iff (h : FloatReads reader) (settings : TpotSettings) :
    tpotThresholdSeconds reader settings = .ok (unitThreshold reader settings) ↔
      ReadInUnits reader settings := by
  rcases milliseconds_cases settings with ⟨ms, hms, hslow⟩ | ⟨hms, hslow⟩
  · -- milliseconds
    have hraw : settings.raw = ms := by rw [TpotSettings.raw, hms]; rfl
    rw [threshold_eq h (1 / 1000) (by simp [hslow]), hraw]
    simp only [unitThreshold, ReadInUnits, hms, Except.ok.injEq]
    cases reader.float ms with
    | error e => simp [positiveOr]
    | ok value => simpa using positiveOr_iff (1 / 1000) value
  · cases hseconds : settings.slowSeconds with
    | none =>
      have hraw : settings.raw = "100" := by rw [TpotSettings.raw, hms, hseconds]; rfl
      rw [threshold_eq h (1 / 1000) (by simp [hraw]), hraw, h.hundred]
      simp [unitThreshold, ReadInUnits, hms, hseconds, Flt.le, Flt.scale]
      norm_num
    | some seconds =>
      have hraw : settings.raw = seconds := by rw [TpotSettings.raw, hms, hseconds]; rfl
      simp only [unitThreshold, ReadInUnits, hms, hseconds]
      rcases hslow with hslow | hslow
      · by_cases hundred : seconds = "100"
        · -- a hundred seconds are read as milliseconds
          subst hundred
          rw [threshold_eq h (1 / 1000) (by simp [hraw]), hraw, h.hundred]
          simp [positiveOr, Flt.le, Flt.lt, Flt.scale, hslow]
          norm_num
        · rw [threshold_eq h 1 (by simp [hslow, hraw, hundred]), hraw]
          simp only [hslow, Except.ok.injEq]
          cases reader.float seconds with
          | error e => simp [positiveOr, hundred]
          | ok value => simpa [hundred] using positiveOr_iff 1 value
      · rw [threshold_eq h (1 / 1000) (by simp [hslow]), hraw]
        simp only [hslow, Except.ok.injEq]
        cases reader.float seconds with
        | error e => simp [positiveOr]
        | ok value => simpa using positiveOr_milliseconds value

end Units

/-- Reads a few numbers. -/
def someNumbers : Reader where
  float := fun text =>
    if text = "100" then .ok (.fin 100) else if text = "0.5" then .ok (.fin (1 / 2))
    else if text = "nan" then .ok .nan else .error (.valueError text)
  int := fun text => .error (.valueError text)
  loads := fun text => .error (.valueError text)

theorem someNumbers_reads : FloatReads someNumbers where
  raises := by
    intro text e h
    simp only [someNumbers] at h
    split at h
    · cases h
    · split at h
      · cases h
      · split at h
        · cases h
        · exact ⟨text, by cases h; rfl⟩
  hundred := rfl

theorem threshold_units_half :
    tpotThresholdSeconds someNumbers ⟨none, some "0.5"⟩ =
      .ok (unitThreshold someNumbers ⟨none, some "0.5"⟩) :=
  (threshold_units_iff someNumbers_reads ⟨none, some "0.5"⟩).mpr
    ⟨by decide +kernel, fun _ => by decide, fun h => by cases h⟩

/-- A hundred seconds become 100 ms, half a second beside empty milliseconds
half a millisecond, and NaN stays. -/
theorem threshold_misread :
    (tpotThresholdSeconds someNumbers ⟨none, some "100"⟩ = .ok (.fin (1 / 10)) ∧
      unitThreshold someNumbers ⟨none, some "100"⟩ = .fin 100) ∧
    (tpotThresholdSeconds someNumbers ⟨some "", some "0.5"⟩ = .ok (.fin (1 / 2000)) ∧
      unitThreshold someNumbers ⟨some "", some "0.5"⟩ = .fin (1 / 2)) ∧
    (tpotThresholdSeconds someNumbers ⟨some "nan", none⟩ = .ok .nan ∧
      unitThreshold someNumbers ⟨some "nan", none⟩ = .fin (1 / 10)) ∧
    ¬ ∀ settings, tpotThresholdSeconds someNumbers settings =
      .ok (unitThreshold someNumbers settings) := by
  have hundred : tpotThresholdSeconds someNumbers ⟨none, some "100"⟩ = .ok (.fin (1 / 10)) ∧
      unitThreshold someNumbers ⟨none, some "100"⟩ = .fin 100 := by decide +kernel
  refine ⟨hundred, by decide +kernel, by decide +kernel, fun h => ?_⟩
  have hvalue := hundred.1.symm.trans (h ⟨none, some "100"⟩)
  rw [hundred.2] at hvalue
  revert hvalue
  decide +kernel

end VllmObserver.Exporter
