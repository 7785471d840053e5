import VllmObserver.Stages.Collect
import VllmObserver.Stages.Registry

/-! # Calibrating the engine's clock

EngineCore reads its wall clock between two readings of its monotonic clock and
sends all three with the final outputs. A monotonic instant that was shifted by
the midpoint of the two readings is then off by no more than half the time
between them, and by the truncation to nanoseconds. -/
namespace VllmObserver.Stages
open VllmObserver.Lib VllmObserver.Core

/-- How the runtime writes numbers: `str(x)` of a float and of an integer. -/
structure Writer where
  float : ℚ → String
  int : ℤ → String

/-- Two monotonic readings and the wall reading between them, in nanoseconds. -/
structure ClockReading where
  before : ℤ
  wall : ℤ
  after : ℤ

namespace ClockReading

/-- The middle of the monotonic readings, in seconds. -/
def mono (reading : ClockReading) : ℚ :=
  ((reading.before + reading.after : ℤ) : ℚ) / 2000000000

def error (reading : ClockReading) : ℤ := reading.after - reading.before

def headers (reading : ClockReading) (writer : Writer) : List (String × String) := [
  (clockMono, writer.float reading.mono),
  (clockUnix, writer.int reading.wall),
  (clockError, writer.int reading.error)]

/-- What is written of the reading is read back. -/
structure Exact (reading : ClockReading) (writer : Writer) (reader : Reader) : Prop where
  mono : reader.float (writer.float reading.mono) = .ok (.fin reading.mono)
  wall : reader.int (writer.int reading.wall) = .ok reading.wall
  error : reader.int (writer.int reading.error) = .ok reading.error

/-- The wall clock is `offset` ahead of the monotonic one and was read in between. -/
def Between (reading : ClockReading) (offset : ℤ) : Prop :=
  ∃ t, reading.before ≤ t ∧ t ≤ reading.after ∧ reading.wall = t + offset

end ClockReading

section Stamp
variable (writer : Writer) (reading : ClockReading)

def stampOutput (output : Output) : Output :=
  { output with
    traceHeaders := some ((output.traceHeaders.getD Dict.empty).update (reading.headers writer)) }

/-- Only finished outputs are stamped; the clocks are not read if there is none. -/
def stampOutputs (batches : List (List Output)) : List (List Output) :=
  batches.map fun outputs => outputs.map fun output =>
    if output.finished then stampOutput writer reading output else output

/-- The clock's headers. -/
def clockKeys : List String := [clockMono, clockUnix, clockError]

theorem stampOutput_clock (output : Output) : ∃ headers,
    (stampOutput writer reading output).traceHeaders = some headers ∧
      headers.get? clockMono = some (writer.float reading.mono) ∧
      headers.get? clockUnix = some (writer.int reading.wall) ∧
      headers.get? clockError = some (writer.int reading.error) := by
  have hnodup : ((reading.headers writer).map Prod.fst).Nodup := by
    change clockKeys.Nodup
    decide
  refine ⟨_, rfl, ?_, ?_, ?_⟩
  all_goals
    rw [Dict.get?_update hnodup]
    rfl

/-- The headers of others stay. -/
theorem stampOutput_other (output : Output) {key : String} (h : key ∉ clockKeys) :
    ((stampOutput writer reading output).traceHeaders.getD Dict.empty).get? key =
      (output.traceHeaders.getD Dict.empty).get? key :=
  Dict.get?_update_of_not_mem h _

end Stamp

/-! ## The error of a stamp -/

theorem calibrated_fin (wall : ℤ) (mono e : ℚ) : calibrated wall (.fin mono) (.fin e) =
    .ok (wall + truncate ((e + -mono) * 1000000000)) := rfl

/-- Only finite instants have a stamp. -/
theorem calibrated_finite {wall : ℤ} {mono : ℚ} {x : Flt} {s : ℤ}
    (h : calibrated wall (.fin mono) x = .ok s) : ∃ e, x = .fin e := by
  cases x with
  | fin e => exact ⟨e, rfl⟩
  | inf neg => cases h
  | nan => cases h

/-- The stamp is off from the true wall time of the instant by less than half the
calibration error and a nanosecond. -/
def Near (error offset : ℤ) (e : ℚ) (s : ℤ) : Prop :=
  |(s : ℚ) - (e * 1000000000 + offset)| < (error : ℚ) / 2 + 1

/-- What a calibrated clock gives: stamps near the true wall time, in the order of
the instants, and durations that are off by less than two nanoseconds. -/
structure Calibration (wall : ℤ) (mono : ℚ) (error offset : ℤ) : Prop where
  stamp : ∀ e : ℚ, ∃ s, calibrated wall (.fin mono) (.fin e) = .ok s ∧ Near error offset e s
  monotone : ∀ (d e : ℚ) (s t : ℤ), d ≤ e → calibrated wall (.fin mono) (.fin d) = .ok s →
    calibrated wall (.fin mono) (.fin e) = .ok t → s ≤ t
  duration : ∀ (d e : ℚ) (s t : ℤ), calibrated wall (.fin mono) (.fin d) = .ok s →
    calibrated wall (.fin mono) (.fin e) = .ok t →
    |((t - s : ℤ) : ℚ) - (e - d) * 1000000000| < 2

/-- **The error of a reading bounds the error of its stamps.** -/
theorem ClockReading.Between.calibration {reading : ClockReading} {offset : ℤ}
    (h : reading.Between offset) :
    Calibration reading.wall reading.mono reading.error offset := by
  obtain ⟨t, hb, ha, hw⟩ := h
  have hmono : reading.mono * 1000000000 = ((reading.before + reading.after : ℤ) : ℚ) / 2 := by
    unfold mono
    ring
  refine ⟨fun e => ⟨_, calibrated_fin _ _ _, ?_⟩, ?_, ?_⟩
  · have htrunc := abs_truncate_sub_lt ((e + -reading.mono) * 1000000000)
    have hb' : ((reading.before : ℤ) : ℚ) ≤ t := by exact_mod_cast hb
    have ha' : (t : ℚ) ≤ reading.after := by exact_mod_cast ha
    rw [Near, hw, error]
    rw [abs_lt] at htrunc ⊢
    push_cast at hmono ⊢
    constructor <;> linarith
  · intro d e s t' hde hs ht
    rw [calibrated_fin] at hs ht
    have hle := truncate_mono (p := (d + -reading.mono) * 1000000000)
      (q := (e + -reading.mono) * 1000000000) (by linarith)
    have h1 := Except.ok.inj hs
    have h2 := Except.ok.inj ht
    omega
  · intro d e s t' hs ht
    rw [calibrated_fin] at hs ht
    have hd := abs_truncate_sub_lt ((d + -reading.mono) * 1000000000)
    have he := abs_truncate_sub_lt ((e + -reading.mono) * 1000000000)
    rw [← Except.ok.inj hs, ← Except.ok.inj ht]
    rw [abs_lt] at hd he ⊢
    push_cast
    constructor <;> linarith

end VllmObserver.Stages
