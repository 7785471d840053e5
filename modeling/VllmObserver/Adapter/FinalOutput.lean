import VllmObserver.Stages.EngineClock
import VllmObserver.Adapter.Record

/-! # Reading the final output

`observed_output` takes the calibration clock and the stage data from the headers
of a request's final output and keeps them with the request's statistics, where
the recorders find them. -/
namespace VllmObserver.Adapter
open VllmObserver.Lib VllmObserver.Core VllmObserver.Stages

/-- `{key: headers[key] for key in (CLOCK_MONO, CLOCK_UNIX, CLOCK_ERROR)}`. -/
def clockOf (headers : Dict String String) : Except PyError (Dict String String) := do
  let mono ← lookup headers clockMono
  let wall ← lookup headers clockUnix
  let error ← lookup headers clockError
  .ok (Dict.ofList [(clockMono, mono), (clockUnix, wall), (clockError, error)])

/-- The statistics with what the headers carry. -/
def readHeaders (headers : Dict String String) (raw : RawStats) : RawStats :=
  let clock := if clockMono ∈ headers.keys then (clockOf headers).map some
    else .ok raw.observerClock
  match clock with
  | .error _ => raw -- logged
  | .ok clock => { raw with
      observerClock := clock
      observerStages := (headers.get? stagesHeader).or raw.observerStages }

/-- Only a finished output with one of the observer's headers is read. -/
def observedOutput (output : Output) (raw : RawStats) : RawStats :=
  match output.traceHeaders with
  | none => raw
  | some headers =>
    if output.finished ∧ (clockMono ∈ headers.keys ∨ stagesHeader ∈ headers.keys) then
      readHeaders headers raw
    else raw

/-- The timestamps of the statistics stay. -/
theorem edges_observedOutput (output : Output) (raw : RawStats) :
    edges (observedOutput output raw) = edges raw := by
  unfold observedOutput
  split
  · rfl
  · split
    · unfold readHeaders
      simp only
      split <;> rfl
    · rfl

/-- The clock, where all of its three headers are there. -/
theorem clockOf_ok {headers : Dict String String} {mono wall error : String}
    (h1 : headers.get? clockMono = some mono) (h2 : headers.get? clockUnix = some wall)
    (h3 : headers.get? clockError = some error) : clockOf headers =
      .ok (Dict.ofList [(clockMono, mono), (clockUnix, wall), (clockError, error)]) := by
  simp only [clockOf, lookup, h1, h2, h3, ok_bind]

theorem observedOutput_ok {output : Output} {headers : Dict String String} {raw : RawStats}
    {mono wall error : String} (hf : output.finished = true)
    (hh : output.traceHeaders = some headers)
    (h1 : headers.get? clockMono = some mono) (h2 : headers.get? clockUnix = some wall)
    (h3 : headers.get? clockError = some error) : observedOutput output raw = { raw with
      observerClock := some
        (Dict.ofList [(clockMono, mono), (clockUnix, wall), (clockError, error)])
      observerStages := (headers.get? stagesHeader).or raw.observerStages } := by
  have hk : clockMono ∈ headers.keys := Dict.mem_keys_iff.mpr ⟨mono, h1⟩
  simp only [observedOutput, hh, hf, hk, true_or, and_self, if_true, readHeaders,
    clockOf_ok h1 h2 h3]
  rfl

end VllmObserver.Adapter
