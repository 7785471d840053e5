import VllmObserver.Adapter.FinalOutput
import VllmObserver.Adapter.Delivery

/-! # The calibration error bound

A stamped output carries the reading of the engine's clocks to the recorders. The
spans that they record on it are near the true wall times of the engine. -/
namespace VllmObserver.Adapter
open VllmObserver.Lib VllmObserver.Core VllmObserver.Stages

/-- The recorders find the clock of a stamped output, and read it exactly. -/
theorem calibration_arrives {writer : Writer} {reader : Reader} {reading : ClockReading}
    (hx : reading.Exact writer reader) {output : Output} (hf : output.finished = true)
    (raw : RawStats) :
    ∃ clock, (observedOutput (stampOutput writer reading output) raw).clock? = some clock ∧
      calibration reader clock = .ok (.fin reading.mono, reading.wall, reading.error) := by
  obtain ⟨headers, hh, h1, h2, h3⟩ := stampOutput_clock writer reading output
  have hstamped : (stampOutput writer reading output).finished = true := hf
  rw [observedOutput_ok hstamped hh h1 h2 h3]
  refine ⟨_, rfl, ?_⟩
  have h1 : (Dict.ofList [(clockMono, writer.float reading.mono),
      (clockUnix, writer.int reading.wall), (clockError, writer.int reading.error)]).get?
        clockMono = some (writer.float reading.mono) := rfl
  have h2 : (Dict.ofList [(clockMono, writer.float reading.mono),
      (clockUnix, writer.int reading.wall), (clockError, writer.int reading.error)]).get?
        clockUnix = some (writer.int reading.wall) := rfl
  have h3 : (Dict.ofList [(clockMono, writer.float reading.mono),
      (clockUnix, writer.int reading.wall), (clockError, writer.int reading.error)]).get?
        clockError = some (writer.int reading.error) := rfl
  simp only [calibration, lookup, h1, h2, h3, ok_bind, hx.mono, hx.wall, hx.error]

/-- Edges in order have stamps in order. -/
theorem stampsOf_sorted {wall error offset : ℤ} {mono : ℚ} (h : Calibration wall mono error offset)
    {raw : RawStats} {q s f l : ℚ} (he : edges raw = [.fin q, .fin s, .fin f, .fin l])
    (hqs : q ≤ s) (hsf : s ≤ f) (hfl : f ≤ l) :
    ∃ stamps, stampsOf wall (.fin mono) raw = .ok stamps ∧ stamps.sorted := by
  simp only [edges, List.cons.injEq, and_true] at he
  obtain ⟨hq, hs, hf, hl⟩ := he
  obtain ⟨q', h1, _⟩ := h.stamp q
  obtain ⟨s', h2, _⟩ := h.stamp s
  obtain ⟨f', h3, _⟩ := h.stamp f
  obtain ⟨l', h4, _⟩ := h.stamp l
  refine ⟨⟨q', s', f', l'⟩, ?_, h.monotone _ _ _ _ hqs h1 h2, h.monotone _ _ _ _ hsf h2 h3,
    h.monotone _ _ _ _ hfl h3 h4⟩
  simp only [stampsOf, hq, hs, hf, hl, h1, h2, h3, h4, ok_bind]

/-- A span between the stamps of two instants of the engine. -/
def NearSpan (reader : Reader) (raw : RawStats) (error offset : ℤ) (o : Node) : Prop :=
  ∃ d e stop, EngineTime reader raw (.fin d) ∧ EngineTime reader raw (.fin e) ∧
    o.endNs = some stop ∧ Near error offset d o.startNs ∧ Near error offset e stop

theorem Stamped.near {reader : Reader} {raw : RawStats} {g o : Node} {limit wall error offset : ℤ}
    {mono : ℚ} {clock : Dict String String} (h : Stamped reader raw g limit o)
    (hcal : Calibration wall mono error offset) (hclock : raw.clock? = some clock)
    (hread : calibration reader clock = .ok (.fin mono, wall, error)) :
    NearSpan reader raw error offset o := by
  obtain ⟨stop, hstop, _, _, _, clock', mono', wall', x, y, hclock', hmono, hwall, hx, hy, hcx,
    hcy⟩ := h.bounds
  obtain rfl := Option.some.inj (hclock.symm.trans hclock')
  obtain ⟨m, hm, hread⟩ := bind_eq_ok.mp hread
  obtain ⟨w, hw, hread⟩ := bind_eq_ok.mp hread
  obtain ⟨_, _, hread⟩ := bind_eq_ok.mp hread
  cases hread
  obtain rfl := Except.ok.inj (hmono.symm.trans hm)
  obtain rfl := Except.ok.inj (hwall.symm.trans hw)
  obtain ⟨d, rfl⟩ := calibrated_finite hcx
  obtain ⟨e, rfl⟩ := calibrated_finite hcy
  obtain ⟨s, hs, hnear⟩ := hcal.stamp d
  obtain ⟨t, ht, hnear'⟩ := hcal.stamp e
  obtain rfl := Except.ok.inj (hcx.symm.trans hs)
  obtain rfl := Except.ok.inj (hcy.symm.trans ht)
  exact ⟨d, e, _, hx, hy, hstop, hnear, hnear'⟩

/-- What a statistic adds to a trace lies near the true wall times of the engine. -/
theorem observedUpdate_near {reader : Reader} {raw : RawStats} {wall error offset : ℤ} {mono : ℚ}
    {clock : Dict String String} (hcal : Calibration wall mono error offset)
    (hclock : raw.clock? = some clock)
    (hread : calibration reader clock = .ok (.fin mono, wall, error)) (uuid : ℕ → String)
    (perf : ℕ → ℚ) (gen : ℕ) (stat : FinishedStat) {trace : RequestTrace} {g : Node}
    (hg : trace.observations[gen]? = some g) (i : ℕ) (o : Node)
    (hi : trace.observations.length ≤ i)
    (ho : (observedUpdate reader uuid perf gen stat raw trace).observations[i]? = some o) :
    NearSpan reader raw error offset o := by
  cases hc : decodeCount stat with
  | error e =>
    rw [observedUpdate_uncounted reader uuid perf raw hc] at ho
    have hlt := (List.getElem?_eq_some_iff.mp ho).1
    exact absurd hlt (not_lt.mpr hi)
  | ok count =>
    exact ((observedUpdate_counted reader uuid perf raw hg hc).added i o hi ho).near hcal hclock
      hread

/-- **The calibration error is an honest bound.** Of every reading whose wall clock
was read between the two monotonic ones, a stamped final output carries a
calibration to the recorders that is off by less than half its error and a
nanosecond, keeps the order of the engine's instants, and changes a duration by
less than two nanoseconds; and every span that they record is that near. -/
theorem calibration_error_bound (writer : Writer) (reader : Reader) (reading : ClockReading)
    (hx : reading.Exact writer reader) (offset : ℤ) (hr : reading.Between offset)
    (batches : List (List Output)) :
    ∀ outputs ∈ stampOutputs writer reading batches, ∀ output ∈ outputs, output.finished = true →
      ∀ raw, ∃ clock, (observedOutput output raw).clock? = some clock ∧
        calibration reader clock = .ok (.fin reading.mono, reading.wall, reading.error) ∧
        Calibration reading.wall reading.mono reading.error offset ∧
        (∀ q s f l, edges raw = [.fin q, .fin s, .fin f, .fin l] → q ≤ s → s ≤ f → f ≤ l →
          ∃ stamps, stampsOf reading.wall (.fin reading.mono) (observedOutput output raw) =
            .ok stamps ∧ stamps.sorted) ∧
        ∀ uuid perf gen stat trace g, trace.observations[gen]? = some g → ∀ i o,
          trace.observations.length ≤ i →
          (observedUpdate reader uuid perf gen stat (observedOutput output raw)
            trace).observations[i]? = some o →
          NearSpan reader (observedOutput output raw) reading.error offset o := by
  intro outputs hout output hmem hf raw
  obtain ⟨batch, _, rfl⟩ := List.mem_map.mp hout
  obtain ⟨old, _, rfl⟩ := List.mem_map.mp hmem
  by_cases hold : old.finished = true
  · rw [if_pos hold] at hf ⊢
    obtain ⟨clock, hclock, hread⟩ := calibration_arrives hx hold raw
    refine ⟨clock, hclock, hread, hr.calibration, ?_, ?_⟩
    · intro q s f l he
      exact stampsOf_sorted hr.calibration ((edges_observedOutput _ raw).trans he)
    · intro uuid perf gen stat trace g hg i o hi ho
      exact observedUpdate_near hr.calibration hclock hread uuid perf gen stat hg i o hi ho
  · rw [if_neg hold] at hf
    exact absurd hf hold

/-! ## A sample reading -/

def sampleClock : ClockReading := ⟨6999999960, 7000000010, 7000000040⟩

def sampleWriter : Writer where
  float := fun q => if q = 7 then "7.0" else ""
  int := fun n => if n = 80 then "80" else "7000000010"

def sampleTexts : Reader where
  float := fun text => if text = "7.0" then .ok (.fin 7) else .error (.valueError text)
  int := fun text =>
    if text = "7000000010" then .ok 7000000010
    else if text = "80" then .ok 80
    else .error (.valueError text)
  loads := fun text => .error (.valueError text)

/-- The wall clock is ten nanoseconds ahead. -/
theorem sampleClock_between : sampleClock.Between 10 := ⟨7000000000, by decide, by decide, rfl⟩

theorem calibration_error_bound_sample :
    let raw := observedOutput (stampOutput sampleWriter sampleClock ⟨some "a", true, none⟩)
      ⟨.fin 2, .fin 5, .fin 6, .fin 7, none, none⟩
    ∃ clock, raw.clock? = some clock ∧
      calibration sampleTexts clock = .ok (.fin 7, 7000000010, 80) ∧
      Calibration 7000000010 7 80 10 ∧
      ∃ stamps, stampsOf 7000000010 (.fin 7) raw = .ok stamps ∧ stamps.sorted := by
  have hmono : sampleClock.mono = 7 := by decide +kernel
  have hx : sampleClock.Exact sampleWriter sampleTexts :=
    ⟨by decide +kernel, by decide +kernel, by decide +kernel⟩
  obtain ⟨clock, hclock, hread, hcal, hsorted, _⟩ := calibration_error_bound sampleWriter
    sampleTexts sampleClock hx 10 sampleClock_between [[⟨some "a", true, none⟩]] _
    (List.mem_singleton_self _) _ (List.mem_singleton_self _) rfl
    ⟨.fin 2, .fin 5, .fin 6, .fin 7, none, none⟩
  have h := hsorted 2 5 6 7 rfl (by norm_num) (by norm_num) (by norm_num)
  rw [hmono] at hread hcal h
  exact ⟨clock, hclock, hread, hcal, h⟩

end VllmObserver.Adapter
