import VllmObserver.Core.JsonRoundTrip
import VllmObserver.Adapter.StageTransport

/-! # The payload of a record

The text that carries a record is written by `json.dumps` and read by
`json.loads`. No state of EngineCore holds a record that cannot be written, so
every record arrives. -/
namespace VllmObserver.Adapter
open VllmObserver.Lib VllmObserver.Core VllmObserver.Stages VllmObserver.Exporter

/-- `separators=(",", ":")`. -/
def payloadStyle : DumpStyle := ⟨true, true⟩

/-- Reads JSON as the interpreter does. -/
def readingJson (reader : Reader) : Reader := { reader with loads := Core.loads }

/-! ## Times -/

/-- Times that can be added and subtracted, and whose text is read back. -/
structure Times (repr : ℚ → String) (time : ℚ → Prop) : Prop where
  zero : time 0
  add : ∀ {a b}, time a → time b → time (a + b)
  sub : ∀ {a b}, time a → time b → time (a - b)
  reads : ∀ {a}, time a → ReadsFloat repr (.float (.fin a))

/-- What the operation measured are times. -/
def Measures (time : ℚ → Prop) : EngineOp → Prop
  | .addRequest _ now => time now
  | .schedule _ _ now duration => time now ∧ time duration
  | .execute _ started ended => time started ∧ time ended
  | .abort _ | .step _ => True

/-- How often the operation may update a record. -/
def updates : EngineOp → ℕ
  | .schedule _ tokens _ _ => tokens.keys.length + 1
  | .execute requestIds _ _ => requestIds.length
  | .addRequest _ _ | .abort _ | .step _ => 0

/-- The record holds times, and counts no more than so many updates. -/
structure Measured (time : ℚ → Prop) (n : ℕ) (r : Record) : Prop where
  waiting : ∃ w, r.waitingEnter = some w ∧ time w
  first : ∀ f, r.firstSchedule = some f → time f
  seconds : time r.scheduleSeconds ∧ time r.executeSeconds ∧ time r.contentionSeconds
  intervals : ∀ i ∈ r.executeIntervals, time i.1 ∧ time i.2
  chunks : r.scheduleSteps = r.prefillChunks + r.decodeSteps
  steps : r.scheduleSteps ≤ n ∧ r.executeSteps ≤ n ∧ r.contentionSteps ≤ n

namespace Measured
variable {repr : ℚ → String} {time : ℚ → Prop} {n m : ℕ} {r : Record}

theorem mono (h : Measured time n r) (hle : n ≤ m) : Measured time m r :=
  { h with
    steps := ⟨h.steps.1.trans hle, h.steps.2.1.trans hle, h.steps.2.2.trans hle⟩ }

theorem added (ht : Times repr time) {now : ℚ} (hnow : time now) :
    Measured time n { waitingEnter := some now } where
  waiting := ⟨now, rfl, hnow⟩
  first := by simp
  seconds := ⟨ht.zero, ht.zero, ht.zero⟩
  intervals := by simp
  chunks := rfl
  steps := by simp

theorem scheduled (ht : Times repr time) (h : Measured time n r) {now duration : ℚ}
    (hnow : time now) (hd : time duration) (tokens : ℤ) :
    Measured time (n + 1) (r.scheduled now duration tokens) := by
  have hfirst : ∀ f, r.firstSchedule.or (some now) = some f → time f := by
    intro f hf
    rcases Option.or_eq_some_iff.mp hf with hf | ⟨_, hf⟩
    · exact h.first f hf
    · exact Option.some.inj hf ▸ hnow
  have hsum : time (r.scheduleSeconds + duration) := ht.add h.seconds.1 hd
  have hchunks := h.chunks
  obtain ⟨hsteps, hexec, hcont⟩ := h.steps
  unfold Record.scheduled
  simp only
  split
  · exact ⟨h.waiting, hfirst, ⟨hsum, h.seconds.2⟩, h.intervals, by simp only; omega,
      by simp only; omega⟩
  · exact ⟨h.waiting, hfirst, ⟨hsum, h.seconds.2⟩, h.intervals, by simp only; omega,
      by simp only; omega⟩

theorem contended (ht : Times repr time) (h : Measured time n r) {duration : ℚ}
    (hd : time duration) : Measured time (n + 1) (r.contended duration) := by
  unfold Record.contended
  split
  · obtain ⟨hsteps, hexec, hcont⟩ := h.steps
    exact { h with
      seconds := ⟨h.seconds.1, h.seconds.2.1, ht.add h.seconds.2.2 hd⟩
      steps := by simp only; omega }
  · exact h.mono (Nat.le_succ n)

theorem executed (ht : Times repr time) (h : Measured time n r) {started ended : ℚ}
    (hs : time started) (he : time ended) : Measured time (n + 1) (r.executed started ended) := by
  obtain ⟨hsteps, hexec, hcont⟩ := h.steps
  refine { h with
    seconds := ⟨h.seconds.1, ht.add h.seconds.2.1 (ht.sub he hs), h.seconds.2.2⟩
    intervals := ?_
    steps := by simp only [Record.executed]; omega }
  intro i hi
  simp only [Record.executed] at hi
  split at hi
  · rcases List.mem_append.mp hi with hi | hi
    · exact h.intervals i hi
    · rw [List.mem_singleton.mp hi]
      exact ⟨hs, he⟩
  · exact h.intervals i hi

theorem intervals_meet {p : Number → Prop} (ht : ∀ a, time a → p (.float (.fin a))) :
    ∀ {intervals : List (ℚ × ℚ)}, (∀ i ∈ intervals, time i.1 ∧ time i.2) →
      elementsMeet p (intervals.map fun interval =>
        .arr [.float (.fin interval.1), .float (.fin interval.2)])
  | [], _ => trivial
  | i :: _, h => by
    obtain ⟨hs, he⟩ := h i List.mem_cons_self
    exact ⟨⟨ht _ hs, ht _ he, trivial⟩,
      intervals_meet ht fun j hj => h j (List.mem_cons_of_mem _ hj)⟩

/-- Its numbers are counters and times. -/
theorem numbers {p : Number → Prop} (h : Measured time n r) (hc : ∀ k : ℕ, k ≤ n → p (.int k))
    (ht : ∀ a, time a → p (.float (.fin a))) : r.toJson.NumbersMeet p := by
  obtain ⟨w, hw, hwait⟩ := h.waiting
  have hfirst : (Record.timeJson r.firstSchedule).NumbersMeet p := by
    cases hf : r.firstSchedule with
    | none => trivial
    | some f => exact ht f (h.first f hf)
  have hchunks := h.chunks
  obtain ⟨hsteps, hexec, hcont⟩ := h.steps
  refine ⟨?_, hfirst, hc _ hsteps, hc _ (by omega), hc _ (by omega), ht _ h.seconds.1,
    ht _ h.seconds.2.1, hc _ hexec, hc _ hcont, ht _ h.seconds.2.2, trivial,
    intervals_meet ht h.intervals, trivial⟩
  rw [hw]
  exact ht w hwait

/-- **A measured record can be written**, and it is read back. -/
theorem decodes (hrepr : Times repr time) (h : Measured time n r) (hn : n < 10 ^ maxIntDigits)
    (reader : Reader) :
    Decodes (dumps payloadStyle repr) (readingJson reader) r.toJson := by
  have hshort : r.toJson.NumbersMeet Number.Short := by
    refine h.numbers (fun k hk => ?_) fun _ _ => trivial
    change (k : ℤ).natAbs < _
    rw [Int.natAbs_natCast]
    exact lt_of_le_of_lt hk hn
  have hreads : r.toJson.NumbersMeet (ReadsFloat repr) :=
    h.numbers (fun _ _ => trivial) fun _ ha => hrepr.reads ha
  obtain ⟨text, htext⟩ := dumpValue_short r.toJson hshort
  have hdump : dumps payloadStyle repr r.toJson = .ok (String.ofList text) := by
    rw [dumps, htext]
    rfl
  refine ⟨_, hdump, ?_, ?_⟩
  · rw [Record.toJson, dumpValue] at htext
    obtain ⟨members, _, h⟩ := bind_eq_ok.mp htext
    cases h
    simp
  · exact loads_dumped htext hreads

end Measured

/-! ## Every record of a run -/

section Run
variable {repr : ℚ → String} {time : ℚ → Prop} {n : ℕ} {registry : Registry}

/-- One record after the other is updated. -/
theorem foldl_change_measured {f : String → Record → Record}
    (hf : ∀ id r n, Measured time n r → Measured time (n + 1) (f id r)) :
    ∀ (requestIds : List String) {n : ℕ} {registry : Registry},
      registry.All (Measured time n) →
      (requestIds.foldl (fun registry requestId => registry.change requestId (f requestId))
        registry).All (Measured time (n + requestIds.length))
  | [], _, _, h => h
  | requestId :: rest, n, registry, h => by
    have hone : (registry.change requestId (f requestId)).All (Measured time (n + 1)) := by
      intro id r hget
      rw [Registry.get?_change] at hget
      split at hget
      · obtain ⟨old, hold, rfl⟩ := Option.map_eq_some_iff.mp hget
        exact hf requestId old n (h id old hold)
      · exact (h id r hget).mono (Nat.le_succ n)
    have hrest := foldl_change_measured hf rest hone
    rwa [Nat.add_right_comm] at hrest

theorem observedSchedule_measured (ht : Times repr time) (h : registry.All (Measured time n))
    (tokens : Dict String ℤ) {now duration : ℚ} (hnow : time now) (hd : time duration) :
    (registry.observedSchedule tokens now duration).All
      (Measured time (n + (tokens.keys.length + 1))) := by
  have hfold := foldl_change_measured (f := fun id r => r.scheduled now duration
    ((tokens.get? id).getD 0)) (fun id r n hr => hr.scheduled ht hnow hd _) tokens.keys h
  unfold Registry.observedSchedule
  simp only
  split
  · exact fun id r hget => (hfold id r hget).mono (by omega)
  · intro id r hget
    rw [Dict.get?_mapValues] at hget
    obtain ⟨old, hold, rfl⟩ := Option.map_eq_some_iff.mp hget
    split
    · exact (hfold id old hold).mono (by omega)
    · exact (hfold id old hold).contended ht hd

/-- One operation leaves every record measured. -/
theorem measured_step (reader : Reader) (dumps : Record → Except PyError String)
    (ht : Times repr time) {s : EngineState} {op : EngineOp} (hop : Measures time op)
    (h : s.registry.All (Measured time n)) :
    (s.apply reader dumps op).registry.All (Measured time (n + updates op)) := by
  cases op with
  | addRequest request now =>
    refine h.observedAddRequest request.requestId (.added ht hop) fun r hr => ?_
    obtain ⟨w, hw, _⟩ := hr.waiting
    simp [hw]
  | schedule guard tokens now duration => exact observedSchedule_measured ht h tokens hop.1 hop.2
  | abort requestIds => exact h
  | execute requestIds started ended =>
    exact foldl_change_measured (f := fun _ r => r.executed started ended)
      (fun _ r n hr => hr.executed ht hop.1 hop.2) requestIds h
  | step outputs => exact Registry.All.attachOutputs dumps outputs h

theorem measured_run (reader : Reader) (dumps : Record → Except PyError String)
    (ht : Times repr time) : ∀ {ops : List EngineOp} {s : EngineState} {n : ℕ},
      (∀ op ∈ ops, Measures time op) → s.registry.All (Measured time n) →
      (run (EngineState.apply reader dumps) s ops).registry.All
        (Measured time (n + (ops.map updates).sum))
  | [], _, _, _, h => h
  | op :: rest, s, n, hops, h => by
    have hone := measured_step reader dumps ht (hops op List.mem_cons_self) h
    have hrest := measured_run reader dumps ht (fun o ho => hops o (List.mem_cons_of_mem _ ho)) hone
    rwa [run_cons, List.map_cons, List.sum_cons, ← Nat.add_assoc]

/-- In every state of a run that is not too long each record is read back. -/
theorem decodes_run (reader : Reader) (dumper : Record → Except PyError String)
    (ht : Times repr time) {ops : List EngineOp} (hops : ∀ op ∈ ops, Measures time op)
    (hsize : (ops.map updates).sum < 10 ^ maxIntDigits) {id : String} {record : Record}
    (hget : (run (EngineState.apply reader dumper) {} ops).registry.get? id = some record) :
    Decodes (dumps payloadStyle repr) (readingJson reader) record.toJson := by
  have hempty : Registry.All (Measured time 0) Dict.empty := fun _ _ h => by cases h
  have hall := measured_run reader dumper ht hops hempty id record hget
  rw [Nat.zero_add] at hall
  exact hall.decodes ht hsize reader

end Run

/-- **No record is lost to its format.** In every state of a run of EngineCore
each finished output of the next step carries a text that is read back as its
own record, and the record arrives in the trace of the request. -/
theorem payloads_arrive (nesting : Nesting) (writer : Writer) (reader : Reader)
    (repr : ℚ → String) (reading : ClockReading) {time : ℚ → Prop} (ht : Times repr time)
    (ops : List EngineOp) (hc : Clocked ops) (hops : ∀ op ∈ ops, Measures time op)
    (hsize : (ops.map updates).sum < 10 ^ maxIntDigits) (batches : List (List Output))
    (hids : (finishedIds batches.flatten).Nodup) (hne : "" ∉ finishedIds batches.flatten)
    (hclean : ∀ outputs ∈ batches, ∀ output ∈ outputs, output.header stagesHeader = none) :
    let dumper := dumpRecord (dumps payloadStyle repr)
    let s := run (EngineState.apply reader dumper) {} ops
    List.Forall₂ (List.Forall₂ fun output output' => ∀ id record, output.finished = true →
      output.requestId = some id → s.registry.get? id = some record →
      (∃ text, output'.header stagesHeader = some text ∧ loads text = .ok record.toJson) ∧
      Arrives (readingJson reader) record output')
      batches (observedStep dumper writer reading nesting s.registry batches).2 := by
  intro dumper s
  rw [observedStep_outputs nesting hids, List.forall₂_map_right_iff]
  refine List.forall₂_same.mpr fun outputs houtputs => ?_
  rw [List.forall₂_map_right_iff]
  refine List.forall₂_same.mpr fun output houtput id record hf hid hr => ?_
  have hsent : Sent dumper writer reading s.registry output
      (sent dumper writer reading nesting s.registry output) :=
    sent_spec nesting (hclean outputs houtputs output houtput)
  have hmem : id ∈ finishedIds batches.flatten := mem_finishedIds.mpr
    ⟨output, List.mem_flatten.mpr ⟨outputs, houtputs, houtput⟩, hf, hid⟩
  have hid_ne : id ≠ "" := fun he => hne (he ▸ hmem)
  have hdecodes := decodes_run reader dumper ht hops hsize hr
  have ⟨text, htext, _, hloads⟩ := hdecodes
  have hsound : record.Sound := (timed_run reader dumper hc id record hr).toSound
  refine ⟨⟨text, ?_, hloads⟩, sent_arrives hsent hf hid hid_ne hr hdecodes hsound⟩
  rw [hsent.stages hf, payload?_record hid hid_ne hr htext]

/-! ## Whole seconds -/

/-- How whole seconds are written. -/
def wholeRepr (q : ℚ) : String := String.ofList (intText q.num ++ ['.', '0'])

theorem readsFloat_whole (n : ℤ) : ReadsFloat wholeRepr (.float (.fin n)) := by
  have hvalue : digitsValue (Nat.toDigits 10 n.natAbs ++ ['0']) = 10 * n.natAbs := by
    rw [digitsValue, List.foldl_append]
    show 10 * digitsValue (Nat.toDigits 10 n.natAbs) + 0 = _
    rw [digitsValue_toDigits, Nat.add_zero]
  have hnumber : numberOf (decide (n < 0)) (Nat.toDigits 10 n.natAbs) ['0'] none =
      some (.float (.fin n)) := by
    have hsigned : (if n < 0 then -(n.natAbs : ℚ) else n.natAbs) = n := natAbs_signed n
    have hq : ((10 * n.natAbs : ℕ) : ℚ) * 10 ^ ((0 : ℤ) - (1 : ℕ)) = n.natAbs := by
      push_cast
      rw [zpow_neg_one, mul_comm, ← mul_assoc, inv_mul_cancel₀ (by norm_num), one_mul]
    have hfloat : numberOf (decide (n < 0)) (Nat.toDigits 10 n.natAbs) ['0'] none =
        some (.float (.fin (if n < 0 then -(n.natAbs : ℚ) else n.natAbs))) := by
      simp only [numberOf, List.isEmpty_cons, Bool.false_and, hvalue, Option.getD_none,
        List.length_singleton, hq, decide_eq_true_eq]
      rfl
    rw [hfloat, hsigned]
  have hpoint : ∀ c ∈ ['.', '0'].head?, isDigit c = false := by
    intro c hc
    obtain rfl : '.' = c := Option.some.inj hc
    rfl
  have hread : readNumber (intText n ++ ['.', '0']) = _ := readNumber_signed n hpoint
  show readNumber (wholeRepr n).toList = _
  rw [wholeRepr, String.toList_ofList, Rat.num_intCast, hread]
  show (numberOf _ _ ['0'] none).map _ = _
  rw [hnumber]
  rfl

theorem wholeSeconds : Times wholeRepr fun q => ∃ n : ℤ, q = n where
  zero := ⟨0, by simp⟩
  add := by
    rintro _ _ ⟨a, rfl⟩ ⟨b, rfl⟩
    exact ⟨a + b, by simp⟩
  sub := by
    rintro _ _ ⟨a, rfl⟩ ⟨b, rfl⟩
    exact ⟨a - b, by simp⟩
  reads := by
    rintro _ ⟨n, rfl⟩
    exact readsFloat_whole n

theorem chunkedRun_whole : ∀ op ∈ chunkedRun, Measures (fun q => ∃ n : ℤ, q = n) op := by
  intro op hop
  simp only [chunkedRun, List.mem_cons, List.not_mem_nil, or_false] at hop
  rcases hop with rfl | rfl | rfl | rfl | rfl | rfl
  · exact ⟨1, by norm_num⟩
  · exact ⟨⟨2, by norm_num⟩, ⟨1, by norm_num⟩⟩
  · exact ⟨2, by norm_num⟩
  · exact ⟨⟨3, by norm_num⟩, ⟨1, by norm_num⟩⟩
  · exact ⟨4, by norm_num⟩
  · exact ⟨⟨2, by norm_num⟩, ⟨5, by norm_num⟩⟩

theorem payloads_arrive_two : ∃ output text,
    output ∈ (observedStep (dumpRecord (dumps payloadStyle wholeRepr)) sampleWriter sampleClock
      .clockInside (run (EngineState.apply twoReader (dumpRecord (dumps payloadStyle wholeRepr))) {}
        chunkedRun).registry twoBatches).2.flatten ∧
    output.header stagesHeader = some text ∧ loads text = .ok firstRecord.toJson := by
  have hsize : (chunkedRun.map updates).sum < 10 ^ maxIntDigits :=
    lt_of_le_of_lt (by decide : _ ≤ maxIntDigits) (Nat.lt_pow_self (by decide))
  have h := payloads_arrive .clockInside sampleWriter twoReader wholeRepr sampleClock wholeSeconds
    chunkedRun chunkedRun_clocked chunkedRun_whole hsize twoBatches (by decide) (by decide)
    (by decide)
  obtain ⟨outputs, rest, hfirst, _, hresult⟩ := List.forall₂_cons_left_iff.mp h
  obtain ⟨_, others, _, hothers, rfl⟩ := List.forall₂_cons_left_iff.mp hfirst
  obtain ⟨output, tail, hsent, _, rfl⟩ := List.forall₂_cons_left_iff.mp hothers
  have hget : (run (EngineState.apply twoReader (dumpRecord (dumps payloadStyle wholeRepr))) {}
      chunkedRun).registry.get? "a" = some firstRecord := by
    decide +kernel
  obtain ⟨⟨text, htext, hloads⟩, _⟩ := hsent "a" firstRecord rfl rfl hget
  exact ⟨output, text, by rw [hresult]; simp, htext, hloads⟩

end VllmObserver.Adapter
