import VllmObserver.Filters.Console
import VllmObserver.Lib.Ledger

/-! # The flame graph of a log

`stage_speedscope` reads a log line by line, adds up the seconds of each stage
path and writes them as a profile, the longest first. Of a log that the console
has printed every event is counted. -/
namespace VllmObserver.Scripts
open VllmObserver.Lib VllmObserver.Core VllmObserver.Exporter VllmObserver.Filters

/-! ## Paths -/

def root : String := "serve-model-request"

def engineStages : List String :=
  ["engine_handoff", "waiting_to_first_schedule", "prefill", "decode", "engine_finalize"]

def apiStages : List String := ["render_input", "input_process", "submit_engine", "sampling_params"]

/-- The name without a module in front of it. -/
def stripped (name : String) : String :=
  if '.' ∈ name.toList then String.ofList (name.toList.dropWhile (· ≠ '.')).tail else name

def stagePath (name : String) : List String :=
  if name = root then [root]
  else if stripped name = "queue" then [root, "generate-response"]
  else if stripped name ∈ engineStages then [root, "generate-response", stripped name]
  else if stripped name ∈ apiStages then [root, "api_prepare", stripped name]
  else if name = "http_total" then [root, "http_total(unpartitioned-diagnostic)"]
  else [root, name]

/-! ## Reading -/

def isNewline (c : Char) : Bool := c == '\n' || c == '\r'

/-- The lines of a file behind the characters of the current one, which are
reversed. A carriage return ends a line too, on its own or before a newline. -/
def fileLinesFrom (line : List Char) : List Char → List (List Char)
  | [] => if line.isEmpty then [] else [line.reverse]
  | '\r' :: '\n' :: rest => line.reverse :: fileLinesFrom [] rest
  | c :: rest =>
    if isNewline c then line.reverse :: fileLinesFrom [] rest else fileLinesFrom (c :: line) rest

def fileLines (text : List Char) : List (List Char) := fileLinesFrom [] text

/-- `line.strip().lstrip("\ufeff")`. -/
def clean (line : List Char) : List Char := (strip line).dropWhile (· == '\uFEFF')

abbrev Totals := Dict (List String) Flt

section Read
variable (reader : Reader)

/-- `value.items()`, which only a dictionary has. -/
def items : Json → Except PyError (List (String × Json))
  | .obj entries => .ok (Dict.ofList entries).entries
  | value => .error (.attributeError ("'" ++ value.typeName ++ "' object has no attribute 'items'"))

def addStage (totals : Totals) (stage : String × Json) : Except PyError Totals := do
  let value ← stage.2.get "total_seconds" (.float 0)
  let seconds ← reader.floatOf value
  .ok (post totals (stagePath stage.1, seconds))

/-- A line that is no JSON is skipped. -/
def addLine (totals : Totals) (line : List Char) : Except PyError Totals :=
  if (clean line).isEmpty then .ok totals
  else match loads (String.ofList (clean line)) with
    | .error _ => .ok totals -- printed
    | .ok event => do
      let stages ← event.get "stages" (.obj [])
      let stages ← items stages
      stages.foldlM (addStage reader) totals

def readTotals (text : List Char) : Except PyError Totals :=
  (fileLines text).foldlM (addLine reader) Dict.empty

end Read

/-! ## The profile -/

/-- The frames, and the index of each by its name. -/
structure Frames where
  frames : List String := []
  index : Dict String ℕ := Dict.empty

def Frames.frameId (s : Frames) (name : String) : Frames × ℕ :=
  match s.index.get? name with
  | some i => (s, i)
  | none => (⟨s.frames ++ [name], s.index.set name s.frames.length⟩, s.frames.length)

/-- The frame of each beginning of the path, which its last name stands for. -/
def Frames.sample (s : Frames) : List String → Frames × List ℕ
  | [] => (s, [])
  | name :: rest =>
    let (s, i) := s.frameId name
    let (s, others) := s.sample rest
    (s, i :: others)

def Frames.samples (s : Frames) : List (List String) → Frames × List (List ℕ)
  | [] => (s, [])
  | path :: rest =>
    let (s, sample) := s.sample path
    let (s, others) := s.samples rest
    (s, sample :: others)

/-- `sorted(totals.items(), key=lambda kv: -kv[1])`: an entry stays in front of
one behind it unless that has more. -/
def longestFirst (totals : Totals) : List (List String × Flt) :=
  totals.entries.insertionSort fun a b => a.2.lt b.2 = false

structure Profile where
  frames : List String
  samples : List (List ℕ)
  weights : List Flt

def profileOf (totals : Totals) : Profile :=
  let (frames, samples) := Frames.samples {} ((longestFirst totals).map Prod.fst)
  ⟨frames.frames, samples, (longestFirst totals).map Prod.snd⟩

/-- `main`, up to the writing of the file. -/
def stageSpeedscope (reader : Reader) (text : List Char) : Except PyError Profile := do
  let totals ← readTotals reader text
  .ok (profileOf totals)

/-! ## Frames -/

namespace Frames
variable {s : Frames}

/-- The index finds each frame, by its name. -/
def Indexed (s : Frames) : Prop := ∀ name i, s.index.get? name = some i ↔ s.frames[i]? = some name

/-- The frames named by the sample. -/
def Decodes (frames : List String) (path : List String) (sample : List ℕ) : Prop :=
  sample.map (frames[·]?) = path.map some

theorem Decodes.mono {frames frames' : List String} {path : List String} {sample : List ℕ}
    (h : Decodes frames path sample) (hle : frames <+: frames') : Decodes frames' path sample := by
  obtain ⟨new, rfl⟩ := hle
  rw [Decodes, ← show sample.map (frames[·]?) = path.map some from h]
  refine List.map_congr_left fun i hi => ?_
  have hmem : frames[i]? ∈ path.map some := h ▸ List.mem_map_of_mem hi
  obtain ⟨name, _, hname⟩ := List.mem_map.mp hmem
  have hlt := (List.getElem?_eq_some_iff.mp hname.symm).1
  exact List.getElem?_append_left hlt

theorem frameId_spec (h : s.Indexed) (name : String) :
    (s.frameId name).1.Indexed ∧ s.frames <+: (s.frameId name).1.frames ∧
      (s.frameId name).1.frames[(s.frameId name).2]? = some name := by
  unfold frameId
  split
  · rename_i i hi
    exact ⟨h, List.prefix_refl _, (h name i).mp hi⟩
  · rename_i hnone
    have hnew : ∀ i, s.frames[i]? ≠ some name := fun i hi => by
      rw [(h name i).mpr hi] at hnone
      cases hnone
    refine ⟨fun other i => ?_, List.prefix_append _ _, List.getElem?_concat_length⟩
    simp only [Dict.get?_set]
    by_cases hlt : i < s.frames.length
    · rw [List.getElem?_append_left hlt, ← h other i]
      split
      · rename_i heq
        subst heq
        rw [hnone]
        constructor
        · intro hi
          exact absurd (Option.some.inj hi) (by omega)
        · intro hi
          cases hi
      · rfl
    · have hget : (s.frames ++ [name])[i]? = if i = s.frames.length then some name else none := by
        split
        · rename_i heq
          subst heq
          exact List.getElem?_concat_length
        · refine List.getElem?_eq_none ?_
          rw [List.length_append, List.length_singleton]
          omega
      rw [hget]
      by_cases heq : other = name
      · rw [if_pos heq, heq]
        by_cases hi : i = s.frames.length
        · simp [hi]
        · simp [hi, Ne.symm hi]
      · rw [if_neg heq]
        constructor
        · intro hi
          have hold := (List.getElem?_eq_some_iff.mp ((h other i).mp hi)).1
          exact absurd hold hlt
        · intro hi
          split at hi
          · exact absurd (Option.some.inj hi).symm heq
          · cases hi

/-- **The sample of a path decodes to it.** -/
theorem sample_spec : ∀ (path : List String) {s : Frames}, s.Indexed →
    (s.sample path).1.Indexed ∧ s.frames <+: (s.sample path).1.frames ∧
      Decodes (s.sample path).1.frames path (s.sample path).2
  | [], _, h => ⟨h, List.prefix_refl _, rfl⟩
  | name :: rest, s, h => by
    obtain ⟨hone, hle, hname⟩ := frameId_spec h name
    obtain ⟨hall, hle', hrest⟩ := sample_spec rest hone
    refine ⟨hall, hle.trans hle', ?_⟩
    have hfirst : Decodes (s.frameId name).1.frames [name] [(s.frameId name).2] :=
      congrArg (fun frame => [frame]) hname
    have hfirst' : Decodes ((s.frameId name).1.sample rest).1.frames [name]
        [(s.frameId name).2] := hfirst.mono hle'
    exact congrArg₂ (· ++ ·) hfirst' hrest

theorem samples_spec : ∀ (paths : List (List String)) {s : Frames}, s.Indexed →
    (s.samples paths).1.Indexed ∧ s.frames <+: (s.samples paths).1.frames ∧
      List.Forall₂ (Decodes (s.samples paths).1.frames) paths (s.samples paths).2
  | [], _, h => ⟨h, List.prefix_refl _, .nil⟩
  | path :: rest, s, h => by
    obtain ⟨hone, hle, hpath⟩ := sample_spec path h
    obtain ⟨hall, hle', hrest⟩ := samples_spec rest hone
    exact ⟨hall, hle.trans hle', .cons (hpath.mono hle') hrest⟩

/-- No name has two frames. -/
theorem Indexed.nodup (h : s.Indexed) : s.frames.Nodup := by
  rw [List.nodup_iff_getElem?_ne_getElem?]
  intro i j hij hj heq
  have hname : s.frames[j]? = some s.frames[j] := List.getElem?_eq_getElem hj
  have hi := (h _ i).mpr (heq.trans hname)
  have hj' := (h _ j).mpr hname
  rw [hi] at hj'
  exact absurd (Option.some.inj hj') (by omega)

end Frames

/-! ## Lines of a log -/

theorem fileLinesFrom_newline (line rest : List Char) :
    fileLinesFrom line ('\n' :: rest) = line.reverse :: fileLinesFrom [] rest := by
  rw [fileLinesFrom]
  · rfl
  · intro tail h
    cases h

theorem fileLinesFrom_cons {c : Char} (h : isNewline c = false) (line rest : List Char) :
    fileLinesFrom line (c :: rest) = fileLinesFrom (c :: line) rest := by
  rw [fileLinesFrom]
  · rw [if_neg (by simp [h])]
  · rintro tail rfl
    cases h

theorem fileLinesFrom_return {d : Char} (h : d ≠ '\n') (line rest : List Char) :
    fileLinesFrom line ('\r' :: d :: rest) = line.reverse :: fileLinesFrom [] (d :: rest) := by
  rw [fileLinesFrom]
  · rfl
  · intro tail _ heq
    exact h (List.cons.inj heq).1

/-- A text that breaks no line, and ends one. -/
theorem fileLinesFrom_line : ∀ (text line rest : List Char), (∀ c ∈ text, isNewline c = false) →
    fileLinesFrom line (text ++ '\n' :: rest) =
      (line.reverse ++ text) :: fileLinesFrom [] rest
  | [], line, rest, _ => by
    rw [List.nil_append, fileLinesFrom_newline, List.append_nil]
  | c :: tail, line, rest, h => by
    rw [List.cons_append, fileLinesFrom_cons (h c List.mem_cons_self),
      fileLinesFrom_line tail _ _ fun d hd => h d (List.mem_cons_of_mem _ hd)]
    simp

/-- Entries do not share lines. -/
theorem fileLinesFrom_entry (line text rest : List Char) :
    fileLinesFrom line (text ++ '\n' :: rest) =
      fileLinesFrom line (text ++ ['\n']) ++ fileLinesFrom [] rest := by
  fun_induction fileLinesFrom line text with
  | case1 line hline =>
    rw [List.nil_append, List.nil_append, fileLinesFrom_newline, fileLinesFrom_newline]
    rfl
  | case2 line hline =>
    rw [List.nil_append, List.nil_append, fileLinesFrom_newline, fileLinesFrom_newline]
    rfl
  | case3 line tail ih =>
    simp only [List.cons_append, fileLinesFrom, ih]
  | case4 line c tail hpair hc ih =>
    have hcases : c = '\n' ∨ c = '\r' := by simpa [isNewline] using hc
    rcases hcases with rfl | rfl
    · rw [List.cons_append, List.cons_append, fileLinesFrom_newline, fileLinesFrom_newline, ih]
      rfl
    · cases tail with
      | nil => rfl -- the end of the entry completes the end of its line
      | cons d tail =>
        have hd : d ≠ '\n' := fun heq => hpair tail rfl (by rw [heq])
        simp only [List.cons_append] at ih ⊢
        rw [fileLinesFrom_return hd, fileLinesFrom_return hd, ih]
        rfl
  | case5 line c tail hpair hc ih =>
    have hc' : isNewline c = false := by simpa using hc
    rw [List.cons_append, List.cons_append, fileLinesFrom_cons hc', fileLinesFrom_cons hc', ih]

/-! ## The line of an event -/

/-- The seconds of the stages of an event. -/
def stageSeconds (event : Event) : List (String × Flt) :=
  event.stages.entries.map fun entry => (entry.1, entry.2.totalSeconds)

/-- What the stages add to the totals. -/
def pathSeconds (stages : List (String × Flt)) : List (List String × Flt) :=
  stages.map fun stage => (stagePath stage.1, stage.2)

section Line
variable {reader : Reader} {repr : ℚ → String} {event : Event} {line : String}

theorem clean_braces (text : List Char) :
    clean ('\x7b' :: (text ++ ['\x7d'])) = '\x7b' :: (text ++ ['\x7d']) := by
  have hstrip : strip ('\x7b' :: (text ++ ['\x7d'])) = '\x7b' :: (text ++ ['\x7d']) := by
    have hopen : lstrip ('\x7b' :: (text ++ ['\x7d'])) = '\x7b' :: (text ++ ['\x7d']) := rfl
    have hclose : lstrip ('\x7d' :: (text.reverse ++ ['\x7b'])) =
        '\x7d' :: (text.reverse ++ ['\x7b']) := rfl
    rw [strip, hopen]
    simp only [List.reverse_cons, List.reverse_append, List.reverse_nil, List.nil_append,
      List.cons_append, hclose, List.reverse_reverse]
  rw [clean, hstrip]
  rfl

/-- The text of an event stands between braces. -/
theorem consoleLine_text (h : consoleLine repr event = .ok line) :
    ∃ text, line = String.ofList ('\x7b' :: (text ++ ['\x7d'])) ∧
      dumpValue consoleStyle repr (eventJson event) = .ok ('\x7b' :: (text ++ ['\x7d'])) := by
  obtain ⟨text, htext, h⟩ := bind_eq_ok.mp h
  cases h
  have hobj := htext
  rw [eventJson, dumpValue] at hobj
  obtain ⟨members, _, h⟩ := bind_eq_ok.mp hobj
  cases h
  exact ⟨members, rfl, htext⟩

theorem eventJson_stages : (eventJson event).get "stages" (.obj []) =
    .ok (stagesJson event.stages) := by
  have hlabels : (labels event).reverse.lookup "stages" = none := by
    rw [List.lookup_eq_none_iff]
    intro label hlabel
    obtain ⟨entry, hentry, hsome⟩ := List.mem_filterMap.mp (List.mem_reverse.mp hlabel)
    obtain ⟨value, _, rfl⟩ := Option.map_eq_some_iff.mp hsome
    simp only [List.mem_cons, List.not_mem_nil, or_false] at hentry
    have hname : entry.1 ≠ "stages" := by
      rcases hentry with rfl | rfl | rfl <;> simp
    exact bne_iff_ne.mpr hname.symm
  rw [eventJson, Json.get, Json.find?, List.reverse_append, List.lookup_append, hlabels]
  rfl

theorem items_stagesJson (stages : Dict String Aggregate.Exported) : items (stagesJson stages) =
    .ok (stages.entries.map fun entry => (entry.1, .obj (aggregateEntries entry.2))) := by
  rw [stagesJson, items, Dict.entries_ofList]
  rw [List.map_map]
  exact stages.nodup

theorem addStages (entries : List (String × Aggregate.Exported)) : ∀ totals : Totals,
    (entries.map fun entry => (entry.1, Json.obj (aggregateEntries entry.2))).foldlM
      (addStage reader) totals =
      .ok (run post totals
        (entries.map fun entry => (stagePath entry.1, entry.2.totalSeconds))) := by
  induction entries with
  | nil => exact fun _ => rfl
  | cons entry rest ih =>
    intro totals
    rw [List.map_cons, List.foldlM_cons]
    exact ih _

/-- **The line of an event adds its stages.** -/
theorem addLine_event (h : consoleLine repr event = .ok line)
    (hfloats : (eventJson event).NumbersMeet (ReadsFloat repr)) (totals : Totals) :
    addLine reader totals line.toList =
      .ok (run post totals (pathSeconds (stageSeconds event))) := by
  obtain ⟨text, rfl, htext⟩ := consoleLine_text h
  rw [String.toList_ofList, addLine, clean_braces, loads_dumped htext hfloats]
  simp only [List.isEmpty_cons, Bool.false_eq_true, if_false]
  rw [eventJson_stages, ok_bind, items_stagesJson, ok_bind, addStages, pathSeconds, stageSeconds,
    List.map_map]
  rfl

/-- An event is printed on one line. -/
theorem consoleLine_newline (h : consoleLine repr event = .ok line)
    (hfloats : (eventJson event).NumbersMeet (ReadsFloat repr)) :
    ∀ c ∈ line.toList, isNewline c = false := by
  obtain ⟨text, rfl, htext⟩ := consoleLine_text h
  rw [String.toList_ofList]
  intro c hc
  have hwrites := (writes_dumpValue (eventJson event) hfloats htext c hc).1
  simp only [isNewline, Bool.or_eq_false_iff, beq_eq_false_iff_ne]
  refine ⟨?_, ?_⟩
  · rintro rfl
    exact absurd hwrites (by decide)
  · rintro rfl
    exact absurd hwrites (by decide)

end Line

/-! ## A whole log -/

/-- No line of the message is taken for an event. -/
def Skipped (text : String) : Prop :=
  ∀ line ∈ fileLines (text.toList ++ ['\n']),
    clean line = [] ∨ ∃ e, loads (String.ofList (clean line)) = .error e

section Log
variable (reader : Reader) {repr : ℚ → String}

theorem addLines_skipped : ∀ {lines : List (List Char)},
    (∀ line ∈ lines, clean line = [] ∨ ∃ e, loads (String.ofList (clean line)) = .error e) →
      ∀ totals : Totals, lines.foldlM (addLine reader) totals = .ok totals
  | [], _, _ => rfl
  | line :: rest, h, totals => by
    have hline : addLine reader totals line = .ok totals := by
      rcases h line List.mem_cons_self with hempty | ⟨e, he⟩
      · rw [addLine, hempty]
        rfl
      · rw [addLine, he]
        split <;> rfl
    rw [List.foldlM_cons, hline, ok_bind]
    exact addLines_skipped (fun other ho => h other (List.mem_cons_of_mem _ ho)) totals

/-- The log holds the lines of the events, in order, and messages that are skipped. -/
structure LogOf (repr : ℚ → String) (events : List Event) (log : List Entry) : Prop where
  lines : List.Forall₂ (fun event line => consoleLine repr event = .ok line) events
    (log.filterMap Entry.line?)
  floats : ∀ event ∈ events, (eventJson event).NumbersMeet (ReadsFloat repr)
  messages : ∀ text, .message text ∈ log → Skipped text

/-- **Of a log every event is read, and nothing else.** -/
theorem readLog : ∀ {log : List Entry} {events : List Event}, LogOf repr events log →
    ∀ totals : Totals, (fileLines (logText log)).foldlM (addLine reader) totals =
      .ok (run post totals (pathSeconds (events.flatMap stageSeconds)))
  | [], events, h, totals => by
    cases h.lines
    rfl
  | .message text :: rest, events, h, totals => by
    have htext : logText (.message text :: rest) = text.toList ++ '\n' :: logText rest := by
      simp [logText, Entry.text]
    have hrest : LogOf repr events rest :=
      ⟨h.lines, h.floats, fun other ho => h.messages other (List.mem_cons_of_mem _ ho)⟩
    have hskipped : (fileLinesFrom [] (text.toList ++ ['\n'])).foldlM (addLine reader) totals =
        .ok totals := addLines_skipped reader (h.messages text List.mem_cons_self) totals
    rw [htext, fileLines, fileLinesFrom_entry, List.foldlM_append, hskipped, ok_bind]
    exact readLog hrest totals
  | .event line :: rest, events, h, totals => by
    obtain ⟨event, others, hline, hlines, rfl⟩ := List.forall₂_cons_right_iff.mp h.lines
    have hevent := h.floats event List.mem_cons_self
    have htext : logText (.event line :: rest) = line.toList ++ '\n' :: logText rest := by
      simp [logText, Entry.text]
    have hrest : LogOf repr others rest :=
      ⟨hlines, fun other ho => h.floats other (List.mem_cons_of_mem _ ho),
        fun other ho => h.messages other (List.mem_cons_of_mem _ ho)⟩
    have hread := readLog hrest (run post totals (pathSeconds (stageSeconds event)))
    rw [fileLines] at hread
    rw [htext, fileLines, fileLinesFrom_line _ _ _ (consoleLine_newline hline hevent),
      List.reverse_nil, List.nil_append, List.foldlM_cons, addLine_event hline hevent, ok_bind,
      hread, ← run_append, List.flatMap_cons, pathSeconds, pathSeconds, pathSeconds,
      List.map_append]

end Log

/-! ## What the profile shows -/

/-- The seconds of the stages with a path. -/
def secondsOf (stages : List (String × Flt)) (path : List String) : Flt :=
  ((stages.filter fun stage => decide (stagePath stage.1 = path)).map Prod.snd).sum

/-- Each path of a stage has one sample, which decodes to it and has its seconds. -/
structure Shows (profile : Profile) (stages : List (String × Flt)) : Prop where
  frames : profile.frames.Nodup
  paths : ∃ paths : List (List String), paths.Nodup ∧
    (∀ path, path ∈ paths ↔ ∃ stage ∈ stages, stagePath stage.1 = path) ∧
    List.Forall₂ (Frames.Decodes profile.frames) paths profile.samples ∧
    profile.weights = paths.map (secondsOf stages)
  total : profile.weights.sum = (stages.map Prod.snd).sum
  longest : (∀ stage ∈ stages, stage.2.isFinite = true) →
    profile.weights.Pairwise fun a b => b.le a = true

section Profile
variable (stages : List (String × Flt))

/-- The totals of a log with the stages. -/
def totalsOf : Totals := run post Dict.empty (pathSeconds stages)

theorem balance_totalsOf (path : List String) :
    balance (totalsOf stages) path = secondsOf stages path := by
  rw [← holdings_single, totalsOf, holdings_run, pathSeconds, postedTo, List.filter_map,
    List.map_map]
  exact zero_add _

theorem mem_totalsOf {path : List String} {seconds : Flt}
    (h : (path, seconds) ∈ (totalsOf stages).entries) : seconds = secondsOf stages path := by
  rw [← balance_totalsOf, balance, Dict.mem_entries_iff.mp h]
  rfl

theorem longestFirst_perm (totals : Totals) : (longestFirst totals).Perm totals.entries :=
  List.perm_insertionSort _ _

theorem sum_finite : ∀ {xs : List Flt}, (∀ x ∈ xs, x.isFinite = true) → xs.sum.isFinite = true
  | [], _ => rfl
  | x :: rest, h => by
    have hx := h x List.mem_cons_self
    have hrest := sum_finite fun y hy => h y (List.mem_cons_of_mem x hy)
    rw [List.sum_cons]
    revert hrest
    generalize rest.sum = y
    rcases x with a | _ | _
    · rcases y with b | _ | _
      · exact fun _ => rfl
      · exact fun hy => by cases hy
      · exact fun hy => by cases hy
    · cases hx
    · cases hx

/-- The rational that a finite float is. -/
def rational : Flt → ℚ
  | .fin q => q
  | _ => 0

theorem fin_rational {x : Flt} (h : x.isFinite = true) : .fin (rational x) = x := by
  rcases x with q | _ | _
  · rfl
  · cases h
  · cases h

theorem longestFirst_sorted {totals : Totals}
    (h : ∀ entry ∈ totals.entries, entry.2.isFinite = true) :
    ((longestFirst totals).map Prod.snd).Pairwise fun a b => b.le a = true := by
  have hsort : ((longestFirst totals).map fun entry => rational entry.2) =
      (totals.entries.map fun entry => rational entry.2).insertionSort (· ≥ ·) := by
    refine List.map_insertionSort _ _ _ _ fun a ha b hb => ?_
    rw [← fin_rational (h a ha), ← fin_rational (h b hb)]
    simp [rational]
  have hpairwise := List.pairwise_insertionSort (· ≥ ·)
    (totals.entries.map fun entry => rational entry.2)
  rw [← hsort] at hpairwise
  rw [List.pairwise_map] at hpairwise ⊢
  refine hpairwise.imp_of_mem fun {a b} ha hb hle => ?_
  rw [← fin_rational (h a ((longestFirst_perm totals).mem_iff.mp ha)),
    ← fin_rational (h b ((longestFirst_perm totals).mem_iff.mp hb))]
  simpa using hle

theorem shows_profileOf : Shows (profileOf (totalsOf stages)) stages := by
  have hperm := longestFirst_perm (totalsOf stages)
  obtain ⟨hindexed, _, hsamples⟩ := Frames.samples_spec
    ((longestFirst (totalsOf stages)).map Prod.fst) (s := {}) (by simp [Frames.Indexed])
  have hentries : ∀ entry ∈ longestFirst (totalsOf stages),
      entry.2 = secondsOf stages entry.1 := fun entry hentry =>
    mem_totalsOf stages (hperm.mem_iff.mp hentry)
  refine ⟨hindexed.nodup, ⟨_, ?_, fun path => ?_, hsamples, ?_⟩, ?_, fun hfinite => ?_⟩
  · exact (hperm.map Prod.fst).nodup_iff.mpr (totalsOf stages).nodup
  · rw [(hperm.map Prod.fst).mem_iff]
    change path ∈ (totalsOf stages).keys ↔ _
    rw [totalsOf, mem_keys_run_post, pathSeconds]
    constructor
    · rintro (hnone | ⟨entry, hentry, rfl⟩)
      · cases hnone
      · obtain ⟨stage, hstage, rfl⟩ := List.mem_map.mp hentry
        exact ⟨stage, hstage, rfl⟩
    · rintro ⟨stage, hstage, rfl⟩
      exact .inr ⟨_, List.mem_map_of_mem hstage, rfl⟩
  · rw [List.map_map]
    exact List.map_congr_left hentries
  · have hsum : holdings (fun _ => true) (totalsOf stages) = (stages.map Prod.snd).sum := by
      rw [totalsOf, holdings_run, pathSeconds, postedTo, List.filter_true, List.map_map]
      exact zero_add _
    rw [← hsum, holdings, postedTo, List.filter_true]
    exact (hperm.map Prod.snd).sum_eq
  · refine longestFirst_sorted fun entry hentry => ?_
    rw [mem_totalsOf stages hentry]
    refine sum_finite fun x hx => ?_
    obtain ⟨stage, hstage, rfl⟩ := List.mem_map.mp hx
    exact hfinite stage (List.mem_filter.mp hstage).1

end Profile

/-- **The flame graph of a log shows the stages of its events**: each path once,
with the seconds of its stages, and all of them together with all seconds. -/
theorem speedscope_shows (reader : Reader) {repr : ℚ → String} {events : List Event}
    {log : List Entry} (h : LogOf repr events log) :
    ∃ profile, stageSpeedscope reader (logText log) = .ok profile ∧
      Shows profile (events.flatMap stageSeconds) := by
  refine ⟨_, ?_, shows_profileOf (events.flatMap stageSeconds)⟩
  rw [stageSpeedscope, readTotals, readLog reader h, ok_bind]
  rfl

/-- A request that waited, and was decoded in a stage of no module. -/
def waitedEvent : Event where
  traceId := "t"
  parentSpanId := none
  startedNs := 5
  status := .ok
  engineRequests := 1
  rootSpanId := "r"
  route := "/v1/completions"
  observations := []
  stages := Dict.ofList [("queue", ⟨.int 1, .fin (1 / 2), .fin (1 / 2)⟩),
    ("execute_model", ⟨.int 1, .fin (1 / 2), .fin (1 / 2)⟩)]
  requestPayload := .null
  responseText := .null
  firstBodyNs := none
  apiIntervals := []
  userId := none
  sessionId := none

def waitedLine : String :=
  (consoleLine (fun _ => "0.5") waitedEvent).toOption.getD ""

theorem waitedLog : LogOf (fun _ => "0.5") [waitedEvent]
    [.message "Metric push failed", .event waitedLine] where
  lines := .cons rfl .nil
  floats := by
    intro event hevent
    rw [List.mem_singleton.mp hevent]
    have hhalf := readsFloat_half
    refine ⟨trivial, trivial, trivial, trivial, trivial, trivial, trivial, trivial, ?_, trivial,
      trivial, trivial, trivial, trivial, trivial, trivial⟩
    exact ⟨⟨trivial, hhalf, hhalf, trivial⟩, ⟨trivial, hhalf, hhalf, trivial⟩, trivial⟩
  messages := by
    intro text htext
    have heq : text = "Metric push failed" := by simpa using htext
    subst heq
    intro line hline
    have hlines : fileLines ("Metric push failed".toList ++ ['\n']) =
        ["Metric push failed".toList] := rfl
    rw [hlines] at hline
    rw [List.mem_singleton.mp hline]
    exact .inr ⟨_, rfl⟩

theorem speedscope_shows_waited : ∃ profile,
    stageSpeedscope ⟨fun text => .error (.valueError text), fun text => .error (.valueError text),
      loads⟩ (logText [.message "Metric push failed", .event waitedLine]) = .ok profile ∧
    profile.weights.sum = .fin 1 := by
  obtain ⟨profile, hprofile, hshows⟩ := speedscope_shows
    ⟨fun text => .error (.valueError text), fun text => .error (.valueError text), loads⟩ waitedLog
  refine ⟨profile, hprofile, hshows.total.trans ?_⟩
  decide +kernel

end VllmObserver.Scripts
