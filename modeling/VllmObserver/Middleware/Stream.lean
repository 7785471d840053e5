import VllmObserver.Core.JsonLiteral
import VllmObserver.Core.Utf8
import VllmObserver.Middleware.Capture
import Mathlib.Data.List.Flatten

/-! # Captured event streams

A stream sends each delta as JSON on a line of its own. The parser splits the
captured text with `str.splitlines`, which also ends a line at three characters
beyond ASCII that JSON text leaves as they are: a delta with one of them is cut
to pieces, and none of the pieces is a delta. -/
namespace VllmObserver.Middleware
open VllmObserver.Lib VllmObserver.Core

/-- Next line, line separator and paragraph separator. -/
def isSeparator (c : Char) : Bool :=
  c.toNat == 0x85 || c.toNat == 0x2028 || c.toNat == 0x2029

theorem printable_ne_return {c : Char} (h : 0x20 ≤ c.toNat) : c ≠ '\r' := by
  rintro rfl
  revert h
  decide

/-- The only line breaks among printable characters. -/
theorem isLineBreak_printable {c : Char} (h : 0x20 ≤ c.toNat) :
    isLineBreak c = isSeparator c := by
  rw [Bool.eq_iff_iff]
  simp only [isLineBreak, isSeparator, Bool.or_eq_true, Bool.and_eq_true, decide_eq_true_eq,
    beq_iff_eq]
  omega

theorem isSeparator_beyond {c : Char} (h : isSeparator c = true) : 0x80 ≤ c.toNat := by
  simp only [isSeparator, Bool.or_eq_true, beq_iff_eq] at h
  omega

/-! ## Lines -/

theorem splitLinesFrom_cons {c : Char} (hc : c ≠ '\r') (line text : List Char) :
    splitLinesFrom line (c :: text) =
      if isLineBreak c then line.reverse :: splitLinesFrom [] text
      else splitLinesFrom (c :: line) text := by
  rw [splitLinesFrom]
  exact fun _ h => absurd h hc

theorem splitLinesFrom_newline (line text : List Char) :
    splitLinesFrom line ('\n' :: text) = line.reverse :: splitLinesFrom [] text := by
  rw [splitLinesFrom_cons (by decide)]
  rfl

/-- Text without a line break goes to the current line. -/
theorem splitLinesFrom_append {text : List Char} (h : ∀ c ∈ text, isLineBreak c = false)
    (line rest : List Char) :
    splitLinesFrom line (text ++ rest) = splitLinesFrom (text.reverse ++ line) rest := by
  induction text generalizing line with
  | nil => rfl
  | cons c text ih =>
    rw [List.forall_mem_cons] at h
    have hc : c ≠ '\r' := by
      rintro rfl
      exact absurd h.1 (by decide)
    rw [List.cons_append, splitLinesFrom_cons hc, h.1, if_neg (by decide), ih h.2]
    simp

/-- Up to a line feed, the lines of the text are its own. -/
theorem splitLinesFrom_feed {text : List Char} (h : '\r' ∉ text) (line rest : List Char) :
    splitLinesFrom line (text ++ '\n' :: rest) =
      splitLinesFrom line (text ++ ['\n']) ++ splitLinesFrom [] rest := by
  induction text generalizing line with
  | nil => simp [splitLinesFrom_newline, splitLinesFrom]
  | cons c text ih =>
    rw [List.mem_cons, not_or] at h
    rw [List.cons_append, List.cons_append, splitLinesFrom_cons (Ne.symm h.1),
      splitLinesFrom_cons (Ne.symm h.1)]
    split
    · rw [ih h.2, List.cons_append]
    · exact ih h.2 _

/-! ## Frames -/

/-- The chunk that carries a content. -/
def deltaChunk (content : String) : Json :=
  .obj [("choices", .arr [.obj [("delta", .obj [("content", .str content)])]])]

/-- The tokens of the chunk, with literals of its keys and of the content. -/
def deltaTokens (choices delta key raw : List Char) : List (List Char) :=
  memberTokens choices (elementTokens (memberTokens delta (memberTokens key [quoted raw])))

/-- The tokens before the content. -/
def keyTokens (choices delta key : List Char) : List (List Char) :=
  [['{'], quoted choices, [':'], ['['], ['{'], quoted delta, [':'], ['{'], quoted key, [':']]

/-- The tokens behind the content. -/
def closingTokens : List (List Char) := [['}'], ['}'], [']'], ['}']]

theorem deltaTokens_eq (choices delta key raw : List Char) :
    deltaTokens choices delta key raw =
      keyTokens choices delta key ++ quoted raw :: closingTokens := rfl

def punctuation : List (List Char) := [['{'], [':'], ['['], [']'], ['}']]

theorem mem_keyTokens {choices delta key token : List Char}
    (h : token ∈ keyTokens choices delta key) :
    token ∈ punctuation ∨ ∃ literal ∈ [choices, delta, key], token = quoted literal := by
  simp only [keyTokens, List.mem_cons, List.not_mem_nil, or_false] at h
  simp only [punctuation, List.mem_cons, List.not_mem_nil, or_false, exists_eq_or_imp,
    exists_eq_left]
  tauto

theorem mem_deltaTokens {choices delta key raw token : List Char}
    (h : token ∈ deltaTokens choices delta key raw) :
    token ∈ keyTokens choices delta key ∨ token = quoted raw ∨ token ∈ punctuation := by
  rw [deltaTokens_eq, List.mem_append, List.mem_cons] at h
  have hclosing : ∀ token ∈ closingTokens, token ∈ punctuation := by decide
  exact h.imp_right (Or.imp_right (hclosing token))

/-- A line of JSON text for a content, which escapes no character beyond ASCII. -/
structure DeltaLine where
  content : String
  choices : List Char
  delta : List Char
  key : List Char
  raw : List Char
  json : List Char
  choicesEscaped : Escaped "choices".toList choices
  deltaEscaped : Escaped "delta".toList delta
  keyEscaped : Escaped "content".toList key
  rawEscaped : Escaped content.toList raw
  spaced : Spaced (deltaTokens choices delta key raw) json

def dataPrefix : List Char := ['d', 'a', 't', 'a', ':']

theorem dataPrefix_eq : "data:".toList = dataPrefix := by decide

/-- The text of an event stream. -/
def streamText (frames : List DeltaLine) : List Char :=
  frames.flatMap (fun frame => dataPrefix ++ ' ' :: (frame.json ++ ['\n', '\n'])) ++
    "data: [DONE]\n\n".toList

/-- The concatenated contents; `None` if there is no text. -/
def joined (contents : List String) : Json :=
  let text := contents.foldr (· ++ ·) ""
  if text = "" then .null else .str text

namespace DeltaLine
variable (frame : DeltaLine)

theorem loads {line : List Char}
    (h : Spaced (deltaTokens frame.choices frame.delta frame.key frame.raw) line) :
    Core.loads (String.ofList line) = .ok (deltaChunk frame.content) := by
  have hlen := h.length_le
  obtain ⟨n, hn⟩ : ∃ n, line.length + 1 = n + 5 := by
    simp only [deltaTokens, memberTokens, elementTokens, quoted, List.map_cons, List.map_append,
      List.sum_cons, List.sum_append, List.length_cons, List.length_append] at hlen
    exact ⟨line.length - 4, by omega⟩
  refine ReadAs.loads ?_ h
  rw [hn]
  exact readAs_member frame.choicesEscaped (readAs_element (readAs_member frame.deltaEscaped
    (readAs_member frame.keyEscaped (readAs_string frame.rawEscaped))))

theorem key_escaped {literal : List Char}
    (h : literal ∈ [frame.choices, frame.delta, frame.key]) :
    ∃ text ∈ ["choices", "delta", "content"], Escaped text.toList literal := by
  simp only [List.mem_cons, List.not_mem_nil, or_false] at h
  rcases h with rfl | rfl | rfl
  · exact ⟨_, by simp, frame.choicesEscaped⟩
  · exact ⟨_, by simp, frame.deltaEscaped⟩
  · exact ⟨_, by simp, frame.keyEscaped⟩

theorem mem_quoted {raw : List Char} {c : Char} (h : c ∈ quoted raw) : c = '"' ∨ c ∈ raw := by
  simp only [quoted, List.mem_cons, List.mem_append, List.not_mem_nil, or_false] at h
  tauto

/-- A literal breaks a line only at a separator of its string. -/
theorem quoted_noBreak {text literal : List Char} (h : Escaped text literal)
    (htext : ∀ c ∈ text, isSeparator c = false) : ∀ c ∈ quoted literal, isLineBreak c = false := by
  intro c hc
  rcases mem_quoted hc with rfl | hc
  · decide
  · rw [isLineBreak_printable (h.printable c hc)]
    by_contra hsep
    have hsep : isSeparator c = true := by simpa using hsep
    rw [htext c ((h.mem_iff (isSeparator_beyond hsep)).mp hc)] at hsep
    cases hsep

theorem quoted_noReturn {text literal : List Char} (h : Escaped text literal) :
    ∀ c ∈ quoted literal, c ≠ '\r' := by
  rintro c hc rfl
  rcases mem_quoted hc with hc | hc
  · exact absurd hc (by decide)
  · exact absurd (h.printable _ hc) (by decide)

theorem punctuation_noBreak : ∀ token ∈ punctuation, ∀ c ∈ token, isLineBreak c = false := by
  have hall : ∀ token ∈ punctuation,
      token.all (fun c => decide (isLineBreak c = false)) = true := by
    decide
  exact fun token ht => forall_mem_of_all (hall token ht)

theorem keyTokens_noBreak : ∀ token ∈ keyTokens frame.choices frame.delta frame.key,
    ∀ c ∈ token, isLineBreak c = false := by
  intro token ht
  rcases mem_keyTokens ht with ht | ⟨literal, hl, rfl⟩
  · exact punctuation_noBreak token ht
  · obtain ⟨text, htext, hescaped⟩ := frame.key_escaped hl
    have hkeys : ∀ text ∈ ["choices", "delta", "content"],
        text.toList.all (fun c => decide (isSeparator c = false)) = true := by decide
    exact quoted_noBreak hescaped (forall_mem_of_all (hkeys text htext))

theorem keyTokens_closed : ∀ token ∈ keyTokens frame.choices frame.delta frame.key,
    scan .outside token = some .outside := by
  intro token ht
  rcases mem_keyTokens ht with ht | ⟨literal, hl, rfl⟩
  · have hp : ∀ token ∈ punctuation, scan .outside token = some .outside := by decide
    exact hp token ht
  · obtain ⟨_, _, hescaped⟩ := frame.key_escaped hl
    exact hescaped.quoted_scan

theorem noReturn : '\r' ∉ frame.json := by
  have hall : ∀ c ∈ frame.json, c ≠ '\r' := by
    refine frame.spaced.forall_mem (by decide) (by decide) fun token ht c hc => ?_
    rcases mem_deltaTokens ht with ht | rfl | ht
    · rintro rfl
      exact absurd (frame.keyTokens_noBreak token ht _ hc) (by decide)
    · exact quoted_noReturn frame.rawEscaped c hc
    · rintro rfl
      exact absurd (punctuation_noBreak token ht _ hc) (by decide)
  exact fun h => hall _ h rfl

/-- Without a separator in the content, the line is one line. -/
theorem noBreak (h : ∀ c ∈ frame.content.toList, isSeparator c = false) :
    ∀ c ∈ frame.json, isLineBreak c = false := by
  refine frame.spaced.forall_mem (by decide) (by decide) fun token ht => ?_
  rcases mem_deltaTokens ht with ht | rfl | ht
  · exact frame.keyTokens_noBreak token ht
  · exact quoted_noBreak frame.rawEscaped h
  · exact punctuation_noBreak token ht

end DeltaLine

/-! ## A delta that is cut -/

/-- A line that the scanner rejects, or that has no quote. -/
def Torn (line : List Char) : Prop := scan .outside line ≠ some .outside ∨ '"' ∉ line

section Cut
variable {cs raw behind : List Char}

theorem escape_noBreak {c : Char} {e : List Char} (h : Escape c e) :
    ∀ x ∈ '\\' :: e, isLineBreak x = false := by
  refine List.forall_mem_cons.mpr ⟨by decide, fun x hx => ?_⟩
  obtain ⟨hprint, hascii⟩ := h.ascii x hx
  rw [isLineBreak_printable hprint]
  by_contra hsep
  have hbeyond := isSeparator_beyond (by simpa using hsep)
  omega

/-- The end of a literal, with what stands behind it on the line. -/
theorem splitLinesFrom_end (hbehind : ∀ c ∈ behind, isLineBreak c = false) (line : List Char) :
    splitLinesFrom line ('"' :: (behind ++ ['\n'])) = [line.reverse ++ '"' :: behind] := by
  have hall : ∀ c ∈ '"' :: behind, isLineBreak c = false :=
    List.forall_mem_cons.mpr ⟨by decide, hbehind⟩
  rw [← List.cons_append, splitLinesFrom_append hall, splitLinesFrom_newline]
  simp [splitLinesFrom]

/-- Behind a cut the scanner starts outside, where the literal is inside: each
piece has a backslash out there, or nothing special up to the closing quote. -/
theorem torn_behind (h : Escaped cs raw) (hbehind : ∀ c ∈ behind, isLineBreak c = false)
    (hplain : ∀ c ∈ behind, isPlain c = true) : ∀ {line : List Char},
    (scan .outside line.reverse = none ∨ ∀ c ∈ line, isPlain c = true) →
    ∀ l ∈ splitLinesFrom line (raw ++ '"' :: (behind ++ ['\n'])), Torn l := by
  induction h with
  | nil =>
    intro line hline l hl
    rw [List.nil_append, splitLinesFrom_end hbehind, List.mem_singleton] at hl
    subst hl
    refine Or.inl ?_
    rw [scan_append]
    rcases hline with hnone | hline
    · simp [hnone]
    · have hinside : scan .outside ('"' :: behind) = some .inside :=
        scan_plain (show Mode.inside ≠ .escaped by decide) hplain
      rw [scan_plain (by decide) fun c hc => hline c (List.mem_reverse.mp hc), Option.bind_some,
        hinside]
      decide
  | plain hprint hc _ ih =>
    rename_i c cs raw _
    intro line hline l hl
    rw [List.cons_append, splitLinesFrom_cons (printable_ne_return hprint)] at hl
    split at hl
    · rcases List.mem_cons.mp hl with rfl | hl
      · rcases hline with hnone | hline
        · exact Or.inl (by simp [hnone])
        · refine Or.inr fun hquote => ?_
          exact (isPlain_iff.mp (hline _ (List.mem_reverse.mp hquote))).1 rfl
      · exact ih (Or.inr (by simp)) l hl
    · refine ih ?_ l hl
      rcases hline with hnone | hline
      · exact Or.inl (by simp [scan_append, hnone])
      · exact Or.inr (List.forall_mem_cons.mpr ⟨hc, hline⟩)
  | escape he _ ih =>
    rename_i c e cs raw _
    intro line hline l hl
    rw [← List.cons_append, List.append_assoc, splitLinesFrom_append (escape_noBreak he)] at hl
    refine ih (Or.inl ?_) l hl
    rw [List.reverse_append, List.reverse_reverse, scan_append]
    rcases hline with hnone | hline
    · simp [hnone]
    · rw [scan_plain (by decide) fun c hc => hline c (List.mem_reverse.mp hc)]
      rfl

/-- Up to the first cut the scanner stays inside of the literal. -/
theorem torn_literal (h : Escaped cs raw) (hbehind : ∀ c ∈ behind, isLineBreak c = false)
    (hplain : ∀ c ∈ behind, isPlain c = true) (hsep : ∃ c ∈ cs, isSeparator c = true) :
    ∀ {line : List Char}, scan .outside line.reverse = some .inside →
    ∀ l ∈ splitLinesFrom line (raw ++ '"' :: (behind ++ ['\n'])), Torn l := by
  induction h with
  | nil => simp at hsep
  | plain hprint hc hrest ih =>
    rename_i c cs raw
    intro line hline l hl
    rw [List.cons_append, splitLinesFrom_cons (printable_ne_return hprint)] at hl
    split at hl
    · rcases List.mem_cons.mp hl with rfl | hl
      · exact Or.inl (by rw [hline]; decide)
      · exact torn_behind hrest hbehind hplain (Or.inr (by simp)) l hl
    · rename_i hbreak
      rw [isLineBreak_printable hprint] at hbreak
      refine ih ?_ ?_ l hl
      · obtain ⟨x, hx, hxsep⟩ := hsep
        rcases List.mem_cons.mp hx with rfl | hx
        · exact absurd hxsep hbreak
        · exact ⟨x, hx, hxsep⟩
      · rw [List.reverse_cons, scan_append, hline, Option.bind_some]
        exact scan_plain (show Mode.inside ≠ .escaped by decide) (by simpa using hc)
  | escape he hrest ih =>
    rename_i c e cs raw
    intro line hline l hl
    rw [← List.cons_append, List.append_assoc, splitLinesFrom_append (escape_noBreak he)] at hl
    refine ih ?_ ?_ l hl
    · obtain ⟨x, hx, hxsep⟩ := hsep
      rcases List.mem_cons.mp hx with rfl | hx
      · exact absurd (isSeparator_beyond hxsep) (by have := he.lt; omega)
      · exact ⟨x, hx, hxsep⟩
    · rw [List.reverse_append, List.reverse_reverse, scan_append, hline, Option.bind_some]
      exact he.scan

end Cut

/-! ## The chunks of a stream -/

/-- The chunk of a line, if it carries one. -/
def lineChunk (reader : Reader) (line : List Char) : Option Json :=
  (payload? line).bind fun payload => (reader.loads (String.ofList payload)).toOption

theorem isSpace_plain (c : Char) (h : isSpace c = true) : isPlain c = true := by
  rw [isPlain_iff]
  constructor <;> rintro rfl <;> cases h

/-- Stripping takes whitespace only. -/
theorem strip_spec (text : List Char) : ∃ before after, text = before ++ (strip text ++ after) ∧
    (∀ c ∈ before, isPlain c = true) ∧ ∀ c ∈ after, isPlain c = true := by
  have hplain : ∀ text : List Char, ∀ c ∈ text.takeWhile isSpace, isPlain c = true :=
    fun text c hc => isSpace_plain c (List.all_eq_true.mp List.all_takeWhile c hc)
  refine ⟨text.takeWhile isSpace, ((lstrip text).reverse.takeWhile isSpace).reverse, ?_,
    hplain text, fun c hc => hplain _ c (List.mem_reverse.mp hc)⟩
  have hback : (lstrip text).reverse.takeWhile isSpace ++ lstrip (lstrip text).reverse =
      (lstrip text).reverse := List.takeWhile_append_dropWhile
  have hfront : text.takeWhile isSpace ++ lstrip text = text := List.takeWhile_append_dropWhile
  rw [strip, ← List.reverse_append, hback, List.reverse_reverse, hfront]

/-- A torn line carries no dictionary with a member. -/
theorem Torn.chunk {reader : Reader} (hreader : reader.loads = loads) {line : List Char}
    (h : Torn line) {value : Json} (hv : lineChunk reader line = some value) :
    ∀ member members, value ≠ .obj (member :: members) := by
  rintro member members rfl
  obtain ⟨payload, hpayload, hloads⟩ := Option.bind_eq_some_iff.mp hv
  have hloads : loads (String.ofList payload) = .ok (.obj (member :: members)) := by
    rw [hreader] at hloads
    cases hl : loads (String.ofList payload) with
    | error e => rw [hl] at hloads; cases hloads
    | ok v => rw [hl] at hloads; cases hloads; rfl
  have hquote := loads_obj hloads
  have hclosed := loads_closed hloads
  rw [String.toList_ofList] at hquote hclosed
  unfold payload? at hpayload
  split at hpayload
  · rename_i hprefix
    rw [dataPrefix_eq] at hprefix hpayload
    obtain ⟨rest, rfl⟩ := List.isPrefixOf_iff_prefix.mp hprefix
    dsimp only at hpayload
    split at hpayload
    · cases hpayload
    · cases hpayload
      rw [List.drop_left] at hquote hclosed
      obtain ⟨before, after, hrest, hbefore, hafter⟩ := strip_spec rest
      have hdata : ∀ c ∈ dataPrefix, isPlain c = true := forall_mem_of_all (by decide)
      rcases h with h | h
      · refine h ?_
        rw [hrest, scan_append, scan_plain (by decide) hdata, Option.bind_some, scan_append,
          scan_plain (by decide) hbefore, Option.bind_some, scan_append, hclosed,
          Option.bind_some, scan_plain (by decide) hafter]
      · refine h (List.mem_append_right _ ?_)
        rw [hrest]
        exact List.mem_append_right _ (List.mem_append_left _ hquote)
  · cases hpayload

/-- The lines of a frame up to its first line feed. -/
def DeltaLine.lines (frame : DeltaLine) : List (List Char) :=
  splitLinesFrom [] (dataPrefix ++ ' ' :: frame.json ++ ['\n'])

theorem lineChunk_of_payload {reader : Reader} {line : List Char} (h : payload? line = none) :
    lineChunk reader line = none := by
  rw [lineChunk, h]
  rfl

/-- The chunks of the frames, one after the other. -/
theorem chunks_streamText (reader : Reader) (frames : List DeltaLine) :
    chunks reader (streamText frames) =
      frames.flatMap fun frame => frame.lines.filterMap (lineChunk reader) := by
  have hchunks : ∀ text, chunks reader text = (splitLines text).filterMap (lineChunk reader) :=
    fun _ => rfl
  have hempty : lineChunk reader [] = none := lineChunk_of_payload (by decide)
  rw [hchunks]
  induction frames with
  | nil =>
    have hlines : splitLines (streamText []) = ["data: [DONE]".toList, []] := by decide
    rw [hlines, List.filterMap_cons, lineChunk_of_payload (by decide)]
    simp [hempty]
  | cons frame rest ih =>
    have htext : streamText (frame :: rest) =
        (dataPrefix ++ ' ' :: frame.json) ++ '\n' :: ('\n' :: streamText rest) := by
      simp [streamText]
    have hreturn : '\r' ∉ dataPrefix ++ ' ' :: frame.json := by
      simp [dataPrefix, frame.noReturn]
    have hlines : splitLines (streamText (frame :: rest)) =
        frame.lines ++ [] :: splitLines (streamText rest) := by
      rw [splitLines, htext, splitLinesFrom_feed hreturn, splitLinesFrom_newline]
      rfl
    rw [hlines, List.filterMap_append, List.filterMap_cons, hempty, List.flatMap_cons, ← ih]

namespace DeltaLine
variable (frame : DeltaLine)

/-- A frame of one line is read as its delta. -/
theorem chunk_of_line {reader : Reader} (hreader : reader.loads = Core.loads)
    (h : ∀ c ∈ frame.content.toList, isSeparator c = false) :
    frame.lines.filterMap (lineChunk reader) = [deltaChunk frame.content] := by
  have hline : frame.lines = [dataPrefix ++ ' ' :: frame.json] := by
    have hbreak : ∀ c ∈ dataPrefix ++ ' ' :: frame.json, isLineBreak c = false := by
      rw [List.forall_mem_append, List.forall_mem_cons]
      exact ⟨forall_mem_of_all (by decide), by decide, frame.noBreak h⟩
    rw [lines, splitLinesFrom_append hbreak, splitLinesFrom_newline]
    simp [splitLinesFrom]
  have hspaced : Spaced (deltaTokens frame.choices frame.delta frame.key frame.raw)
      (strip (' ' :: frame.json)) := by
    refine @Spaced.strip '{' '}' [] [] _ _ frame.spaced.space ⟨_, rfl⟩ ?_ (by decide) (by decide)
    simp [deltaTokens, memberTokens]
  have hpayload : payload? (dataPrefix ++ ' ' :: frame.json) =
      some (strip (' ' :: frame.json)) := by
    have hprefix : dataPrefix.isPrefixOf (dataPrefix ++ ' ' :: frame.json) = true :=
      List.isPrefixOf_iff_prefix.mpr (List.prefix_append ..)
    have hlong : 10 ≤ (strip (' ' :: frame.json)).length := by
      have hlen := hspaced.length_le
      simp only [deltaTokens, memberTokens, elementTokens, quoted, List.map_cons, List.map_append,
        List.sum_cons, List.sum_append, List.length_cons, List.length_append] at hlen
      omega
    have hnonempty : (strip (' ' :: frame.json)).isEmpty = false := by
      rw [List.isEmpty_eq_false_iff]
      exact List.ne_nil_of_length_pos (by omega)
    have hdone : (strip (' ' :: frame.json) == "[DONE]".toList) = false := by
      rw [beq_eq_false_iff_ne]
      intro he
      rw [he] at hlong
      exact absurd hlong (by decide)
    rw [payload?, dataPrefix_eq, if_pos hprefix, List.drop_left]
    dsimp only
    rw [hnonempty, hdone]
    rfl
  rw [hline, List.filterMap_cons, lineChunk, hpayload, Option.bind_some, hreader,
    frame.loads hspaced]
  rfl

/-- A frame of several lines carries no delta. -/
theorem torn_lines (h : ∃ c ∈ frame.content.toList, isSeparator c = true) :
    ∀ l ∈ frame.lines, Torn l := by
  obtain ⟨before, after, hjson, hbefore, hafter⟩ :=
    Spaced.split (deltaTokens_eq .. ▸ frame.spaced)
  cases hafter with
  | token hgap hbehind =>
    rename_i gap behind
    have hgapPlain : ∀ c ∈ gap, isLineBreak c = false ∧ isPlain c = true := by
      intro c hc
      rcases hgap c hc with rfl | rfl <;> decide
    have hclosing : ∀ token ∈ closingTokens,
        token.all (fun c => decide (isLineBreak c = false ∧ isPlain c = true)) = true := by decide
    have hbehindPlain : ∀ c ∈ behind, isLineBreak c = false ∧ isPlain c = true :=
      hbehind.forall_mem (by decide) (by decide) fun token ht =>
        forall_mem_of_all (hclosing token ht)
    -- where the content begins, no line has ended and the scanner is inside of a literal
    have hfront : ∀ c ∈ dataPrefix ++ ' ' :: (before ++ (gap ++ ['"'])), isLineBreak c = false := by
      simp only [List.forall_mem_append, List.forall_mem_cons]
      exact ⟨forall_mem_of_all (by decide), by decide,
        hbefore.forall_mem (by decide) (by decide) frame.keyTokens_noBreak,
        fun c hc => (hgapPlain c hc).1, by decide, by simp⟩
    have hinside : scan .outside (dataPrefix ++ ' ' :: (before ++ (gap ++ ['"']))) =
        some .inside := by
      change scan .outside (before ++ (gap ++ ['"'])) = some .inside
      rw [scan_append, hbefore.scan frame.keyTokens_closed, Option.bind_some, scan_append,
        scan_plain (by decide) fun c hc => (hgapPlain c hc).2]
      rfl
    have hlines : frame.lines = splitLinesFrom
        (dataPrefix ++ ' ' :: (before ++ (gap ++ ['"']))).reverse
        (frame.raw ++ '"' :: (behind ++ ['\n'])) := by
      have hsplit : dataPrefix ++ ' ' :: frame.json ++ ['\n'] =
          (dataPrefix ++ ' ' :: (before ++ (gap ++ ['"']))) ++
            (frame.raw ++ '"' :: (behind ++ ['\n'])) := by
        simp [hjson, quoted]
      rw [lines, hsplit, splitLinesFrom_append hfront, List.append_nil]
    rw [hlines]
    exact torn_literal frame.rawEscaped (fun c hc => (hbehindPlain c hc).1)
      (fun c hc => (hbehindPlain c hc).2) h (by rw [List.reverse_reverse, hinside])

end DeltaLine

/-! ## The content of a stream -/

def utf8Codec : Codec where
  decode := fun bytes => match bytes.toByteArray.utf8Decode? with
    | some chars => .ok (String.ofList chars.toList)
    | none => .error (.valueError "invalid utf-8")
  decodeReplace := decodeUtf8

/-- Whether the content goes through in one piece. -/
def DeltaLine.whole (frame : DeltaLine) : Bool :=
  frame.content.toList.all fun c => !isSeparator c

theorem DeltaLine.whole_iff {frame : DeltaLine} :
    frame.whole = true ↔ ∀ c ∈ frame.content.toList, isSeparator c = false := by
  simp [DeltaLine.whole]

theorem joinParts_strings (texts : List String) (i : ℕ) :
    joinParts i (texts.map Json.str) = .ok (texts.foldr (· ++ ·) "") := by
  induction texts generalizing i with
  | nil => rfl
  | cons text rest ih =>
    rw [List.map_cons, joinParts, ih]
    rfl

theorem foldr_nonempty (texts : List String) :
    (texts.filter (· ≠ "")).foldr (· ++ ·) "" = texts.foldr (· ++ ·) "" := by
  induction texts with
  | nil => rfl
  | cons text rest ih =>
    by_cases h : text = ""
    · subst h
      simpa using ih
    · rw [List.filter_cons_of_pos (by simpa using h), List.foldr_cons, List.foldr_cons, ih]

theorem deltas_append (xs ys : List Json) : deltas (xs ++ ys) = deltas xs ++ deltas ys := by
  simp [deltas]

theorem deltas_nil_of_empty {chunks : List Json}
    (h : ∀ chunk ∈ chunks, ∀ member members, chunk ≠ .obj (member :: members)) :
    deltas chunks = [] := by
  have hnone : chunks.filterMap (contentAt "delta") = [] := by
    refine List.filterMap_eq_nil_iff.mpr fun chunk hc => ?_
    cases chunk with
    | obj entries => cases entries with
      | nil => rfl
      | cons member members => exact absurd rfl (h _ hc member members)
    | _ => rfl
  rw [deltas, hnone, List.filter_nil]

theorem deltas_deltaChunk (content : String) :
    deltas [deltaChunk content] = ([content].filter (· ≠ "")).map Json.str := by
  by_cases h : content = ""
  · subst h
    rfl
  · have ht : (Json.str content).truthy = true := by simpa [Json.truthy] using h
    have hat : contentAt "delta" (deltaChunk content) = some (.str content) := rfl
    simp [deltas, hat, ht, h]

section Stream
variable {reader : Reader}

/-- The deltas of a stream are the contents that go through. -/
theorem deltas_stream (hreader : reader.loads = loads) (frames : List DeltaLine) :
    deltas (chunks reader (streamText frames)) =
      (((frames.filter DeltaLine.whole).map DeltaLine.content).filter (· ≠ "")).map Json.str := by
  rw [chunks_streamText]
  induction frames with
  | nil => rfl
  | cons frame rest ih =>
    rw [List.flatMap_cons, deltas_append, ih]
    by_cases hw : frame.whole = true
    · rw [frame.chunk_of_line hreader (DeltaLine.whole_iff.mp hw), List.filter_cons_of_pos hw,
        deltas_deltaChunk, List.map_cons, ← List.map_append, ← List.filter_append]
      rfl
    · have hsep : ∃ c ∈ frame.content.toList, isSeparator c = true := by
        by_contra hno
        refine hw (DeltaLine.whole_iff.mpr fun c hc => ?_)
        by_contra hc'
        exact hno ⟨c, hc, by simpa using hc'⟩
      rw [List.filter_cons_of_neg hw, deltas_nil_of_empty, List.nil_append]
      intro chunk hchunk
      obtain ⟨line, hline, hc⟩ := List.mem_filterMap.mp hchunk
      exact (frame.torn_lines hsep line hline).chunk hreader hc

/-- A stream is read as the contents that go through, or not at all. -/
theorem streamContent_stream (hreader : reader.loads = loads) (frames : List DeltaLine) :
    streamContent (chunks reader (streamText frames)) =
        .ok (joined ((frames.filter DeltaLine.whole).map DeltaLine.content)) ∨
      ∃ e, streamContent (chunks reader (streamText frames)) = .error e := by
  rw [streamContent]
  rcases deltaParts_cases (chunks reader (streamText frames)) with ⟨_, hparts⟩ | ⟨_, e, hparts⟩
  · rw [hparts, deltas_stream hreader, ok_bind, joinParts_strings, foldr_nonempty]
    exact Or.inl rfl
  · exact Or.inr ⟨e, by rw [hparts]; rfl⟩

/-- Contents that all go through are read, one after the other. -/
theorem streamContent_whole (hreader : reader.loads = loads) {frames : List DeltaLine}
    (h : ∀ frame ∈ frames, frame.whole = true) :
    streamContent (chunks reader (streamText frames)) =
      .ok (joined (frames.map DeltaLine.content)) := by
  rcases streamContent_stream hreader frames with hok | ⟨e, herror⟩
  · rwa [List.filter_eq_self.mpr h] at hok
  · have hread : ∀ chunk ∈ chunks reader (streamText frames),
        shaped "delta" chunk = true ∧ textual (contentAt "delta" chunk) = true := by
      intro chunk hc
      rw [chunks_streamText] at hc
      obtain ⟨frame, hf, hc⟩ := List.mem_flatMap.mp hc
      rw [frame.chunk_of_line hreader (DeltaLine.whole_iff.mp (h frame hf)),
        List.mem_singleton] at hc
      subst hc
      exact ⟨rfl, rfl⟩
    obtain ⟨content, hok⟩ := (streamContent_ok_iff _).mpr hread
    rw [herror] at hok
    cases hok

end Stream

theorem foldr_toList (texts : List String) :
    (texts.foldr (· ++ ·) "").toList = texts.flatMap String.toList := by
  induction texts with
  | nil => rfl
  | cons text rest ih => rw [List.foldr_cons, String.toList_append, ih, List.flatMap_cons]

theorem joined_inj {xs ys : List String} (h : joined xs = joined ys) :
    xs.flatMap String.toList = ys.flatMap String.toList := by
  rw [← foldr_toList, ← foldr_toList]
  unfold joined at h
  dsimp only at h
  split at h
  · split at h
    · simp [*]
    · cases h
  · split at h
    · cases h
    · exact congrArg String.toList (Json.str.inj h)

/-- A content that does not go through is missing in the text. -/
theorem joined_ne {frames : List DeltaLine} {frame : DeltaLine} (hf : frame ∈ frames)
    (hw : frame.whole = false) :
    joined ((frames.filter DeltaLine.whole).map DeltaLine.content) ≠
      joined (frames.map DeltaLine.content) := by
  intro h
  have hlen := congrArg List.length (joined_inj h)
  have hle : ∀ frames : List DeltaLine,
      (((frames.filter DeltaLine.whole).map DeltaLine.content).flatMap String.toList).length ≤
        ((frames.map DeltaLine.content).flatMap String.toList).length := fun frames =>
    ((List.filter_sublist.map _).flatMap _).length_le
  obtain ⟨before, after, rfl⟩ := List.append_of_mem hf
  have hpos : 0 < frame.content.toList.length := by
    refine List.length_pos_of_ne_nil fun hnil => ?_
    rw [DeltaLine.whole, hnil] at hw
    cases hw
  have h₁ := hle before
  have h₂ := hle after
  rw [List.filter_append, List.filter_cons_of_neg (by simp [hw])] at hlen
  simp only [List.map_append, List.map_cons, List.flatMap_append, List.flatMap_cons,
    List.length_append] at hlen
  omega

/-! ## The captured stream -/

theorem encodeUtf8_cons_ne_nil (c : Char) (text : List Char) : encodeUtf8 (c :: text) ≠ [] := by
  intro h
  have hlen := congrArg List.length h
  simp only [encodeUtf8, List.flatMap_cons, List.length_append, String.length_utf8EncodeChar,
    List.length_nil] at hlen
  have hpos := c.utf8Size_pos
  omega

theorem streamText_prefix (frames : List DeltaLine) :
    ∃ rest, streamText frames = dataPrefix ++ rest := by
  cases frames with
  | nil => exact ⟨" [DONE]\n\n".toList, by decide⟩
  | cons frame rest =>
    exact ⟨_, by rw [streamText, List.flatMap_cons, List.append_assoc, List.append_assoc]⟩

/-- The parser takes a stream for one. -/
theorem parseResponse_stream (reader : Reader) (frames : List DeltaLine) :
    parseResponse utf8Codec reader (encodeUtf8 (streamText frames)) =
      streamContent (chunks reader (streamText frames)) := by
  have hdecode : utf8Codec.decodeReplace (encodeUtf8 (streamText frames)) =
      String.ofList (streamText frames) := decodeUtf8_encodeUtf8 _
  obtain ⟨rest, hrest⟩ := streamText_prefix frames
  have hnonempty : (encodeUtf8 (streamText frames)).isEmpty = false := by
    rw [List.isEmpty_eq_false_iff, hrest]
    exact encodeUtf8_cons_ne_nil _ _
  have hstream : isStream (String.ofList (streamText frames)) = true := by
    rw [hrest, isStream, dataPrefix_eq, String.toList_ofList]
    rfl
  rw [parseResponse, hnonempty, if_neg (by decide)]
  dsimp only
  rw [hdecode, if_pos hstream, String.toList_ofList]

/-- **A captured stream is read back exactly if** no content has a next line, a
line separator or a paragraph separator, however it was split into messages. -/
theorem stream_content_iff (reader : Reader) (trace : RequestTrace) (frames : List DeltaLine)
    (ops : List Op) (hsent : (sentBodies ops).flatten = encodeUtf8 (streamText frames))
    (hlimit : size (sentBodies ops) ≤ contentLimit) :
    parseResponse utf8Codec { reader with loads := loads }
        (run (Exchange.step true) { trace := trace } ops).responseChunks.flatten =
      .ok (joined (frames.map DeltaLine.content)) ↔
    ∀ frame ∈ frames, ∀ c ∈ frame.content.toList, isSeparator c = false := by
  have hcaptured : (run (Exchange.step true) { trace := trace } ops).responseChunks =
      sentBodies ops := by
    rw [run_responseChunks, foldl_keep_fits _ (by simpa using hlimit), List.nil_append]
  rw [hcaptured, hsent, parseResponse_stream]
  constructor
  · intro h frame hf
    rw [← DeltaLine.whole_iff]
    by_contra hw
    rcases @streamContent_stream { reader with loads := loads } rfl frames with
      hok | ⟨e, herror⟩
    · rw [h] at hok
      exact joined_ne hf (by simpa using hw) (Except.ok.inj hok).symm
    · rw [h] at herror
      cases herror
  · intro h
    exact streamContent_whole rfl fun frame hf => DeltaLine.whole_iff.mpr (h frame hf)

/-! ### A stream of two deltas -/

/-- Characters that stand for themselves. -/
theorem escaped_self : ∀ {text : List Char},
    (∀ c ∈ text, 0x20 ≤ c.toNat ∧ isPlain c = true) → Escaped text text
  | [], _ => .nil
  | _ :: _, h =>
    have hc := List.forall_mem_cons.mp h
    .plain hc.1.1 hc.1.2 (escaped_self hc.2)

/-- Tokens without blanks. -/
theorem spaced_flatten : ∀ tokens : List (List Char), Spaced tokens tokens.flatten
  | [] => .done (by simp [Gap])
  | token :: rest => @Spaced.token [] token _ rest (by simp [Gap]) (spaced_flatten rest)

/-- The line a server writes for a content without anything to escape. -/
def plainLine (content : String)
    (h : ∀ c ∈ content.toList, 0x20 ≤ c.toNat ∧ isPlain c = true) : DeltaLine where
  content := content
  choices := "choices".toList
  delta := "delta".toList
  key := "content".toList
  raw := content.toList
  json := (deltaTokens "choices".toList "delta".toList "content".toList content.toList).flatten
  choicesEscaped := escaped_self (forall_mem_of_all (by decide))
  deltaEscaped := escaped_self (forall_mem_of_all (by decide))
  keyEscaped := escaped_self (forall_mem_of_all (by decide))
  rawEscaped := escaped_self h
  spaced := spaced_flatten _

/-- A response sent in two messages, cut at the given byte. -/
def sentInTwo (body : Bytes) (n : ℕ) : List Op := [
  .send (.body (some (body.take n)) (some true)) 1 1,
  .send (.body (some (body.drop n)) none) 1 1]

theorem sentInTwo_spec {body : Bytes} {n : ℕ} (h : 0 < n ∧ n < body.length) :
    (sentBodies (sentInTwo body n)).flatten = body ∧
      size (sentBodies (sentInTwo body n)) = body.length := by
  have hfirst : body.take n ≠ [] := List.ne_nil_of_length_pos (by rw [List.length_take]; omega)
  have hsecond : body.drop n ≠ [] := List.ne_nil_of_length_pos (by rw [List.length_drop]; omega)
  have hbodies : sentBodies (sentInTwo body n) = [body.take n, body.drop n] := by
    simp [sentBodies_eq, sentInTwo, sentBody, hfirst, hsecond]
  rw [hbodies, ← length_flatten]
  simp

def greeting : List DeltaLine :=
  [plainLine "Hé" (forall_mem_of_all (by decide)), plainLine "llo" (forall_mem_of_all (by decide))]

theorem stream_content_iff_greeting :
    parseResponse utf8Codec { capturing.reader with loads := loads }
        (run (Exchange.step true) { trace := Config.newTrace chatScope readings }
          (sentInTwo (encodeUtf8 (streamText greeting)) 44)).responseChunks.flatten =
      .ok (joined ["Hé", "llo"]) ↔
    ∀ frame ∈ greeting, ∀ c ∈ frame.content.toList, isSeparator c = false := by
  have hspec := sentInTwo_spec
    (show 0 < 44 ∧ 44 < (encodeUtf8 (streamText greeting)).length by decide +kernel)
  exact stream_content_iff capturing.reader (Config.newTrace chatScope readings) greeting
    (sentInTwo (encodeUtf8 (streamText greeting)) 44) hspec.1 (hspec.2 ▸ by decide +kernel)

/-- A content with a line separator. -/
def separated : List DeltaLine := [plainLine "a\u2028b" (forall_mem_of_all (by decide))]

def readsNothing : Except PyError Json → Bool
  | .ok .null => true
  | _ => false

/-- The delta with the separator is lost. -/
theorem separator_loses_delta :
    parseResponse utf8Codec { capturing.reader with loads := loads }
        (run (Exchange.step true) { trace := Config.newTrace chatScope readings }
          (sentInTwo (encodeUtf8 (streamText separated)) 44)).responseChunks.flatten =
      .ok .null ∧
    joined (separated.map DeltaLine.content) = .str "a\u2028b" := by
  have hnothing : readsNothing (parseResponse utf8Codec { capturing.reader with loads := loads }
      (run (Exchange.step true) { trace := Config.newTrace chatScope readings }
        (sentInTwo (encodeUtf8 (streamText separated)) 44)).responseChunks.flatten) = true := by
    decide +kernel
  refine ⟨?_, by rfl⟩
  unfold readsNothing at hnothing
  split at hnothing
  · assumption
  · cases hnothing

end VllmObserver.Middleware
