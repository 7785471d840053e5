import VllmObserver.Core.JsonScan
import VllmObserver.Core.Text

/-! # Writing JSON text

`Escaped` are the literals of a string that leave characters beyond ASCII as they
are, and `Spaced` the tokens of a value on one line. Whatever is written so, the
readers read back. -/
namespace VllmObserver.Core
open VllmObserver.Lib

/-- What stands for a character behind a backslash. -/
inductive Escape (c : Char) : List Char → Prop
  | short {e : Char} (h : shortEscape? e = some c.toNat) : Escape c [e]
  | code {u v w x : Char} (h : hexCode? u v w x = some c.toNat) (hascii : c.toNat < 0x80) :
      Escape c ['u', u, v, w, x]

/-- The inside of a literal of the string. -/
inductive Escaped : List Char → List Char → Prop
  | nil : Escaped [] []
  | plain {c : Char} {cs raw : List Char} (hprint : 0x20 ≤ c.toNat) (hplain : isPlain c = true)
      (rest : Escaped cs raw) : Escaped (c :: cs) (c :: raw)
  | escape {c : Char} {e cs raw : List Char} (h : Escape c e) (rest : Escaped cs raw) :
      Escaped (c :: cs) ('\\' :: (e ++ raw))

/-! ## Literals -/

theorem readString_plain {c : Char} (hprint : 0x20 ≤ c.toNat) (hplain : isPlain c = true)
    (text : List Char) : readString (c :: text) =
      (readString text).bind fun read => some (c.toNat :: read.1, read.2) := by
  obtain ⟨hq, hb⟩ := isPlain_iff.mp hplain
  rw [readString, if_neg (by rintro (h | h); exacts [hb h, by omega])]
  · rfl
  · exact hq
  · exact fun _ _ _ _ _ h => absurd h hb
  · exact fun _ _ h => absurd h hb

theorem readString_escape {c : Char} {e : List Char} (h : Escape c e) (text : List Char) :
    readString ('\\' :: (e ++ text)) =
      (readString text).bind fun read => some (c.toNat :: read.1, read.2) := by
  cases h with
  | short h =>
    rename_i e
    rw [List.cons_append, List.nil_append, readString, h]
    · rfl
    · rintro _ _ _ _ _ rfl
      cases h
  | code h _ =>
    simp only [List.cons_append, List.nil_append]
    rw [readString, h]
    rfl

/-- A literal is read as the codes of its string. -/
theorem Escaped.readString {cs raw : List Char} (h : Escaped cs raw) (rest : List Char) :
    readString (raw ++ '"' :: rest) = some (cs.map Char.toNat, rest) := by
  induction h with
  | nil => rfl
  | plain hprint hplain _ ih =>
    rw [List.cons_append, readString_plain hprint hplain, ih]
    rfl
  | escape h _ ih =>
    rw [List.cons_append, List.append_assoc, readString_escape h, ih]
    rfl

theorem charOf_toNat (c : Char) : charOf c.toNat = c := by
  have hvalid : c.toNat.isValidChar := c.valid
  rw [charOf, if_pos hvalid, Char.ofNat_toNat]

/-- No character is a surrogate. -/
theorem joinCodes_toNat : ∀ cs : List Char, joinCodes (cs.map Char.toNat) = cs
  | [] => rfl
  | [c] => congrArg (fun d => [d]) (charOf_toNat c)
  | c :: d :: rest => by
    have ih := joinCodes_toNat (d :: rest)
    have hc : c.toNat < 0xd800 ∨ 0xdfff < c.toNat := by
      rcases c.valid with h | h
      · exact Or.inl h
      · exact Or.inr h.1
    rw [List.map_cons] at ih
    rw [List.map_cons, List.map_cons, joinCodes, if_neg (by omega), charOf_toNat, ih]

theorem literalText_toNat (text : String) : literalText (text.toList.map Char.toNat) = text := by
  rw [literalText, joinCodes_toNat, String.ofList_toList]

/-! ## The characters of a literal -/

theorem hexDigit?_ascii {c : Char} {n : ℕ} (h : hexDigit? c = some n) :
    0x20 ≤ c.toNat ∧ c.toNat < 0x80 := by
  unfold hexDigit? at h
  dsimp only at h
  split at h
  · omega
  · split at h
    · omega
    · split at h
      · omega
      · cases h

theorem shortEscape?_ascii {c : Char} {n : ℕ} (h : shortEscape? c = some n) :
    (0x20 ≤ c.toNat ∧ c.toNat < 0x80) ∧ n < 0x80 := by
  unfold shortEscape? at h
  split at h <;> cases h <;> decide

/-- Characters beyond ASCII are not escaped. -/
theorem Escape.lt {c : Char} {e : List Char} (h : Escape c e) : c.toNat < 0x80 := by
  cases h with
  | short h => exact (shortEscape?_ascii h).2
  | code _ hascii => exact hascii

/-- What follows a backslash is printable ASCII. -/
theorem Escape.ascii {c : Char} {e : List Char} (h : Escape c e) :
    ∀ x ∈ e, 0x20 ≤ x.toNat ∧ x.toNat < 0x80 := by
  cases h with
  | short h => exact List.forall_mem_singleton.mpr (shortEscape?_ascii h).1
  | code h _ =>
    refine List.forall_mem_cons.mpr ⟨by decide, fun x hx => ?_⟩
    obtain ⟨_, hm⟩ := hexCode?_digits h x hx
    exact hexDigit?_ascii hm

/-- The scanner skips an escape as a whole. -/
theorem Escape.scan {c : Char} {e : List Char} (h : Escape c e) :
    scan .inside ('\\' :: e) = some .inside := by
  cases h with
  | short _ => rfl
  | code h _ =>
    have hdigits := scan_plain (show Mode.inside ≠ .escaped by decide) (hexCode?_plain h)
    exact hdigits

theorem Escaped.scan {cs raw : List Char} (h : Escaped cs raw) :
    scan .inside raw = some .inside := by
  induction h with
  | nil => rfl
  | plain _ hplain _ ih =>
    obtain ⟨hq, hb⟩ := isPlain_iff.mp hplain
    rw [Core.scan, Mode.next, if_neg hq, if_neg hb]
    exact ih
  | escape h _ ih =>
    rw [← List.cons_append, scan_append, h.scan]
    exact ih

/-- Characters beyond ASCII stand in the literal as they are, and no others. -/
theorem Escaped.mem_iff {cs raw : List Char} (h : Escaped cs raw) {x : Char}
    (hx : 0x80 ≤ x.toNat) : x ∈ raw ↔ x ∈ cs := by
  induction h with
  | nil => rfl
  | plain _ _ _ ih => rw [List.mem_cons, List.mem_cons, ih]
  | escape h _ ih =>
    rename_i c e cs raw _
    have hc : x ≠ c := by
      rintro rfl
      exact absurd h.lt (by omega)
    have he : x ∉ e := fun hmem => absurd (h.ascii x hmem).2 (by omega)
    have hslash : x ≠ '\\' := by rintro rfl; revert hx; decide
    simp [hc, he, hslash, ih]

theorem Escaped.printable {cs raw : List Char} (h : Escaped cs raw) :
    ∀ x ∈ raw, 0x20 ≤ x.toNat := by
  induction h with
  | nil => simp
  | plain hprint _ _ ih => exact List.forall_mem_cons.mpr ⟨hprint, ih⟩
  | escape h _ ih =>
    refine List.forall_mem_cons.mpr ⟨by decide, fun x hx => ?_⟩
    rcases List.mem_append.mp hx with hx | hx
    · exact (h.ascii x hx).1
    · exact ih x hx

/-! ## Tokens on one line -/

/-- The blanks of a single line. -/
def Gap (text : List Char) : Prop := ∀ c ∈ text, c = ' ' ∨ c = '\t'

/-- The tokens, with gaps before, between and behind them. -/
inductive Spaced : List (List Char) → List Char → Prop
  | done {gap : List Char} (h : Gap gap) : Spaced [] gap
  | token {gap token text : List Char} {tokens : List (List Char)} (h : Gap gap)
      (rest : Spaced tokens text) : Spaced (token :: tokens) (gap ++ (token ++ text))

/-- A literal with its quotes. -/
def quoted (raw : List Char) : List Char := '"' :: (raw ++ ['"'])

/-- A dictionary with one member. -/
def memberTokens (key : List Char) (value : List (List Char)) : List (List Char) :=
  ['{'] :: quoted key :: [':'] :: (value ++ [['}']])

/-- A list with one element. -/
def elementTokens (value : List (List Char)) : List (List Char) := ['['] :: (value ++ [[']']])

theorem Gap.skip {gap : List Char} (h : Gap gap) (c : Char) (text : List Char)
    (hc : isBlank c = false) : skipBlanks (gap ++ c :: text) = c :: text := by
  have hgap : ∀ x ∈ gap, isBlank x = true := by
    intro x hx
    rcases h x hx with rfl | rfl <;> decide
  rw [skipBlanks, List.dropWhile_append_of_pos hgap, List.dropWhile_cons_of_neg (by simp [hc])]

theorem Gap.skip_all {gap : List Char} (h : Gap gap) : skipBlanks gap = [] := by
  have hgap : ∀ x ∈ gap, isBlank x = true := by
    intro x hx
    rcases h x hx with rfl | rfl <;> decide
  have hdrop := @List.dropWhile_append_of_pos _ isBlank gap [] hgap
  rwa [List.append_nil] at hdrop

/-- The first token, with its blanks skipped. -/
theorem Spaced.first {c : Char} {token text : List Char} {tokens : List (List Char)}
    (h : Spaced ((c :: token) :: tokens) text) (hc : isBlank c = false) :
    ∃ rest, skipBlanks text = c :: (token ++ rest) ∧ Spaced tokens rest := by
  cases h with
  | token hgap rest => exact ⟨_, hgap.skip c _ hc, rest⟩

/-- In so many rounds the tokens are read as the value, whatever follows. -/
def ReadAs (n : ℕ) (tokens : List (List Char)) (value : Json) : Prop :=
  ∀ {after : List (List Char)} {text : List Char}, Spaced (tokens ++ after) text →
    ∃ rest, readValue n (skipBlanks text) = some (value, rest) ∧ Spaced after rest

theorem readAs_string {n : ℕ} {text : String} {raw : List Char}
    (h : Escaped text.toList raw) : ReadAs (n + 1) [quoted raw] (.str text) := by
  intro after line hline
  obtain ⟨rest, hskip, hrest⟩ := hline.first (by decide)
  refine ⟨rest, ?_, hrest⟩
  rw [hskip, List.append_assoc, List.singleton_append, readValue, h.readString]
  simp [literalText_toNat]

/-- A dictionary with one member. -/
theorem readAs_member {n : ℕ} {key : String} {raw : List Char} {value : List (List Char)}
    {x : Json} (h : Escaped key.toList raw) (hx : ReadAs (n + 1) value x) :
    ReadAs (n + 2) (memberTokens raw value) (.obj [(key, x)]) := by
  intro after line hline
  obtain ⟨text₁, hbrace, h₁⟩ := hline.first (by decide)
  obtain ⟨text₂, hquote, h₂⟩ := h₁.first (by decide)
  obtain ⟨text₃, hcolon, h₃⟩ := h₂.first (by decide)
  rw [List.append_eq, List.append_assoc] at h₃
  obtain ⟨text₄, hvalue, h₄⟩ := hx h₃
  obtain ⟨text₅, hclose, h₅⟩ := h₄.first (by decide)
  refine ⟨text₅, ?_, h₅⟩
  have hmembers : readMembers (readValue (n + 1)) (n + 1) (skipBlanks text₁) =
      some ([(key, x)], text₅) := by
    rw [hquote, List.append_assoc, List.singleton_append, readMembers, h.readString]
    simp only [Option.bind_eq_bind, Option.bind_some, hcolon, List.nil_append, hvalue, hclose,
      literalText_toNat]
  rw [hbrace, List.nil_append, readValue]
  split
  · rename_i tail htail
    rw [hquote] at htail
    cases htail
  · rw [hmembers]
    rfl

theorem readValue_bracket (n : ℕ) (text : List Char) : readValue (n + 1) (']' :: text) = none := rfl

/-- A list with one element. -/
theorem readAs_element {n : ℕ} {value : List (List Char)} {x : Json}
    (hx : ReadAs (n + 1) value x) : ReadAs (n + 2) (elementTokens value) (.arr [x]) := by
  intro after line hline
  obtain ⟨text₁, hbracket, h₁⟩ := hline.first (by decide)
  rw [List.append_eq, List.append_assoc] at h₁
  obtain ⟨text₂, hvalue, h₂⟩ := hx h₁
  obtain ⟨text₃, hclose, h₃⟩ := h₂.first (by decide)
  refine ⟨text₃, ?_, h₃⟩
  have helements : readElements (readValue (n + 1)) (n + 1) (skipBlanks text₁) =
      some ([x], text₃) := by
    rw [readElements, hvalue]
    simp only [Option.bind_eq_bind, Option.bind_some, hclose, List.nil_append]
  rw [hbracket, List.nil_append, readValue]
  split
  · rename_i tail htail
    rw [htail, readValue_bracket] at hvalue
    cases hvalue
  · rw [helements]
    rfl

/-- A line of tokens that are read as a value. -/
theorem ReadAs.loads {tokens : List (List Char)} {value : Json} {line : List Char}
    (h : ReadAs (line.length + 1) tokens value) (hline : Spaced tokens line) :
    loads (String.ofList line) = .ok value := by
  obtain ⟨rest, hread, hrest⟩ :=
    h (show Spaced (tokens ++ []) line from (List.append_nil tokens).symm ▸ hline)
  have hgap : skipBlanks rest = [] := by
    cases hrest with
    | done hgap => exact hgap.skip_all
  rw [Core.loads, String.toList_ofList, hread]
  simp [hgap]

/-! ## What the scanner sees of the tokens -/

theorem Spaced.length_le {tokens : List (List Char)} {text : List Char}
    (h : Spaced tokens text) : (tokens.map List.length).sum ≤ text.length := by
  induction h with
  | done _ => exact Nat.zero_le _
  | token _ _ ih =>
    simp only [List.map_cons, List.sum_cons, List.length_append]
    omega

/-- The tokens before a cut, and those behind it. -/
theorem Spaced.split {xs ys : List (List Char)} {text : List Char}
    (h : Spaced (xs ++ ys) text) : ∃ before after, text = before ++ after ∧ Spaced xs before ∧
      Spaced ys after := by
  induction xs generalizing text with
  | nil => exact ⟨[], text, rfl, .done (by simp [Gap]), h⟩
  | cons x xs ih =>
    cases h with
    | token hgap rest =>
      obtain ⟨before, after, rfl, hbefore, hafter⟩ := ih rest
      exact ⟨_, after, by simp, .token hgap hbefore, hafter⟩

/-- A property of characters that the tokens and the blanks have. -/
theorem Spaced.forall_mem {p : Char → Prop} {tokens : List (List Char)} {text : List Char}
    (h : Spaced tokens text) (hspace : p ' ') (htab : p '\t')
    (htokens : ∀ token ∈ tokens, ∀ c ∈ token, p c) : ∀ c ∈ text, p c := by
  have hgaps : ∀ {gap : List Char}, Gap gap → ∀ c ∈ gap, p c := by
    intro gap hgap c hc
    rcases hgap c hc with rfl | rfl
    · exact hspace
    · exact htab
  induction h with
  | done hgap => exact hgaps hgap
  | token hgap _ ih =>
    rw [List.forall_mem_cons] at htokens
    simp only [List.forall_mem_append]
    exact ⟨hgaps hgap, htokens.1, ih htokens.2⟩

theorem Spaced.scan {tokens : List (List Char)} {text : List Char} (h : Spaced tokens text)
    (htokens : ∀ token ∈ tokens, scan .outside token = some .outside) :
    scan .outside text = some .outside := by
  have hgaps : ∀ {gap : List Char}, Gap gap → Core.scan .outside gap = some .outside := by
    intro gap hgap
    refine scan_plain (by decide) fun c hc => ?_
    rcases hgap c hc with rfl | rfl <;> decide
  induction h with
  | done hgap => exact hgaps hgap
  | token hgap _ ih =>
    rw [List.forall_mem_cons] at htokens
    rw [scan_append, hgaps hgap, Option.bind_some, scan_append, htokens.1, Option.bind_some]
    exact ih htokens.2

theorem Escaped.quoted_scan {cs raw : List Char} (h : Escaped cs raw) :
    Core.scan .outside (quoted raw) = some .outside := by
  change Core.scan .inside (raw ++ ['"']) = some .outside
  rw [scan_append, h.scan]
  rfl

/-! ## Stripping a line -/

theorem Spaced.space {tokens : List (List Char)} {text : List Char} (h : Spaced tokens text) :
    Spaced tokens (' ' :: text) := by
  have hgaps : ∀ {gap : List Char}, Gap gap → Gap (' ' :: gap) := fun hgap =>
    List.forall_mem_cons.mpr ⟨Or.inl rfl, hgap⟩
  cases h with
  | done hgap => exact .done (hgaps hgap)
  | token hgap rest => exact .token (hgaps hgap) rest

theorem Spaced.snoc {tokens : List (List Char)} {text token gap : List Char}
    (h : Spaced tokens text) (hgap : Gap gap) :
    Spaced (tokens ++ [token]) (text ++ (token ++ gap)) := by
  induction h with
  | done h => exact .token h (.done hgap)
  | token h _ ih =>
    rw [List.append_assoc, List.append_assoc]
    exact .token h ih

theorem Spaced.reverse {tokens : List (List Char)} {text : List Char} (h : Spaced tokens text) :
    Spaced (tokens.map List.reverse).reverse text.reverse := by
  have hgaps : ∀ {gap : List Char}, Gap gap → Gap gap.reverse := fun hgap c hc =>
    hgap c (List.mem_reverse.mp hc)
  induction h with
  | done h => exact .done (hgaps h)
  | token h _ ih =>
    rw [List.map_cons, List.reverse_cons, List.reverse_append, List.reverse_append,
      List.append_assoc]
    exact ih.snoc (hgaps h)

/-- Nothing but blanks is stripped in front of a token that starts visibly. -/
theorem Spaced.lstrip {c : Char} {token text : List Char} {tokens : List (List Char)}
    (h : Spaced ((c :: token) :: tokens) text) (hc : isSpace c = false) :
    Spaced ((c :: token) :: tokens) (lstrip text) := by
  cases h with
  | token hgap rest =>
    rename_i gap after
    have hspace : ∀ x ∈ gap, isSpace x = true := by
      intro x hx
      rcases hgap x hx with rfl | rfl <;> decide
    have hstrip : Core.lstrip (gap ++ (c :: token ++ after)) = [] ++ (c :: token ++ after) := by
      rw [Core.lstrip, List.dropWhile_append_of_pos hspace, List.cons_append,
        List.dropWhile_cons_of_neg (by simp [hc])]
      rfl
    rw [hstrip]
    exact .token (by simp [Gap]) rest

theorem Spaced.strip {c d : Char} {first last text : List Char} {tokens : List (List Char)}
    (h : Spaced tokens text) (hfirst : ∃ rest, tokens = (c :: first) :: rest)
    (hlast : ∃ rest, (tokens.map List.reverse).reverse = (d :: last) :: rest)
    (hc : isSpace c = false) (hd : isSpace d = false) : Spaced tokens (strip text) := by
  obtain ⟨rest, rfl⟩ := hfirst
  obtain ⟨before, hlast⟩ := hlast
  have hreversed := (h.lstrip hc).reverse
  rw [hlast] at hreversed
  have hback := (hreversed.lstrip hd).reverse
  rw [← hlast] at hback
  simpa [Core.strip, Function.comp_def] using hback

end VllmObserver.Core
