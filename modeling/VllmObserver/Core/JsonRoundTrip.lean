import VllmObserver.Core.JsonDump
import Mathlib.Data.List.TakeWhile

/-! # What is written is read back

`json.loads` of what `json.dumps` writes is the value that was written, in every
style, as long as the runtime reads back its own floats. -/
namespace VllmObserver.Core
open VllmObserver.Lib

/-! ## Escapes -/

theorem hexDigit?_hexDigit : ∀ n < 16, hexDigit? (hexDigit n) = some n := by decide

/-- Four digits write a code of sixteen bits. -/
theorem hexCode?_digits_of {code : ℕ} (h : code < 0x10000) :
    hexCode? (hexDigit (code / 4096 % 16)) (hexDigit (code / 256 % 16))
      (hexDigit (code / 16 % 16)) (hexDigit (code % 16)) = some code := by
  have hdigit : ∀ n, hexDigit? (hexDigit (n % 16)) = some (n % 16) :=
    fun n => hexDigit?_hexDigit _ (Nat.mod_lt _ (by decide))
  rw [hexCode?, hdigit, hdigit, hdigit, hdigit]
  simp only [Option.bind_eq_bind, Option.bind_some, Option.some.injEq]
  omega

theorem readString_unitEscape {code : ℕ} (h : code < 0x10000) (text : List Char) :
    readString (unitEscape code ++ text) =
      (readString text).map fun read => (code :: read.1, read.2) := by
  simp only [unitEscape, List.cons_append, List.nil_append]
  rw [readString, hexCode?_digits_of h]
  cases readString text <;> rfl

theorem codeUnits_lt (c : Char) : ∀ code ∈ codeUnits c, code < 0x10000 := by
  have hmax : c.toNat < 0x110000 := by
    rcases c.valid with h | h
    · exact h.trans (by decide)
    · exact h.2
  unfold codeUnits
  split
  · simpa using ‹c.toNat < 0x10000›
  · simp only [List.forall_mem_cons, List.not_mem_nil, false_imp_iff, implies_true, and_true]
    omega

theorem readString_units : ∀ {codes : List ℕ}, (∀ code ∈ codes, code < 0x10000) →
    ∀ text, readString (codes.flatMap unitEscape ++ text) =
      (readString text).map fun read => (codes ++ read.1, read.2)
  | [], _, text => by
    simp only [List.flatMap_nil, List.nil_append]
    cases readString text <;> rfl
  | code :: codes, h, text => by
    rw [List.forall_mem_cons] at h
    rw [List.flatMap_cons, List.append_assoc, readString_unitEscape h.1, readString_units h.2]
    cases readString text <;> rfl

/-- The codes that a written character is read as. -/
def DumpStyle.units (style : DumpStyle) (c : Char) : List ℕ :=
  if (shortEscapes.lookup c).isNone && style.escapes c then codeUnits c else [c.toNat]

theorem shortEscape?_lookup {c e : Char} (h : shortEscapes.lookup c = some e) :
    shortEscape? e = some c.toNat := by
  have hall : ∀ entry ∈ shortEscapes, shortEscape? entry.2 = some entry.1.toNat := by decide
  obtain ⟨before, after, heq, _⟩ := List.lookup_eq_some_iff.mp h
  exact hall (c, e) (by simp [heq])

/-- A character without a short escape, unless it is a control character. -/
theorem plain_of_lookup {c : Char} (h : shortEscapes.lookup c = none) : isPlain c = true := by
  rw [isPlain_iff]
  constructor <;> rintro rfl <;> cases h

theorem readString_dumpChar (style : DumpStyle) (c : Char) (text : List Char) :
    readString (dumpChar style c ++ text) =
      (readString text).map fun read => (style.units c ++ read.1, read.2) := by
  unfold dumpChar DumpStyle.units
  cases he : shortEscapes.lookup c with
  | some e =>
    have hread := readString_escape (.short (shortEscape?_lookup he)) text
    simp only [List.cons_append, List.nil_append] at hread ⊢
    rw [hread]
    cases readString text <;> rfl
  | none =>
    simp only [Option.isNone_none, Bool.true_and]
    split
    · exact readString_units (codeUnits_lt c) text
    · rename_i hraw
      have hprint : 0x20 ≤ c.toNat := by
        simp only [DumpStyle.escapes, Bool.or_eq_true, decide_eq_true_eq, not_or] at hraw
        omega
      rw [List.singleton_append, readString_plain hprint (plain_of_lookup he)]
      cases readString text <;> rfl

/-! ## Literals -/

theorem joinCodes_cons {code : ℕ} (h : ¬ (0xd800 ≤ code ∧ code < 0xdc00)) (codes : List ℕ) :
    joinCodes (code :: codes) = charOf code :: joinCodes codes := by
  cases codes with
  | nil => rfl
  | cons low rest => rw [joinCodes, if_neg fun hsurrogate => h ⟨hsurrogate.1, hsurrogate.2.1⟩]

theorem joinCodes_units (style : DumpStyle) (c : Char) (codes : List ℕ) :
    joinCodes (style.units c ++ codes) = c :: joinCodes codes := by
  have hvalid : c.toNat < 0xd800 ∨ 0xdfff < c.toNat ∧ c.toNat < 0x110000 := c.valid
  have hplain : joinCodes (c.toNat :: codes) = c :: joinCodes codes := by
    rw [joinCodes_cons (by omega), charOf_toNat]
  unfold DumpStyle.units
  split
  · unfold codeUnits
    split
    · exact hplain
    · rename_i hbig
      have hjoin : 0x10000 + (0xd800 + (c.toNat - 0x10000) / 0x400 - 0xd800) * 0x400 +
          (0xdc00 + (c.toNat - 0x10000) % 0x400 - 0xdc00) = c.toNat := by omega
      simp only [List.cons_append, List.nil_append]
      rw [joinCodes, if_pos (by omega), hjoin, Char.ofNat_toNat]
  · exact hplain

theorem joinCodes_flatMap (style : DumpStyle) : ∀ cs : List Char,
    joinCodes (cs.flatMap style.units) = cs
  | [] => rfl
  | c :: cs => by rw [List.flatMap_cons, joinCodes_units, joinCodes_flatMap style cs]

/-- **A literal is read as its string.** -/
theorem readString_dumpString (style : DumpStyle) (rest : List Char) : ∀ cs : List Char,
    readString (cs.flatMap (dumpChar style) ++ '"' :: rest) =
      some (cs.flatMap style.units, rest)
  | [] => rfl
  | c :: cs => by
    rw [List.flatMap_cons, List.append_assoc, readString_dumpChar,
      readString_dumpString style rest cs]
    rfl

theorem literalText_units (style : DumpStyle) (text : String) :
    literalText (text.toList.flatMap style.units) = text := by
  rw [literalText, joinCodes_flatMap, String.ofList_toList]

/-! ## Numbers -/

/-- A number ends before such text. -/
def Stops (rest : List Char) : Prop :=
  ∀ c, rest.head? = some c → isDigit c = false ∧ c ≠ '.' ∧ c ≠ 'e' ∧ c ≠ 'E'

theorem Stops.cons {c : Char} {rest : List Char}
    (h : isDigit c = false ∧ c ≠ '.' ∧ c ≠ 'e' ∧ c ≠ 'E') : Stops (c :: rest) := by
  intro d hd
  obtain rfl := Option.some.inj hd
  exact h

section Locality
variable {text rest : List Char}

/-- The digits at the front do not reach into the rest. -/
theorem span_digits (h : Stops rest) (text : List Char) :
    (text ++ rest).takeWhile isDigit = text.takeWhile isDigit ∧
      (text ++ rest).dropWhile isDigit = text.dropWhile isDigit ++ rest := by
  induction text with
  | nil =>
    cases rest with
    | nil => exact ⟨rfl, rfl⟩
    | cons c rest =>
      have hc := (h c rfl).1
      simp [hc]
  | cons c text ih =>
    cases hc : isDigit c with
    | false => simp [hc]
    | true => simpa [hc] using ih

theorem readWhole_append (h : Stops rest) (hne : text ≠ []) :
    readWhole (text ++ rest) = ((readWhole text).1, (readWhole text).2 ++ rest) := by
  obtain ⟨htake, hdrop⟩ := span_digits h text
  match text, hne with
  | c :: tail, _ =>
    by_cases hc : c = '0'
    · subst hc
      rfl
    · have hread : ∀ tail, readWhole (c :: tail) =
          ((c :: tail).takeWhile isDigit, (c :: tail).dropWhile isDigit) := by
        intro tail
        rw [readWhole]
        exact fun _ heq => hc (List.cons.inj heq).1
      rw [List.cons_append, hread, hread, ← List.cons_append, htake, hdrop]

theorem readFraction_append (h : Stops rest) :
    readFraction (text ++ rest) = ((readFraction text).1, (readFraction text).2 ++ rest) := by
  have hplain : ∀ {text : List Char}, text.head? ≠ some '.' → readFraction text = ([], text) := by
    intro text hne
    rw [readFraction]
    rintro tail rfl
    exact hne rfl
  cases text with
  | nil =>
    have hhead : rest.head? ≠ some '.' := fun hdot => (h '.' hdot).2.1 rfl
    rw [List.nil_append, hplain hhead]
    rfl
  | cons c tail =>
    by_cases hc : c = '.'
    · subst hc
      obtain ⟨htake, hdrop⟩ := span_digits h tail
      simp only [List.cons_append, readFraction, htake, hdrop]
      split <;> rfl
    · have hhead : ∀ tail : List Char, (c :: tail).head? ≠ some '.' := by simpa using hc
      rw [List.cons_append, hplain (hhead _), hplain (hhead _)]
      rfl

theorem readSign_append (hne : text ≠ []) :
    readSign (text ++ rest) = ((readSign text).1, (readSign text).2 ++ rest) := by
  match text, hne with
  | c :: tail, _ =>
    by_cases hminus : c = '-'
    · subst hminus
      rfl
    · by_cases hplus : c = '+'
      · subst hplus
        rfl
      · have hread : ∀ tail, readSign (c :: tail) = (false, c :: tail) := by
          intro tail
          rw [readSign]
          · exact fun _ heq => hminus (List.cons.inj heq).1
          · exact fun _ heq => hplus (List.cons.inj heq).1
        rw [List.cons_append, hread, hread]
        rfl

theorem readExponent_stops (h : Stops rest) : readExponent rest = (none, rest) := by
  cases rest with
  | nil => rfl
  | cons c rest =>
    obtain ⟨_, _, he, hE⟩ := h c rfl
    simp [readExponent, he, hE]

/-- An exponent that ends with the text ends there also where text follows. -/
theorem readExponent_append (h : Stops rest) {exponent : Option ℤ}
    (hread : readExponent text = (exponent, [])) :
    readExponent (text ++ rest) = (exponent, rest) := by
  cases text with
  | nil =>
    obtain rfl : none = exponent := congrArg Prod.fst hread
    exact readExponent_stops h
  | cons c tail =>
    rw [readExponent] at hread
    dsimp only at hread
    split at hread
    · rename_i hc
      have htail : tail ≠ [] := by
        rintro rfl
        exact absurd hc.2 (by decide)
      obtain ⟨htake, hdrop⟩ := span_digits h (readSign tail).2
      rw [List.cons_append, readExponent, readSign_append htail]
      dsimp only
      rw [htake, hdrop, if_pos hc, (Prod.mk.inj hread).2]
      exact congrArg (fun e => (e, rest)) (Prod.mk.inj hread).1
    · cases hread

/-- **A number that ends with its text ends there also where text follows.** -/
theorem readNumber_append (h : Stops rest) {value : Json}
    (hread : readNumber text = some (value, [])) :
    readNumber (text ++ rest) = some (value, rest) := by
  unfold readNumber at hread ⊢
  dsimp only at hread ⊢
  split at hread
  · cases hread
  · rename_i hwhole
    obtain ⟨x, hx, heq⟩ := Option.map_eq_some_iff.mp hread
    obtain ⟨rfl, hend⟩ := Prod.mk.inj heq
    have hdigits : (readMinus text).2 ≠ [] := by
      intro hnil
      rw [hnil] at hwhole
      exact hwhole rfl
    have hminus : readMinus (text ++ rest) = ((readMinus text).1, (readMinus text).2 ++ rest) := by
      match text, hdigits with
      | c :: tail, _ =>
        by_cases hc : c = '-'
        · subst hc
          rfl
        · have hm : ∀ tail, readMinus (c :: tail) = (false, c :: tail) := by
            intro tail
            rw [readMinus]
            exact fun _ heq => hc (List.cons.inj heq).1
          rw [List.cons_append, hm, hm]
          rfl
    have hexponent :
        readExponent ((readFraction (readWhole (readMinus text).2).2).2 ++ rest) =
          ((readExponent (readFraction (readWhole (readMinus text).2).2).2).1, rest) :=
      readExponent_append h (Prod.ext rfl hend)
    rw [hminus]
    dsimp only
    rw [readWhole_append h hdigits]
    dsimp only
    rw [readFraction_append h]
    dsimp only
    rw [hexponent, if_neg hwhole]
    dsimp only
    rw [hx]
    rfl

end Locality

theorem isDigit_toDigits (n : ℕ) : ∀ c ∈ Nat.toDigits 10 n, isDigit c = true := by
  intro c hc
  have hdigit := Nat.isDigit_of_mem_toDigits (by decide) (by decide) hc
  simp only [Char.isDigit, Bool.and_eq_true, decide_eq_true_eq] at hdigit
  simp only [isDigit, Bool.and_eq_true, decide_eq_true_eq]
  exact hdigit

theorem digitsValue_toDigits (n : ℕ) : digitsValue (Nat.toDigits 10 n) = n :=
  Nat.ofDigitChars_ten_toDigits

/-- Only zero starts with a zero. -/
theorem head_toDigits {n : ℕ} (h : 0 < n) : (Nat.toDigits 10 n).head? ≠ some '0' := by
  induction n using Nat.strong_induction_on with
  | _ n ih =>
    by_cases hn : n < 10
    · have hdigit : ∀ n < 10, 0 < n → [n.digitChar].head? ≠ some '0' := by decide
      rw [Nat.toDigits_of_lt_base hn]
      exact hdigit n hn h
    · rw [Nat.toDigits_of_base_le (by decide) (by omega),
        List.head?_append_of_ne_nil _ Nat.toDigits_ne_nil]
      exact ih (n / 10) (by omega) (by omega)

theorem readWhole_toDigits (n : ℕ) {rest : List Char}
    (hrest : ∀ c ∈ rest.head?, isDigit c = false) :
    readWhole (Nat.toDigits 10 n ++ rest) = (Nat.toDigits 10 n, rest) := by
  have hdigits := isDigit_toDigits n
  have htake : (Nat.toDigits 10 n ++ rest).takeWhile isDigit = Nat.toDigits 10 n := by
    rw [List.takeWhile_append_of_pos hdigits]
    cases rest with
    | nil => simp
    | cons c tail => simp [hrest c rfl]
  have hdrop : (Nat.toDigits 10 n ++ rest).dropWhile isDigit = rest := by
    rw [List.dropWhile_append_of_pos hdigits]
    cases rest with
    | nil => rfl
    | cons c tail => simp [hrest c rfl]
  rcases Nat.eq_zero_or_pos n with rfl | hpos
  · rfl
  · rw [readWhole]
    · rw [htake, hdrop]
    · intro tail heq
      refine head_toDigits hpos ?_
      have hhead : (Nat.toDigits 10 n ++ rest).head? = some '0' := by rw [heq]; rfl
      rwa [List.head?_append_of_ne_nil _ Nat.toDigits_ne_nil] at hhead

theorem readMinus_intText (n : ℤ) (rest : List Char) :
    readMinus (intText n ++ rest) = (decide (n < 0), Nat.toDigits 10 n.natAbs ++ rest) := by
  unfold intText
  split
  · rename_i hneg
    rw [decide_eq_true hneg]
    rfl
  · rename_i hneg
    rw [decide_eq_false hneg, readMinus]
    intro tail heq
    have hhead : (Nat.toDigits 10 n.natAbs ++ rest).head? = some '-' := by rw [heq]; rfl
    rw [List.head?_append_of_ne_nil _ Nat.toDigits_ne_nil] at hhead
    have hdash := isDigit_toDigits n.natAbs '-' (List.mem_of_mem_head? hhead)
    revert hdash
    decide

/-- What stands behind the digits decides what number is read. -/
theorem readNumber_signed (n : ℤ) {rest : List Char}
    (hrest : ∀ c ∈ rest.head?, isDigit c = false) :
    readNumber (intText n ++ rest) =
      (numberOf (decide (n < 0)) (Nat.toDigits 10 n.natAbs) (readFraction rest).1
        (readExponent (readFraction rest).2).1).map
        fun x => (.num x, (readExponent (readFraction rest).2).2) := by
  have hne : (Nat.toDigits 10 n.natAbs).isEmpty = false := by
    simp
  rw [readNumber, readMinus_intText]
  dsimp only
  rw [readWhole_toDigits _ hrest]
  dsimp only
  rw [if_neg (by simp [hne])]

theorem natAbs_signed {R : Type} [Ring R] (n : ℤ) :
    (if n < 0 then -(n.natAbs : R) else (n.natAbs : R)) = (n : R) := by
  split
  · rename_i hneg
    rw [← Int.cast_natCast, ← Int.cast_neg, Int.ofNat_natAbs_of_nonpos hneg.le, neg_neg]
  · rename_i hneg
    rw [← Int.cast_natCast, Int.natAbs_of_nonneg (not_lt.mp hneg)]

theorem readNumber_intText {n : ℤ} (h : (Nat.toDigits 10 n.natAbs).length ≤ maxIntDigits) :
    readNumber (intText n) = some (.num (.int n), []) := by
  have hnumber : numberOf (decide (n < 0)) (Nat.toDigits 10 n.natAbs) [] none =
      some (.int n) := by
    have hint : (if n < 0 then -(n.natAbs : ℤ) else n.natAbs) = n := natAbs_signed n
    simp only [numberOf, List.isEmpty_nil, Option.isNone_none, Bool.and_self, if_true,
      Nat.not_lt.mpr h, if_false, digitsValue_toDigits, decide_eq_true_eq, hint]
  have hread : readNumber (intText n ++ []) = _ := readNumber_signed n (by simp)
  rw [List.append_nil] at hread
  rw [hread, readFraction, readExponent, hnumber]
  · rfl
  · simp

/-! ## Atoms -/

/-- The runtime reads the float back that it has written. -/
def ReadsFloat (repr : ℚ → String) : Number → Prop
  | .float (.fin q) => readNumber (repr q).toList = some (.float (.fin q), [])
  | _ => True

section Atoms
variable {text rest : List Char}

theorem readNumber_head {value : Json} (h : readNumber text = some (value, rest)) :
    ∃ c tail, text = c :: tail ∧ (c = '-' ∨ isDigit c = true) := by
  unfold readNumber at h
  dsimp only at h
  split at h
  · cases h
  · rename_i hwhole
    cases text with
    | nil => exact absurd rfl hwhole
    | cons c tail =>
      refine ⟨c, tail, rfl, ?_⟩
      by_contra hc
      rw [not_or] at hc
      refine hwhole ?_
      have hminus : readMinus (c :: tail) = (false, c :: tail) := by
        rw [readMinus]
        exact fun _ heq => hc.1 (List.cons.inj heq).1
      have hzero : c ≠ '0' := by
        rintro rfl
        exact hc.2 rfl
      rw [hminus, readWhole]
      · simp [hc.2]
      · exact fun _ heq => hzero (List.cons.inj heq).1

/-- No word is a number. -/
theorem jsonWords_number {value : Json} (h : readNumber text = some (value, rest)) :
    (jsonWords.find? fun word => word.1.isPrefixOf text) = none := by
  rw [List.find?_eq_none]
  intro word hword hprefix
  obtain ⟨tail, rfl⟩ := List.isPrefixOf_iff_prefix.mp hprefix
  simp only [jsonWords, List.mem_cons, List.not_mem_nil, or_false] at hword
  rcases hword with rfl | rfl | rfl | rfl | rfl | rfl <;> cases h

theorem readAtom_number (hstops : Stops rest) {value : Json}
    (h : readNumber text = some (value, [])) : readAtom (text ++ rest) = some (value, rest) := by
  have hread := readNumber_append hstops h
  rw [readAtom, jsonWords_number hread]
  exact hread

/-- An atom starts neither a literal nor a list nor a dictionary. -/
theorem readValue_atom {c : Char} (hc : c ≠ '"' ∧ c ≠ '[' ∧ c ≠ '{') (n : ℕ) :
    readValue (n + 1) (c :: text) = readAtom (c :: text) := by
  rw [readValue]
  · exact fun _ heq => hc.1 (List.cons.inj heq).1
  · exact fun _ heq => hc.2.1 (List.cons.inj heq).1
  · exact fun _ heq => hc.2.2 (List.cons.inj heq).1

end Atoms

/-! ## Values -/

/-- However often the reader goes round, if only often enough for the text, it
reads the value and stops there. -/
def ReadsBack (text : List Char) (value : Json) : Prop :=
  ∀ n rest, text.length < n → Stops rest → readValue n (text ++ rest) = some (value, rest)

/-- No blank and no bracket that closes stands at the front. -/
def Starts (text : List Char) : Prop :=
  ∃ c tail, text = c :: tail ∧ isBlank c = false ∧ c ≠ ']' ∧ c ≠ '}'

theorem Starts.skip {text : List Char} (h : Starts text) (rest : List Char) :
    skipBlanks (text ++ rest) = text ++ rest := by
  obtain ⟨c, tail, rfl, hc, _⟩ := h
  rw [skipBlanks, List.cons_append, List.dropWhile_cons_of_neg (by simp [hc])]

theorem number_starts {c : Char} (h : c = '-' ∨ isDigit c = true) :
    (isBlank c = false ∧ c ≠ ']' ∧ c ≠ '}') ∧ c ≠ '"' ∧ c ≠ '[' ∧ c ≠ '{' := by
  rcases h with rfl | h
  · decide
  · have hne : ∀ d, isDigit d = false → c ≠ d := by
      rintro d hd rfl
      rw [h] at hd
      cases hd
    refine ⟨⟨?_, hne _ (by decide), hne _ (by decide)⟩, hne _ (by decide), hne _ (by decide),
      hne _ (by decide)⟩
    simp [isBlank, hne ' ' (by decide), hne '\t' (by decide), hne '\n' (by decide),
      hne '\r' (by decide)]

theorem number_readsBack {text : List Char} {value : Json}
    (h : readNumber text = some (value, [])) : ReadsBack text value ∧ Starts text := by
  obtain ⟨c, tail, rfl, hc⟩ := readNumber_head h
  obtain ⟨hstart, hatom⟩ := number_starts hc
  refine ⟨fun n rest hn hstops => ?_, c, tail, rfl, hstart⟩
  obtain ⟨n, rfl⟩ : ∃ m, n = m + 1 := ⟨n - 1, by omega⟩
  rw [List.cons_append, readValue_atom hatom]
  exact readAtom_number hstops h

/-- A word is read whatever follows. -/
theorem word_readsBack : ∀ word ∈ jsonWords, ReadsBack word.1 word.2 ∧ Starts word.1 := by
  intro word hword
  have hread : ∀ n rest, 0 < n → readValue n (word.1 ++ rest) = some (word.2, rest) := by
    intro n rest hn
    obtain ⟨n, rfl⟩ : ∃ m, n = m + 1 := ⟨n - 1, by omega⟩
    simp only [jsonWords, List.mem_cons, List.not_mem_nil, or_false] at hword
    rcases hword with rfl | rfl | rfl | rfl | rfl | rfl <;> rfl
  refine ⟨fun n rest hn _ => hread n rest (by omega), ?_⟩
  simp only [jsonWords, List.mem_cons, List.not_mem_nil, or_false] at hword
  rcases hword with rfl | rfl | rfl | rfl | rfl | rfl <;> exact ⟨_, _, rfl, by decide⟩

theorem string_readsBack (style : DumpStyle) (text : String) :
    ReadsBack (dumpString style text) (.str text) ∧ Starts (dumpString style text) := by
  refine ⟨fun n rest hn _ => ?_, _, _, rfl, by decide⟩
  obtain ⟨n, rfl⟩ : ∃ m, n = m + 1 := ⟨n - 1, by omega⟩
  rw [dumpString, List.cons_append, List.append_assoc, List.singleton_append, readValue,
    readString_dumpString]
  simp [literalText_units]

section Dump
variable {style : DumpStyle} {repr : ℚ → String}

theorem skip_gap (style : DumpStyle) {text : List Char} (h : Starts text) (rest : List Char) :
    skipBlanks (style.gap ++ (text ++ rest)) = text ++ rest := by
  unfold DumpStyle.gap
  split
  · exact h.skip rest
  · exact h.skip rest

theorem starts_append {text : List Char} (h : Starts text) (rest : List Char) :
    Starts (text ++ rest) := by
  obtain ⟨c, tail, rfl, hc⟩ := h
  exact ⟨c, tail ++ rest, rfl, hc⟩

/-- The elements of a list, up to its bracket. -/
def ElementsBack (text : List Char) (xs : List Json) : Prop :=
  ∀ n k rest, text.length < n → text.length < k →
    readElements (readValue n) k (text ++ ']' :: rest) = some (xs, rest)

/-- The members of a dictionary, up to its brace. -/
def MembersBack (text : List Char) (entries : List (String × Json)) : Prop :=
  ∀ n k rest, text.length < n → text.length < k →
    readMembers (readValue n) k (text ++ '}' :: rest) = some (entries, rest)

theorem ElementsBack.single {text : List Char} {x : Json} (h : ReadsBack text x) :
    ElementsBack text [x] := by
  intro n k rest hn hk
  obtain ⟨k, rfl⟩ : ∃ m, k = m + 1 := ⟨k - 1, by omega⟩
  rw [readElements, h n (']' :: rest) hn (.cons (by decide))]
  rfl

theorem ElementsBack.cons {text others : List Char} {x : Json} {xs : List Json}
    (h : ReadsBack text x) (hs : Starts others) (hxs : ElementsBack others xs) :
    ElementsBack (text ++ (style.comma ++ others)) (x :: xs) := by
  intro n k rest hn hk
  simp only [DumpStyle.comma, List.length_append, List.length_cons] at hn hk
  obtain ⟨k, rfl⟩ : ∃ m, k = m + 1 := ⟨k - 1, by omega⟩
  have hstops : Stops (',' :: (style.gap ++ (others ++ ']' :: rest))) := .cons (by decide)
  have htext : text ++ (style.comma ++ others) ++ ']' :: rest =
      text ++ ',' :: (style.gap ++ (others ++ ']' :: rest)) := by
    simp [DumpStyle.comma]
  have hcomma : skipBlanks (',' :: (style.gap ++ (others ++ ']' :: rest))) =
      ',' :: (style.gap ++ (others ++ ']' :: rest)) := rfl
  rw [htext, readElements, h n _ (by omega) hstops]
  simp only [Option.bind_eq_bind, Option.bind_some, hcomma, skip_gap style hs,
    hxs n k rest (by omega) (by omega)]

/-- What the reader makes of the text behind a member. -/
def behindMember (n k : ℕ) (member : String × Json) (rest : List Char) :
    Option (List (String × Json) × List Char) :=
  match skipBlanks rest with
  | ',' :: rest => do
    let (members, rest) ← readMembers (readValue n) k (skipBlanks rest)
    some (member :: members, rest)
  | '}' :: rest => some ([member], rest)
  | _ => none

theorem readMembers_member {text : List Char} {x : Json} (key : String) (h : ReadsBack text x)
    (hs : Starts text) {n k : ℕ} {rest : List Char} (hn : text.length < n) (hstops : Stops rest) :
    readMembers (readValue n) (k + 1) (dumpString style key ++ (style.colon ++ text) ++ rest) =
      behindMember n k (key, x) rest := by
  have htext : dumpString style key ++ (style.colon ++ text) ++ rest =
      '"' :: (key.toList.flatMap (dumpChar style) ++
        '"' :: ':' :: (style.gap ++ (text ++ rest))) := by
    simp [dumpString, DumpStyle.colon]
  have hcolon : skipBlanks (':' :: (style.gap ++ (text ++ rest))) =
      ':' :: (style.gap ++ (text ++ rest)) := rfl
  rw [htext, readMembers, readString_dumpString]
  simp only [Option.bind_eq_bind, Option.bind_some, hcolon, skip_gap style hs,
    h n rest hn hstops, literalText_units]
  rfl

theorem MembersBack.single {text : List Char} {x : Json} (key : String) (h : ReadsBack text x)
    (hs : Starts text) :
    MembersBack (dumpString style key ++ (style.colon ++ text)) [(key, x)] := by
  intro n k rest hn hk
  simp only [List.length_append] at hn hk
  obtain ⟨k, rfl⟩ : ∃ m, k = m + 1 := ⟨k - 1, by omega⟩
  rw [readMembers_member key h hs (by omega) (.cons (by decide))]
  rfl

theorem MembersBack.cons {text others : List Char} {x : Json} {entries : List (String × Json)}
    (key : String) (h : ReadsBack text x) (hs : Starts text) (hs' : Starts others)
    (hentries : MembersBack others entries) :
    MembersBack (dumpString style key ++ (style.colon ++ text) ++ (style.comma ++ others))
      ((key, x) :: entries) := by
  intro n k rest hn hk
  simp only [DumpStyle.comma, List.length_append, List.length_cons] at hn hk
  obtain ⟨k, rfl⟩ : ∃ m, k = m + 1 := ⟨k - 1, by omega⟩
  have hskip : skipBlanks (style.comma ++ others ++ '}' :: rest) =
      ',' :: (style.gap ++ (others ++ '}' :: rest)) := by
    rw [DumpStyle.comma, List.cons_append, List.cons_append, List.append_assoc]
    rfl
  have hstops : Stops (style.comma ++ others ++ '}' :: rest) := Stops.cons (by decide)
  rw [List.append_assoc, readMembers_member key h hs (by omega) hstops, behindMember, hskip]
  simp only [skip_gap style hs', hentries n k rest (by omega) (by omega), Option.bind_eq_bind,
    Option.bind_some]

theorem array_readsBack {text : List Char} {xs : List Json} (hs : Starts text)
    (h : ElementsBack text xs) : ReadsBack ('[' :: (text ++ [']'])) (.arr xs) := by
  intro n rest hn _
  simp only [List.length_cons, List.length_append, List.length_nil] at hn
  obtain ⟨n, rfl⟩ : ∃ m, n = m + 1 := ⟨n - 1, by omega⟩
  have hskip : skipBlanks (text ++ [']'] ++ rest) = text ++ ']' :: rest := by
    rw [List.append_assoc, hs.skip, List.singleton_append]
  obtain ⟨c, tail, rfl, _, hclose, _⟩ := hs
  rw [List.cons_append, readValue, hskip]
  split
  · rename_i heq
    exact absurd (List.cons.inj heq).1 hclose
  · rw [h n n rest (by omega) (by omega)]
    rfl

theorem object_readsBack {text : List Char} {entries : List (String × Json)} (hs : Starts text)
    (h : MembersBack text entries) : ReadsBack ('{' :: (text ++ ['}'])) (.obj entries) := by
  intro n rest hn _
  simp only [List.length_cons, List.length_append, List.length_nil] at hn
  obtain ⟨n, rfl⟩ : ∃ m, n = m + 1 := ⟨n - 1, by omega⟩
  have hskip : skipBlanks (text ++ ['}'] ++ rest) = text ++ '}' :: rest := by
    rw [List.append_assoc, hs.skip, List.singleton_append]
  obtain ⟨c, tail, rfl, _, _, hclose⟩ := hs
  rw [List.cons_append, readValue, hskip]
  split
  · rename_i heq
    exact absurd (List.cons.inj heq).1 hclose
  · rw [h n n rest (by omega) (by omega)]
    rfl

mutual

theorem dumpValue_readsBack : ∀ (value : Json) {text : List Char},
    value.NumbersMeet (ReadsFloat repr) → dumpValue style repr value = .ok text →
      ReadsBack text value ∧ Starts text
  | .null, _, _, h => by
    cases h
    exact word_readsBack (['n', 'u', 'l', 'l'], .null) (by simp [jsonWords])
  | .bool true, _, _, h => by
    cases h
    exact word_readsBack (['t', 'r', 'u', 'e'], .bool true) (by simp [jsonWords])
  | .bool false, _, _, h => by
    cases h
    exact word_readsBack (['f', 'a', 'l', 's', 'e'], .bool false) (by simp [jsonWords])
  | .num (.int n), _, _, h => by
    simp only [dumpValue, dumpInt] at h
    split at h
    · cases h
    · cases h
      exact number_readsBack (readNumber_intText (by omega))
  | .num (.float (.fin q)), _, hfloat, h => by
    cases h
    exact number_readsBack hfloat
  | .num (.float (.inf false)), _, _, h => by
    cases h
    exact word_readsBack ("Infinity".toList, .float (.inf false)) (by simp [jsonWords])
  | .num (.float (.inf true)), _, _, h => by
    cases h
    exact word_readsBack ("-Infinity".toList, .float (.inf true)) (by simp [jsonWords])
  | .num (.float .nan), _, _, h => by
    cases h
    exact word_readsBack ("NaN".toList, .float .nan) (by simp [jsonWords])
  | .str s, _, _, h => by
    cases h
    exact string_readsBack style s
  | .arr [], _, _, h => by
    cases h
    refine ⟨fun n rest hn _ => ?_, _, _, rfl, by decide⟩
    obtain ⟨n, rfl⟩ : ∃ m, n = m + 1 := ⟨n - 1, by omega⟩
    rfl
  | .arr (x :: xs), _, hfloat, h => by
    rw [dumpValue] at h
    obtain ⟨text, htext, h⟩ := bind_eq_ok.mp h
    cases h
    obtain ⟨hback, hs⟩ := dumpElements_readsBack (x :: xs) (List.cons_ne_nil _ _) hfloat htext
    exact ⟨array_readsBack hs hback, _, _, rfl, by decide⟩
  | .obj [], _, _, h => by
    cases h
    refine ⟨fun n rest hn _ => ?_, _, _, rfl, by decide⟩
    obtain ⟨n, rfl⟩ : ∃ m, n = m + 1 := ⟨n - 1, by omega⟩
    rfl
  | .obj (entry :: entries), _, hfloat, h => by
    rw [dumpValue] at h
    obtain ⟨text, htext, h⟩ := bind_eq_ok.mp h
    cases h
    obtain ⟨hback, hs⟩ :=
      dumpMembers_readsBack (entry :: entries) (List.cons_ne_nil _ _) hfloat htext
    exact ⟨object_readsBack hs hback, _, _, rfl, by decide⟩

theorem dumpElements_readsBack : ∀ (xs : List Json) {text : List Char}, xs ≠ [] →
    elementsMeet (ReadsFloat repr) xs → dumpElements style repr xs = .ok text →
      ElementsBack text xs ∧ Starts text
  | [], _, hne, _, _ => absurd rfl hne
  | [x], _, _, hfloat, h => by
    rw [dumpElements] at h
    obtain ⟨text, htext, h⟩ := bind_eq_ok.mp h
    cases h
    obtain ⟨hback, hs⟩ := dumpValue_readsBack x hfloat.1 htext
    exact ⟨.single hback, hs⟩
  | x :: y :: rest, _, _, hfloat, h => by
    rw [dumpElements] at h
    obtain ⟨text, htext, h⟩ := bind_eq_ok.mp h
    obtain ⟨others, hothers, h⟩ := bind_eq_ok.mp h
    cases h
    obtain ⟨hback, hs⟩ := dumpValue_readsBack x hfloat.1 htext
    obtain ⟨hrest, hs'⟩ :=
      dumpElements_readsBack (y :: rest) (List.cons_ne_nil _ _) hfloat.2 hothers
    exact ⟨.cons hback hs' hrest, starts_append hs _⟩

theorem dumpMembers_readsBack : ∀ (entries : List (String × Json)) {text : List Char},
    entries ≠ [] → membersMeet (ReadsFloat repr) entries →
      dumpMembers style repr entries = .ok text → MembersBack text entries ∧ Starts text
  | [], _, hne, _, _ => absurd rfl hne
  | [(key, x)], _, _, hfloat, h => by
    rw [dumpMembers] at h
    obtain ⟨text, htext, h⟩ := bind_eq_ok.mp h
    cases h
    obtain ⟨hback, hs⟩ := dumpValue_readsBack x hfloat.1 htext
    exact ⟨.single key hback hs, _, _, rfl, by decide⟩
  | (key, x) :: entry :: rest, _, _, hfloat, h => by
    rw [dumpMembers] at h
    obtain ⟨text, htext, h⟩ := bind_eq_ok.mp h
    obtain ⟨others, hothers, h⟩ := bind_eq_ok.mp h
    cases h
    obtain ⟨hback, hs⟩ := dumpValue_readsBack x hfloat.1 htext
    obtain ⟨hrest, hs'⟩ :=
      dumpMembers_readsBack (entry :: rest) (List.cons_ne_nil _ _) hfloat.2 hothers
    exact ⟨.cons key hback hs hs' hrest, _, _, rfl, by decide⟩

end

theorem loads_dumped {value : Json} {text : List Char} (h : dumpValue style repr value = .ok text)
    (hfloats : value.NumbersMeet (ReadsFloat repr)) : loads (String.ofList text) = .ok value := by
  obtain ⟨hback, hs⟩ := dumpValue_readsBack value hfloats h
  have hread := hback (text.length + 1) [] (Nat.lt_succ_self _) (by simp [Stops])
  have hskip := hs.skip []
  rw [List.append_nil] at hread hskip
  rw [loads, String.toList_ofList, hskip, hread]
  rfl

/-- **`json.loads` inverts `json.dumps`** exactly where the stack has room for the
value. -/
theorem loads_dumps (style : DumpStyle) (repr : ℚ → String) {limit : ℕ} {value : Json}
    {text : String} (hfloats : value.NumbersMeet (ReadsFloat repr))
    (h : dumpsWithin limit style repr value = .ok text) :
    value.depth ≤ limit ∧ loads text = .ok value ∧
      ∀ room, loadsWithin room text =
        if value.depth ≤ room then .ok value else .error recursionError := by
  unfold dumpsWithin at h
  split at h
  · rename_i hdepth
    obtain ⟨line, hline, h⟩ := bind_eq_ok.mp h
    cases h
    have hloads := loads_dumped hline hfloats
    refine ⟨hdepth, hloads, fun room => ?_⟩
    rw [loadsWithin, hloads, ok_bind]
  · cases h

theorem readsFloat_half : ReadsFloat (fun _ => "0.5") (.float (.fin (1 / 2))) := by
  have hvalue : (5 : ℕ) * 10 ^ ((0 : ℤ) - (1 : ℕ)) = (1 / 2 : ℚ) := by norm_num
  change some (Json.num (.float (.fin ((5 : ℕ) * 10 ^ ((0 : ℤ) - (1 : ℕ))))), ([] : List Char)) = _
  rw [hvalue]
  rfl

theorem loads_dumps_stage :
    loadsWithin 2
        "\x7b\"stage\":\"r\u00e9ponse\\n\",\"seconds\":0.5,\"rows\":[-12,null]\x7d" =
      .ok (.obj [("stage", .str "r\u00e9ponse\n"), ("seconds", .num (.float (.fin (1 / 2)))),
        ("rows", .arr [.num (.int (-12)), .null])]) :=
  have hfloats : (Json.obj [("stage", .str "r\u00e9ponse\n"),
      ("seconds", .num (.float (.fin (1 / 2)))),
      ("rows", .arr [.num (.int (-12)), .null])]).NumbersMeet (ReadsFloat fun _ => "0.5") :=
    ⟨trivial, readsFloat_half, ⟨trivial, trivial, trivial⟩, trivial⟩
  have hdumped : dumpsWithin 2 ⟨false, true⟩ (fun _ => "0.5") _ = .ok _ := rfl
  (loads_dumps ⟨false, true⟩ (fun _ => "0.5") hfloats hdumped).2.2 2

end Dump

end VllmObserver.Core
