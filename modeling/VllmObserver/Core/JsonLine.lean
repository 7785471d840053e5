import VllmObserver.Core.JsonRoundTrip

/-! # JSON text on one line

What `json.dumps` writes has no control characters, and with `ensure_ascii` it
is printable ASCII. So a document is one line of a log, and a log of documents is
read back line by line. -/
namespace VllmObserver.Core
open VllmObserver.Lib

/-! ## The characters of a number -/

def isNumeric (c : Char) : Bool :=
  isDigit c || c == '-' || c == '+' || c == '.' || c == 'e' || c == 'E'

/-- The text up to the rest is numeric. -/
def Takes (text rest : List Char) : Prop :=
  ∃ used, text = used ++ rest ∧ ∀ c ∈ used, isNumeric c = true

namespace Takes

theorem refl (text : List Char) : Takes text text := ⟨[], rfl, by simp⟩

theorem trans {text mid rest : List Char} (h : Takes text mid) (h' : Takes mid rest) :
    Takes text rest := by
  obtain ⟨used, rfl, hs⟩ := h
  obtain ⟨used', rfl, hs'⟩ := h'
  exact ⟨used ++ used', (List.append_assoc ..).symm, List.forall_mem_append.mpr ⟨hs, hs'⟩⟩

theorem cons {c : Char} {text rest : List Char} (hc : isNumeric c = true) (h : Takes text rest) :
    Takes (c :: text) rest := by
  obtain ⟨used, rfl, hs⟩ := h
  exact ⟨c :: used, rfl, List.forall_mem_cons.mpr ⟨hc, hs⟩⟩

theorem digits (text : List Char) : Takes text (text.dropWhile isDigit) := by
  refine ⟨text.takeWhile isDigit, List.takeWhile_append_dropWhile.symm, fun c hc => ?_⟩
  have hdigit : isDigit c = true := List.all_eq_true.mp List.all_takeWhile c hc
  simp [isNumeric, hdigit]

theorem minus (text : List Char) : Takes text (readMinus text).2 := by
  unfold readMinus
  split
  · exact (Takes.refl _).cons (by decide)
  · exact .refl _

theorem whole (text : List Char) : Takes text (readWhole text).2 := by
  unfold readWhole
  split
  · exact (Takes.refl _).cons (by decide)
  · exact .digits _

theorem fraction (text : List Char) : Takes text (readFraction text).2 := by
  unfold readFraction
  split
  · split
    · exact .refl _
    · exact (Takes.digits _).cons (by decide)
  · exact .refl _

theorem sign (text : List Char) : Takes text (readSign text).2 := by
  unfold readSign
  split
  · exact (Takes.refl _).cons (by decide)
  · exact (Takes.refl _).cons (by decide)
  · exact .refl _

theorem exponent (text : List Char) : Takes text (readExponent text).2 := by
  cases text with
  | nil => exact .refl _
  | cons c rest =>
    unfold readExponent
    dsimp only
    split
    · rename_i hc
      have hnumeric : isNumeric c = true := by
        rcases hc.1 with rfl | rfl <;> decide
      exact ((Takes.sign rest).trans (.digits _)).cons hnumeric
    · exact .refl _

end Takes

theorem readNumber_numeric {text : List Char} {value : Json}
    (h : readNumber text = some (value, [])) : ∀ c ∈ text, isNumeric c = true := by
  unfold readNumber at h
  dsimp only at h
  split at h
  · cases h
  · obtain ⟨x, _, heq⟩ := Option.map_eq_some_iff.mp h
    have htakes : Takes text (readExponent (readFraction (readWhole (readMinus text).2).2).2).2 :=
      (Takes.minus text).trans ((Takes.whole _).trans ((Takes.fraction _).trans (.exponent _)))
    rw [(Prod.mk.inj heq).2] at htakes
    obtain ⟨used, rfl, hused⟩ := htakes
    simpa using hused

/-! ## The characters of a document -/

/-- The characters that a style writes. -/
def DumpStyle.Writes (style : DumpStyle) (c : Char) : Prop :=
  0x20 ≤ c.toNat ∧ (style.ensureAscii = true → c.toNat ≤ 0x7e)

instance (style : DumpStyle) (c : Char) : Decidable (style.Writes c) :=
  inferInstanceAs (Decidable (_ ∧ _))

section Writes
variable {style : DumpStyle} {repr : ℚ → String}

theorem writes_ascii {c : Char} (h : 0x20 ≤ c.toNat ∧ c.toNat ≤ 0x7e) : style.Writes c :=
  ⟨h.1, fun _ => h.2⟩

theorem writes_numeric {c : Char} (h : isNumeric c = true) : style.Writes c := by
  simp only [isNumeric, isDigit, Bool.or_eq_true, Bool.and_eq_true, decide_eq_true_eq,
    beq_iff_eq] at h
  rcases h with ((((h | rfl) | rfl) | rfl) | rfl) | rfl
  · exact writes_ascii (by omega)
  all_goals exact writes_ascii (by decide)

theorem hexDigit_ascii : ∀ n < 16, 0x20 ≤ (hexDigit n).toNat ∧ (hexDigit n).toNat ≤ 0x7e := by
  decide

theorem writes_unitEscape (code : ℕ) : ∀ c ∈ unitEscape code, style.Writes c := by
  have hdigit : ∀ n, style.Writes (hexDigit (n % 16)) :=
    fun n => writes_ascii (hexDigit_ascii _ (Nat.mod_lt _ (by decide)))
  simp only [unitEscape, List.forall_mem_cons, List.not_mem_nil, false_imp_iff, implies_true,
    and_true]
  exact ⟨writes_ascii (by decide), writes_ascii (by decide), hdigit _, hdigit _, hdigit _,
    hdigit _⟩

theorem writes_dumpChar (c : Char) : ∀ d ∈ dumpChar style c, style.Writes d := by
  unfold dumpChar
  split
  · rename_i e he
    have hall : ∀ entry ∈ shortEscapes, 0x20 ≤ entry.2.toNat ∧ entry.2.toNat ≤ 0x7e := by decide
    obtain ⟨before, after, heq, _⟩ := List.lookup_eq_some_iff.mp he
    refine List.forall_mem_cons.mpr ⟨writes_ascii (by decide), List.forall_mem_singleton.mpr ?_⟩
    exact writes_ascii (hall (c, e) (by simp [heq]))
  · split
    · intro d hd
      obtain ⟨code, _, hd⟩ := List.mem_flatMap.mp hd
      exact writes_unitEscape code d hd
    · rename_i hraw
      simp only [DumpStyle.escapes, Bool.or_eq_true, Bool.and_eq_true, decide_eq_true_eq,
        not_or, not_and] at hraw
      exact List.forall_mem_singleton.mpr ⟨by omega, fun hascii => by
        have := hraw.2 hascii
        omega⟩

theorem writes_dumpString (text : String) : ∀ c ∈ dumpString style text, style.Writes c := by
  simp only [dumpString, List.forall_mem_cons, List.forall_mem_append, List.not_mem_nil,
    false_imp_iff, implies_true, and_true]
  refine ⟨writes_ascii (by decide), fun c hc => ?_, writes_ascii (by decide)⟩
  obtain ⟨d, _, hc⟩ := List.mem_flatMap.mp hc
  exact writes_dumpChar d c hc

theorem writes_gap : ∀ c ∈ style.gap, style.Writes c := by
  unfold DumpStyle.gap
  split
  · simp
  · exact List.forall_mem_singleton.mpr (writes_ascii (by decide))

theorem writes_comma : ∀ c ∈ style.comma, style.Writes c :=
  List.forall_mem_cons.mpr ⟨writes_ascii (by decide), writes_gap⟩

theorem writes_colon : ∀ c ∈ style.colon, style.Writes c :=
  List.forall_mem_cons.mpr ⟨writes_ascii (by decide), writes_gap⟩

theorem writes_word {word : String} (h : word.toList.all (fun c => decide (0x20 ≤ c.toNat ∧
    c.toNat ≤ 0x7e)) = true) : ∀ c ∈ word.toList, style.Writes c :=
  fun c hc => writes_ascii (forall_mem_of_all h c hc)

theorem writes_brackets {opening closing : Char} {text : List Char} (ho : style.Writes opening)
    (hc : style.Writes closing) (h : ∀ c ∈ text, style.Writes c) :
    ∀ c ∈ opening :: (text ++ [closing]), style.Writes c :=
  List.forall_mem_cons.mpr ⟨ho, List.forall_mem_append.mpr ⟨h, List.forall_mem_singleton.mpr hc⟩⟩

mutual

theorem writes_dumpValue : ∀ (value : Json) {text : List Char},
    value.NumbersMeet (ReadsFloat repr) → dumpValue style repr value = .ok text →
      ∀ c ∈ text, style.Writes c
  | .null, _, _, h => by
    cases h
    exact writes_word (by decide)
  | .bool true, _, _, h => by
    cases h
    exact writes_word (by decide)
  | .bool false, _, _, h => by
    cases h
    exact writes_word (by decide)
  | .num (.int n), _, _, h => by
    simp only [dumpValue, dumpInt] at h
    split at h
    · cases h
    · cases h
      exact fun c hc => writes_numeric (readNumber_numeric (readNumber_intText (by omega)) c hc)
  | .num (.float (.fin q)), _, hfloat, h => by
    cases h
    exact fun c hc => writes_numeric (readNumber_numeric hfloat c hc)
  | .num (.float (.inf false)), _, _, h => by
    cases h
    exact writes_word (by decide)
  | .num (.float (.inf true)), _, _, h => by
    cases h
    exact writes_word (by decide)
  | .num (.float .nan), _, _, h => by
    cases h
    exact writes_word (by decide)
  | .str s, _, _, h => by
    cases h
    exact writes_dumpString s
  | .arr xs, _, hfloat, h => by
    rw [dumpValue] at h
    obtain ⟨text, htext, h⟩ := bind_eq_ok.mp h
    cases h
    exact writes_brackets (writes_ascii (by decide)) (writes_ascii (by decide))
      (writes_dumpElements xs hfloat htext)
  | .obj entries, _, hfloat, h => by
    rw [dumpValue] at h
    obtain ⟨text, htext, h⟩ := bind_eq_ok.mp h
    cases h
    exact writes_brackets (writes_ascii (by decide)) (writes_ascii (by decide))
      (writes_dumpMembers entries hfloat htext)

theorem writes_dumpElements : ∀ (xs : List Json) {text : List Char},
    elementsMeet (ReadsFloat repr) xs → dumpElements style repr xs = .ok text →
      ∀ c ∈ text, style.Writes c
  | [], _, _, h => by
    cases h
    simp
  | x :: rest, _, hfloat, h => by
    rw [dumpElements] at h
    obtain ⟨text, htext, h⟩ := bind_eq_ok.mp h
    obtain ⟨others, hothers, h⟩ := bind_eq_ok.mp h
    cases h
    have hx := writes_dumpValue x hfloat.1 htext
    split
    · exact hx
    · exact List.forall_mem_append.mpr ⟨hx, List.forall_mem_append.mpr
        ⟨writes_comma, writes_dumpElements rest hfloat.2 hothers⟩⟩

theorem writes_dumpMembers : ∀ (entries : List (String × Json)) {text : List Char},
    membersMeet (ReadsFloat repr) entries → dumpMembers style repr entries = .ok text →
      ∀ c ∈ text, style.Writes c
  | [], _, _, h => by
    cases h
    simp
  | (key, x) :: rest, _, hfloat, h => by
    rw [dumpMembers] at h
    obtain ⟨text, htext, h⟩ := bind_eq_ok.mp h
    obtain ⟨others, hothers, h⟩ := bind_eq_ok.mp h
    cases h
    have hmember : ∀ c ∈ dumpString style key ++ (style.colon ++ text), style.Writes c :=
      List.forall_mem_append.mpr ⟨writes_dumpString key, List.forall_mem_append.mpr
        ⟨writes_colon, writes_dumpValue x hfloat.1 htext⟩⟩
    split
    · exact hmember
    · exact List.forall_mem_append.mpr ⟨hmember, List.forall_mem_append.mpr
        ⟨writes_comma, writes_dumpMembers rest hfloat.2 hothers⟩⟩

end

end Writes

end VllmObserver.Core
