import VllmObserver.Core.JsonText

/-! # Quotes and backslashes of JSON text

A scanner that knows nothing but string literals: what `json.loads` accepts, it
leaves outside of a literal, and it never meets a backslash there. -/
namespace VllmObserver.Core
open VllmObserver.Lib

/-- Outside of a literal, inside of one, or inside behind a backslash. -/
inductive Mode where
  | outside
  | inside
  | escaped
deriving DecidableEq

/-- A backslash outside of a literal is an error. -/
def Mode.next : Mode → Char → Option Mode
  | .outside, c => if c = '"' then some .inside else if c = '\\' then none else some .outside
  | .inside, c =>
    if c = '"' then some .outside else if c = '\\' then some .escaped else some .inside
  | .escaped, _ => some .inside

def scan : Mode → List Char → Option Mode
  | mode, [] => some mode
  | mode, c :: rest => (mode.next c).bind (scan · rest)

theorem scan_append (mode : Mode) (xs ys : List Char) :
    scan mode (xs ++ ys) = (scan mode xs).bind (scan · ys) := by
  induction xs generalizing mode with
  | nil => rfl
  | cons c rest ih =>
    simp only [List.cons_append, scan]
    cases mode.next c with
    | none => rfl
    | some next => exact ih next

/-- Neither a quote nor a backslash. -/
def isPlain (c : Char) : Bool := c != '"' && c != '\\'

theorem isPlain_iff {c : Char} : isPlain c = true ↔ c ≠ '"' ∧ c ≠ '\\' := by
  simp [isPlain]

/-- A property of all characters of a closed text, by computation. -/
theorem forall_mem_of_all {p : Char → Prop} [DecidablePred p] {text : List Char}
    (h : text.all (fun c => decide (p c)) = true) : ∀ c ∈ text, p c :=
  fun c hc => of_decide_eq_true (List.all_eq_true.mp h c hc)

theorem scan_plain {mode : Mode} (hm : mode ≠ .escaped) : ∀ {text : List Char},
    (∀ c ∈ text, isPlain c = true) → scan mode text = some mode
  | [], _ => rfl
  | c :: rest, h => by
    obtain ⟨hq, hb⟩ := isPlain_iff.mp (h c List.mem_cons_self)
    have hnext : mode.next c = some mode := by
      cases mode with
      | escaped => exact absurd rfl hm
      | _ => simp [Mode.next, hq, hb]
    rw [scan, hnext]
    exact scan_plain hm fun d hd => h d (List.mem_cons_of_mem _ hd)

/-- The text up to the rest is a sequence of whole literals and of characters
between them. -/
def Reads (text rest : List Char) : Prop :=
  ∃ used, text = used ++ rest ∧ scan .outside used = some .outside

namespace Reads

theorem refl (text : List Char) : Reads text text := ⟨[], rfl, rfl⟩

theorem trans {text mid rest : List Char} (h : Reads text mid) (h' : Reads mid rest) :
    Reads text rest := by
  obtain ⟨used, rfl, hs⟩ := h
  obtain ⟨used', rfl, hs'⟩ := h'
  exact ⟨used ++ used', (List.append_assoc ..).symm, by rw [scan_append, hs]; exact hs'⟩

theorem cons {c : Char} {text rest : List Char} (hc : isPlain c = true) (h : Reads text rest) :
    Reads (c :: text) rest := by
  obtain ⟨used, rfl, hs⟩ := h
  obtain ⟨hq, hb⟩ := isPlain_iff.mp hc
  refine ⟨c :: used, rfl, ?_⟩
  rw [scan, Mode.next, if_neg hq, if_neg hb]
  exact hs

theorem dropWhile {p : Char → Bool} (hp : ∀ c, p c = true → isPlain c = true)
    (text : List Char) : Reads text (text.dropWhile p) :=
  ⟨text.takeWhile p, List.takeWhile_append_dropWhile.symm,
    scan_plain (by decide) fun c hc => hp c (List.all_eq_true.mp List.all_takeWhile c hc)⟩

theorem length_le {text rest : List Char} (h : Reads text rest) : rest.length ≤ text.length := by
  obtain ⟨used, rfl, _⟩ := h
  simp

end Reads

theorem isBlank_plain (c : Char) (h : isBlank c = true) : isPlain c = true := by
  simp only [isBlank, Bool.or_eq_true, beq_iff_eq] at h
  rcases h with ((rfl | rfl) | rfl) | rfl <;> decide

theorem isDigit_plain (c : Char) (h : isDigit c = true) : isPlain c = true := by
  rw [isPlain_iff]
  constructor <;> rintro rfl <;> cases h

theorem skipBlanks_reads (text : List Char) : Reads text (skipBlanks text) :=
  Reads.dropWhile isBlank_plain text

theorem bind_eq_some {α β : Type} {x : Option α} {f : α → Option β} {b : β} :
    (x >>= f) = some b ↔ ∃ a, x = some a ∧ f a = some b := Option.bind_eq_some_iff

theorem hexDigit?_plain {c : Char} {n : ℕ} (h : hexDigit? c = some n) : isPlain c = true := by
  rw [isPlain_iff]
  constructor <;> rintro rfl <;> cases h

theorem hexCode?_digits {a b c d : Char} {n : ℕ} (h : hexCode? a b c d = some n) :
    ∀ x ∈ [a, b, c, d], ∃ m, hexDigit? x = some m := by
  obtain ⟨_, ha, h⟩ := bind_eq_some.mp h
  obtain ⟨_, hb, h⟩ := bind_eq_some.mp h
  obtain ⟨_, hc, h⟩ := bind_eq_some.mp h
  obtain ⟨_, hd, _⟩ := bind_eq_some.mp h
  simp [ha, hb, hc, hd]

theorem hexCode?_plain {a b c d : Char} {n : ℕ} (h : hexCode? a b c d = some n) :
    ∀ x ∈ [a, b, c, d], isPlain x = true := fun x hx =>
  let ⟨_, hm⟩ := hexCode?_digits h x hx
  hexDigit?_plain hm

/-! ## What the readers take -/

theorem readString_spec {text : List Char} {codes : List ℕ} {rest : List Char}
    (h : readString text = some (codes, rest)) :
    ∃ used, text = used ++ rest ∧ scan .inside used = some .outside := by
  fun_induction readString text generalizing codes with
  | case1 tail =>
    cases h
    exact ⟨['"'], rfl, rfl⟩
  | case2 a b c d tail ih =>
    obtain ⟨_, hcode, h⟩ := bind_eq_some.mp h
    obtain ⟨⟨codes', rest'⟩, htail, h⟩ := bind_eq_some.mp h
    cases h
    obtain ⟨used, rfl, hs⟩ := ih htail
    refine ⟨'\\' :: 'u' :: ([a, b, c, d] ++ used), rfl, ?_⟩
    have hdigits := scan_plain (show Mode.inside ≠ .escaped by decide) (hexCode?_plain hcode)
    change scan .inside ([a, b, c, d] ++ used) = _
    rw [scan_append, hdigits]
    exact hs
  | case3 e tail _ ih =>
    obtain ⟨_, _, h⟩ := bind_eq_some.mp h
    obtain ⟨⟨codes', rest'⟩, htail, h⟩ := bind_eq_some.mp h
    cases h
    obtain ⟨used, rfl, hs⟩ := ih htail
    exact ⟨'\\' :: e :: used, rfl, hs⟩
  | case4 => cases h
  | case5 c tail hquote _ _ hc ih =>
    obtain ⟨⟨codes', rest'⟩, htail, h⟩ := bind_eq_some.mp h
    cases h
    obtain ⟨used, rfl, hs⟩ := ih htail
    refine ⟨c :: used, rfl, ?_⟩
    rw [scan, Mode.next, if_neg hquote, if_neg fun hb => hc (Or.inl hb)]
    exact hs
  | case6 => cases h

theorem readString_reads {text rest : List Char} {codes : List ℕ}
    (h : readString text = some (codes, rest)) : Reads ('"' :: text) rest := by
  obtain ⟨used, rfl, hs⟩ := readString_spec h
  exact ⟨'"' :: used, rfl, hs⟩

theorem readSign_reads (text : List Char) : Reads text (readSign text).2 := by
  unfold readSign
  split
  · exact (Reads.refl _).cons (by decide)
  · exact (Reads.refl _).cons (by decide)
  · exact Reads.refl _

theorem readFraction_reads (text : List Char) : Reads text (readFraction text).2 := by
  unfold readFraction
  split
  · split
    · exact Reads.refl _
    · exact (Reads.dropWhile isDigit_plain _).cons (by decide)
  · exact Reads.refl _

theorem readExponent_reads (text : List Char) : Reads text (readExponent text).2 := by
  cases text with
  | nil => exact Reads.refl _
  | cons c rest =>
    unfold readExponent
    dsimp only
    split
    · rename_i hc
      have hplain : isPlain c = true := by
        rcases hc.1 with rfl | rfl <;> decide
      exact ((readSign_reads rest).trans (Reads.dropWhile isDigit_plain _)).cons hplain
    · exact Reads.refl _

theorem readWhole_reads (text : List Char) : Reads text (readWhole text).2 := by
  unfold readWhole
  split
  · exact (Reads.refl _).cons (by decide)
  · exact Reads.dropWhile isDigit_plain _

theorem readMinus_reads (text : List Char) : Reads text (readMinus text).2 := by
  unfold readMinus
  split
  · exact (Reads.refl _).cons (by decide)
  · exact Reads.refl _

/-- A value takes at least one character. -/
def Consumes (text rest : List Char) : Prop := Reads text rest ∧ rest.length < text.length

theorem Reads.consumes {text mid rest : List Char} (h : Reads text mid) (h' : Consumes mid rest) :
    Consumes text rest := ⟨h.trans h'.1, lt_of_lt_of_le h'.2 h.length_le⟩

theorem Consumes.reads {text mid rest : List Char} (h : Consumes text mid) (h' : Reads mid rest) :
    Consumes text rest := ⟨h.1.trans h', lt_of_le_of_lt h'.length_le h.2⟩

theorem Reads.consumes_cons {c : Char} {text rest : List Char} (hc : isPlain c = true)
    (h : Reads text rest) : Consumes (c :: text) rest :=
  ⟨h.cons hc, Nat.lt_succ_of_le h.length_le⟩

theorem readWhole_consumes {text : List Char} (h : (readWhole text).1 ≠ []) :
    Consumes text (readWhole text).2 := by
  refine ⟨readWhole_reads text, ?_⟩
  have hsplit : (readWhole text).1 ++ (readWhole text).2 = text := by
    unfold readWhole
    split
    · rfl
    · exact List.takeWhile_append_dropWhile
  have hlen := congrArg List.length hsplit
  rw [List.length_append] at hlen
  have hpos := List.length_pos_of_ne_nil h
  omega

theorem readNumber_consumes {text rest : List Char} {value : Json}
    (h : readNumber text = some (value, rest)) :
    Consumes text rest ∧ ∃ x, value = .num x := by
  unfold readNumber at h
  dsimp only at h
  split at h
  · cases h
  · rename_i hwhole
    obtain ⟨x, _, hx⟩ := Option.map_eq_some_iff.mp h
    cases hx
    exact ⟨((readMinus_reads text).consumes (readWhole_consumes (by simpa using hwhole))).reads
      ((readFraction_reads _).trans (readExponent_reads _)), x, rfl⟩

theorem readAtom_consumes {text rest : List Char} {value : Json}
    (h : readAtom text = some (value, rest)) :
    Consumes text rest ∧ ∀ entries, value ≠ .obj entries := by
  unfold readAtom at h
  split at h
  · rename_i word value' hword
    cases h
    have hplain : ∀ w ∈ jsonWords, (∀ c ∈ w.1, isPlain c = true) ∧ w.1 ≠ [] := by
      have hall : ∀ w ∈ jsonWords, w.1.all isPlain = true ∧ w.1 ≠ [] := by decide
      exact fun w hw => ⟨List.all_eq_true.mp (hall w hw).1, (hall w hw).2⟩
    have hatom : ∀ w ∈ jsonWords, ∀ entries, w.2 ≠ .obj entries := by
      intro w hw entries
      simp only [jsonWords, List.mem_cons, List.not_mem_nil, or_false] at hw
      rcases hw with rfl | rfl | rfl | rfl | rfl | rfl <;> exact Json.noConfusion
    have hmem := List.mem_of_find?_eq_some hword
    have hprefix := List.find?_some (p := fun w : List Char × Json => w.1.isPrefixOf text) hword
    obtain ⟨tail, rfl⟩ := List.isPrefixOf_iff_prefix.mp hprefix
    obtain ⟨hp, hne⟩ := hplain _ hmem
    refine ⟨⟨⟨word, ?_, scan_plain (by decide) hp⟩, ?_⟩, hatom _ hmem⟩
    · simp
    · have hpos : 0 < word.length := List.length_pos_of_ne_nil hne
      simp only [List.length_append, List.drop_left]
      omega
  · obtain ⟨hc, x, rfl⟩ := readNumber_consumes h
    exact ⟨hc, fun _ => Json.noConfusion⟩

/-- A reader of values that takes what it reads. -/
def Sound (value : List Char → Option (Json × List Char)) : Prop :=
  ∀ {text x rest}, value text = some (x, rest) → Consumes text rest

theorem readElements_consumes {value : List Char → Option (Json × List Char)}
    (hvalue : Sound value) : ∀ {n : ℕ} {text rest : List Char} {xs : List Json},
    readElements value n text = some (xs, rest) → Consumes text rest
  | 0, _, _, _, h => by cases h
  | n + 1, text, rest, xs, h => by
    obtain ⟨⟨x, mid⟩, hx, h⟩ := bind_eq_some.mp h
    have hmid := (hvalue hx).reads (skipBlanks_reads mid)
    dsimp only at h
    split at h
    · rename_i tail hskip
      obtain ⟨⟨xs', rest'⟩, htail, h⟩ := bind_eq_some.mp h
      cases h
      rw [hskip] at hmid
      exact hmid.reads (((skipBlanks_reads tail).trans
        (readElements_consumes hvalue htail).1).cons (by decide))
    · rename_i tail hskip
      cases h
      rw [hskip] at hmid
      exact hmid.reads ((Reads.refl _).cons (by decide))
    · cases h

theorem readMembers_consumes {value : List Char → Option (Json × List Char)}
    (hvalue : Sound value) : ∀ {n : ℕ} {text rest : List Char} {members : List (String × Json)},
    readMembers value n text = some (members, rest) →
      Consumes text rest ∧ ∃ tail, text = '"' :: tail
  | 0, _, _, _, h => by cases h
  | n + 1, [], rest, members, h => by cases h
  | n + 1, c :: text, rest, members, h => by
    by_cases hc : c = '"'
    · subst hc
      refine ⟨?_, text, rfl⟩
      rw [readMembers] at h
      obtain ⟨⟨key, afterKey⟩, hkey, h⟩ := bind_eq_some.mp h
      have hfirst := (readString_reads hkey).trans (skipBlanks_reads afterKey)
      dsimp only at h
      split at h
      · rename_i afterColon hcolon
        obtain ⟨⟨x, mid⟩, hx, h⟩ := bind_eq_some.mp h
        rw [hcolon] at hfirst
        have hmid := ((hfirst.trans ((skipBlanks_reads afterColon).cons (by decide))).consumes
          (hvalue hx)).reads (skipBlanks_reads mid)
        dsimp only at h
        split at h
        · rename_i tail hskip
          obtain ⟨⟨members', rest'⟩, htail, h⟩ := bind_eq_some.mp h
          cases h
          rw [hskip] at hmid
          exact hmid.reads (((skipBlanks_reads tail).trans
            (readMembers_consumes hvalue htail).1.1).cons (by decide))
        · rename_i tail hskip
          cases h
          rw [hskip] at hmid
          exact hmid.reads ((Reads.refl _).cons (by decide))
        · cases h
      · cases h
    · rw [readMembers] at h
      · cases h
      · intro _ _ he
        exact fun heq => hc (List.cons.inj heq).1

theorem readValue_consumes : ∀ {n : ℕ}, Sound (readValue n)
  | 0, _, _, _, h => by cases h
  | n + 1, text, value, rest, h => by
    unfold readValue at h
    split at h
    · rename_i tail
      obtain ⟨⟨codes, rest'⟩, hstring, h⟩ := bind_eq_some.mp h
      cases h
      obtain ⟨used, rfl, _⟩ := readString_spec hstring
      refine ⟨readString_reads hstring, ?_⟩
      simp only [List.length_cons, List.length_append]
      omega
    · rename_i tail
      split at h
      · rename_i tail' hskip
        cases h
        have hskipped := skipBlanks_reads tail
        rw [hskip] at hskipped
        exact (hskipped.trans ((Reads.refl _).cons (by decide))).consumes_cons (by decide)
      · obtain ⟨⟨xs, rest'⟩, hxs, h⟩ := bind_eq_some.mp h
        cases h
        exact ((skipBlanks_reads tail).trans
          (readElements_consumes readValue_consumes hxs).1).consumes_cons (by decide)
    · rename_i tail
      split at h
      · rename_i tail' hskip
        cases h
        have hskipped := skipBlanks_reads tail
        rw [hskip] at hskipped
        exact (hskipped.trans ((Reads.refl _).cons (by decide))).consumes_cons (by decide)
      · obtain ⟨⟨members, rest'⟩, hmembers, h⟩ := bind_eq_some.mp h
        cases h
        exact ((skipBlanks_reads tail).trans
          (readMembers_consumes readValue_consumes hmembers).1.1).consumes_cons (by decide)
    · exact (readAtom_consumes h).1

/-- A dictionary with a member starts with a quote. -/
theorem readValue_obj {n : ℕ} {text rest : List Char} {member : String × Json}
    {members : List (String × Json)}
    (h : readValue n text = some (.obj (member :: members), rest)) : '"' ∈ text := by
  cases n with
  | zero => cases h
  | succ n =>
    unfold readValue at h
    split at h
    · exact List.mem_cons_self
    · split at h
      · cases h
      · obtain ⟨_, _, h⟩ := bind_eq_some.mp h
        cases h
    · rename_i tail
      split at h
      · cases h
      · obtain ⟨⟨members', rest'⟩, hmembers, h⟩ := bind_eq_some.mp h
        obtain ⟨tail', htail⟩ := (readMembers_consumes readValue_consumes hmembers).2
        have hquote : '"' ∈ skipBlanks tail := htail ▸ List.mem_cons_self
        exact List.mem_cons_of_mem _ (List.dropWhile_subset _ hquote)
    · exact absurd rfl ((readAtom_consumes h).2 (member :: members))

/-! ## Texts that are accepted -/

theorem loads_spec {text : String} {value : Json} (h : loads text = .ok value) :
    ∃ rest, readValue (text.toList.length + 1) (skipBlanks text.toList) = some (value, rest) ∧
      skipBlanks rest = [] := by
  unfold loads at h
  split at h
  · rename_i value' rest hread
    split at h
    · rename_i hempty
      cases h
      exact ⟨rest, hread, by simpa using hempty⟩
    · cases h
  · cases h

/-- Accepted text ends outside of a literal, without a backslash out there. -/
theorem loads_closed {text : String} {value : Json} (h : loads text = .ok value) :
    scan .outside text.toList = some .outside := by
  obtain ⟨rest, hread, hrest⟩ := loads_spec h
  have htail := skipBlanks_reads rest
  rw [hrest] at htail
  obtain ⟨used, he, hs⟩ :=
    (skipBlanks_reads text.toList).trans ((readValue_consumes hread).1.trans htail)
  rwa [he, List.append_nil]

/-- Without a quote there is no dictionary but the empty one. -/
theorem loads_obj {text : String} {member : String × Json} {members : List (String × Json)}
    (h : loads text = .ok (.obj (member :: members))) : '"' ∈ text.toList := by
  obtain ⟨rest, hread, _⟩ := loads_spec h
  exact List.dropWhile_subset _ (readValue_obj hread)

/-! ## The number of rounds -/

theorem readElements_rounds {f g : List Char → Option (Json × List Char)} (hf : Sound f)
    {k : ℕ} (hfg : ∀ text, text.length < k → f text = g text) :
    ∀ {n m : ℕ} {text : List Char}, text.length < k → text.length < n → text.length < m →
      readElements f n text = readElements g m text
  | 0, _, _, _, hn, _ => by omega
  | _ + 1, 0, _, _, _, hm => by omega
  | n + 1, m + 1, text, hk, hn, hm => by
    rw [readElements, readElements, ← hfg text hk]
    cases hx : f text with
    | none => rfl
    | some read =>
      obtain ⟨x, mid⟩ := read
      have hmid := (hf hx).reads (skipBlanks_reads mid)
      simp only [Option.bind_eq_bind, Option.bind_some]
      split
      · rename_i tail hskip
        rw [hskip] at hmid
        have hlen := (hmid.reads ((skipBlanks_reads tail).cons (by decide))).2
        have htail : readElements f n (skipBlanks tail) = readElements g m (skipBlanks tail) :=
          readElements_rounds hf hfg (by omega) (by omega) (by omega)
        rw [htail]
      · rfl
      · rfl

theorem readMembers_rounds {f g : List Char → Option (Json × List Char)} (hf : Sound f)
    {k : ℕ} (hfg : ∀ text, text.length < k → f text = g text) :
    ∀ {n m : ℕ} {text : List Char}, text.length < k → text.length < n → text.length < m →
      readMembers f n text = readMembers g m text
  | 0, _, _, _, hn, _ => by omega
  | _ + 1, 0, _, _, _, hm => by omega
  | n + 1, m + 1, [], _, _, _ => rfl
  | n + 1, m + 1, c :: text, hk, hn, hm => by
    by_cases hc : c = '"'
    · subst hc
      rw [readMembers, readMembers]
      cases hkey : readString text with
      | none => rfl
      | some read =>
        obtain ⟨key, afterKey⟩ := read
        have hfirst := (readString_reads hkey).trans (skipBlanks_reads afterKey)
        simp only [Option.bind_eq_bind, Option.bind_some]
        split
        · rename_i afterColon hcolon
          rw [hcolon] at hfirst
          have hlen := hfirst.length_le
          have hskip := (skipBlanks_reads afterColon).length_le
          rw [List.length_cons] at hlen
          rw [← hfg (skipBlanks afterColon) (by omega)]
          cases hx : f (skipBlanks afterColon) with
          | none => rfl
          | some read =>
            obtain ⟨x, mid⟩ := read
            have hmid := ((hf hx).reads (skipBlanks_reads mid)).2
            simp only [Option.bind_some]
            split
            · rename_i tail hcomma
              have htail := (skipBlanks_reads tail).length_le
              rw [hcomma, List.length_cons] at hmid
              have hmembers : readMembers f n (skipBlanks tail) =
                  readMembers g m (skipBlanks tail) :=
                readMembers_rounds hf hfg (by omega) (by omega) (by omega)
              rw [hmembers]
            · rfl
            · rfl
        · rfl
    · rw [readMembers, readMembers]
      · intro _ _ he
        exact fun heq => hc (List.cons.inj heq).1
      · intro _ _ he
        exact fun heq => hc (List.cons.inj heq).1

/-- More rounds than the text has characters change nothing. -/
theorem readValue_rounds : ∀ {n m : ℕ} {text : List Char}, text.length < n → text.length < m →
    readValue n text = readValue m text
  | 0, _, _, hn, _ => by omega
  | _ + 1, 0, _, _, hm => by omega
  | n + 1, m + 1, text, hn, hm => by
    have hfg : ∀ text : List Char, text.length < min n m → readValue n text = readValue m text :=
      fun text h => readValue_rounds (lt_of_lt_of_le h (min_le_left n m))
        (lt_of_lt_of_le h (min_le_right n m))
    unfold readValue
    split
    · rfl
    · rename_i tail
      split
      · rfl
      · have hlen := (skipBlanks_reads tail).length_le
        rw [List.length_cons] at hn hm
        have hxs : readElements (readValue n) n (skipBlanks tail) =
            readElements (readValue m) m (skipBlanks tail) :=
          readElements_rounds readValue_consumes hfg (by omega) (by omega) (by omega)
        rw [hxs]
    · rename_i tail
      split
      · rfl
      · have hlen := (skipBlanks_reads tail).length_le
        rw [List.length_cons] at hn hm
        have hmembers : readMembers (readValue n) n (skipBlanks tail) =
            readMembers (readValue m) m (skipBlanks tail) :=
          readMembers_rounds readValue_consumes hfg (by omega) (by omega) (by omega)
        rw [hmembers]
    · rfl

end VllmObserver.Core
