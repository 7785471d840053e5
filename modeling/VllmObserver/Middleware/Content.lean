import VllmObserver.Core.Plain
import VllmObserver.Core.Text

/-! # Captured content

With content capture on, the request body is decoded as JSON, and of the
response the text is taken out: of a JSON body the first choice's message, of an
event stream the deltas. The request parser returns on every byte string. The
response parser indexes into the decoded values, and returns on those of the
expected shape only. -/
namespace VllmObserver.Middleware
open VllmObserver.Lib VllmObserver.Core

/-- `bytes.decode("utf-8")` and `bytes.decode("utf-8", "replace")`. The
development holds for all of them. -/
structure Codec where
  decode : Bytes → Except PyError String
  decodeReplace : Bytes → String

section Parse
variable (codec : Codec) (reader : Reader)

def parseRequest (raw : Bytes) (route : String) : Json :=
  let parsed := if raw.isEmpty then .ok (.obj []) else codec.decode raw >>= reader.loads
  match parsed with
  | .error _ => .obj [("route", .str route), ("body", .str (codec.decodeReplace raw))]
  | .ok (.obj entries) => .obj (("route", .str route) :: entries)
  | .ok value => .obj [("route", .str route), ("body", value)]

/-- `(part or {}).get("content")`. -/
def partContent (part : Json) : Except PyError Json := (part.orElse (.obj [])).get "content"

/-- The content of the first choice under the key, if there are choices. -/
def fromChoices (key : String) (choices : Json) : Except PyError (Option Json) :=
  if choices.truthy then
    choices.index 0 >>= fun first =>
    first.get key >>= fun part =>
    partContent part >>= fun content => .ok (some content)
  else .ok none

/-- `choices = value.get("choices") or []`, and what they hold. -/
def choiceContent (key : String) (value : Json) : Except PyError (Option Json) :=
  value.get "choices" >>= fromChoices key

def messageContent (parsed : Json) : Except PyError Json :=
  choiceContent "message" parsed >>= fun content =>
  match content with
  | some content => .ok content
  | none => parsed.get "content"

/-- The payload of a line of the event stream. -/
def payload? (line : List Char) : Option (List Char) :=
  if "data:".toList.isPrefixOf line then
    let payload := strip (line.drop "data:".toList.length)
    if payload.isEmpty || payload == "[DONE]".toList then none else some payload
  else none

/-- The decoded payloads; those that are no JSON are passed over. -/
def chunks (text : List Char) : List Json :=
  (splitLines text).filterMap fun line =>
    (payload? line).bind fun payload => (reader.loads (String.ofList payload)).toOption

def deltaParts : List Json → Except PyError (List Json)
  | [] => .ok []
  | chunk :: rest =>
    choiceContent "delta" chunk >>= fun content =>
    deltaParts rest >>= fun parts =>
    match content with
    | some content => .ok (if content.truthy then content :: parts else parts)
    | none => .ok parts

/-- `"".join(parts)`, from the given position. -/
def joinParts : ℕ → List Json → Except PyError String
  | _, [] => .ok ""
  | i, .str s :: rest => joinParts (i + 1) rest >>= fun text => .ok (s ++ text)
  | i, part :: _ => .error (.typeError
      ("sequence item " ++ toString i ++ ": expected str instance, " ++ part.typeName ++ " found"))

/-- The deltas concatenated; `None` if there is no text. -/
def streamContent (chunks : List Json) : Except PyError Json :=
  deltaParts chunks >>= fun parts =>
  joinParts 0 parts >>= fun content => .ok (if content = "" then .null else .str content)

/-- Whether the response is an event stream. -/
def isStream (text : String) : Bool := "data:".toList.isPrefixOf (lstrip text.toList)

def parseResponse (raw : Bytes) : Except PyError Json :=
  if raw.isEmpty then .ok .null
  else
    let text := codec.decodeReplace raw
    if isStream text then streamContent (chunks reader text.toList)
    else match reader.loads text with
      | .error _ => .ok (.str text)
      | .ok parsed => messageContent parsed

end Parse

/-! ## The expected shape -/

/-- The value under the key; `None` without one. -/
def field (key : String) (entries : List (String × Json)) : Json :=
  (Json.find? key entries).getD .null

/-- A dictionary, or a value that counts as nothing. -/
def readablePart (part : Json) : Bool := part.isObj || !part.truthy

/-- A dictionary whose choices, if there are any, are a list starting with a
dictionary, which holds a dictionary or nothing under the key. -/
def shaped (key : String) : Json → Bool
  | .obj entries => match field "choices" entries with
    | .arr (.obj first :: _) => readablePart (field key first)
    | choices => !choices.truthy
  | _ => false

def contentOf : Json → Json
  | .obj entries => field "content" entries
  | _ => .null

/-- The content that a value of the shape carries. -/
def contentAt (key : String) : Json → Option Json
  | .obj entries => match field "choices" entries with
    | .arr (.obj first :: _) => some (contentOf (field key first))
    | _ => none
  | _ => none

/-- Text, or nothing that would be joined. -/
def textual : Option Json → Bool
  | none => true
  | some (.str _) => true
  | some content => !content.truthy

/-- The responses that the parser can read. -/
def Readable (reader : Reader) (text : String) : Prop :=
  if isStream text then
    ∀ chunk ∈ chunks reader text.toList, shaped "delta" chunk ∧ textual (contentAt "delta" chunk)
  else ∀ parsed, reader.loads text = .ok parsed → shaped "message" parsed

theorem partContent_cases (part : Json) :
    readablePart part = true ∧ partContent part = .ok (contentOf part) ∨
      readablePart part = false ∧ ∃ e, partContent part = .error e := by
  have hscalar : part.isObj = false → contentOf part = .null →
      (part.truthy = true → ∃ e, part.get "content" = .error e) →
      readablePart part = true ∧ partContent part = .ok (contentOf part) ∨
        readablePart part = false ∧ ∃ e, partContent part = .error e := by
    intro hobj hnull herror
    rw [readablePart, hobj, partContent, Json.orElse, hnull]
    cases ht : part.truthy
    · exact Or.inl ⟨rfl, rfl⟩
    · exact Or.inr ⟨rfl, herror ht⟩
  cases part with
  | obj entries => cases entries <;> exact Or.inl ⟨rfl, rfl⟩
  | _ => exact hscalar rfl rfl fun _ => ⟨_, rfl⟩

/-- Truthy choices that do not start with a dictionary cannot be read. -/
theorem fromChoices_error {key : String} {choices : Json} (h : choices.truthy = true)
    (hne : ∀ first rest, choices ≠ .arr (.obj first :: rest)) :
    ∃ e, fromChoices key choices = .error e := by
  rw [fromChoices, if_pos h]
  cases choices with
  | arr xs => cases xs with
    | nil => cases h
    | cons x rest => cases x with
      | obj first => exact absurd rfl (hne first rest)
      | _ => exact ⟨_, rfl⟩
  | str s =>
    -- a character of a string is a string, which has no `get`
    simp only [Json.index]
    split
    · exact ⟨_, rfl⟩
    · exact ⟨_, rfl⟩
  | _ => exact ⟨_, rfl⟩

/-- The response parser reads the content of a value exactly when it is of the
expected shape. -/
theorem choiceContent_cases (key : String) (value : Json) :
    shaped key value = true ∧ choiceContent key value = .ok (contentAt key value) ∨
      shaped key value = false ∧ ∃ e, choiceContent key value = .error e := by
  cases value with
  | obj entries =>
    have hread : choiceContent key (.obj entries) = fromChoices key (field "choices" entries) := rfl
    rw [hread]
    simp only [shaped, contentAt]
    split
    · rename_i first rest hchoices
      have hfirst : fromChoices key (.arr (.obj first :: rest)) =
        partContent (field key first) >>= fun content => .ok (some content) := rfl
      rw [hchoices, hfirst]
      rcases partContent_cases (field key first) with ⟨hr, hp⟩ | ⟨hr, e, hp⟩
      · exact Or.inl ⟨hr, by rw [hp]; rfl⟩
      · exact Or.inr ⟨hr, e, by rw [hp]; rfl⟩
    · rename_i hne
      cases ht : (field "choices" entries).truthy
      · exact Or.inl ⟨rfl, by rw [fromChoices, ht]; rfl⟩
      · exact Or.inr ⟨rfl, fromChoices_error ht hne⟩
  | _ => exact Or.inr ⟨rfl, _, rfl⟩

theorem messageContent_ok_iff (parsed : Json) :
    (∃ content, messageContent parsed = .ok content) ↔ shaped "message" parsed = true := by
  rcases choiceContent_cases "message" parsed with ⟨hs, hc⟩ | ⟨hs, e, hc⟩
  · refine ⟨fun _ => hs, fun _ => ?_⟩
    rw [messageContent, hc, ok_bind]
    cases contentAt "message" parsed with
    | some content => exact ⟨content, rfl⟩
    | none => cases parsed with
      | obj entries => exact ⟨_, rfl⟩
      | _ => cases hs
  · rw [messageContent, hc, hs]
    refine ⟨fun ⟨_, h⟩ => ?_, fun h => ?_⟩ <;> cases h

/-- The contents of the deltas that are not empty. -/
def deltas (chunks : List Json) : List Json :=
  (chunks.filterMap (contentAt "delta")).filter Json.truthy

theorem deltaParts_cases : ∀ chunks : List Json,
    (∀ chunk ∈ chunks, shaped "delta" chunk = true) ∧ deltaParts chunks = .ok (deltas chunks) ∨
      (∃ chunk ∈ chunks, shaped "delta" chunk = false) ∧ ∃ e, deltaParts chunks = .error e
  | [] => Or.inl ⟨by simp, rfl⟩
  | chunk :: rest => by
    rw [deltaParts]
    rcases choiceContent_cases "delta" chunk with ⟨hs, hc⟩ | ⟨hs, e, hc⟩
    · rw [hc, ok_bind]
      rcases deltaParts_cases rest with ⟨hall, hparts⟩ | ⟨⟨bad, hbad, hs'⟩, e, hparts⟩
      · refine Or.inl ⟨List.forall_mem_cons.mpr ⟨hs, hall⟩, ?_⟩
        rw [hparts, ok_bind]
        cases hat : contentAt "delta" chunk with
        | none => simp [deltas, hat]
        | some content => cases ht : content.truthy <;> simp [deltas, hat, ht]
      · exact Or.inr ⟨⟨bad, List.mem_cons_of_mem _ hbad, hs'⟩, e, by rw [hparts]; rfl⟩
    · exact Or.inr ⟨⟨chunk, List.mem_cons_self, hs⟩, e, by rw [hc]; rfl⟩

/-- Only strings can be joined. -/
theorem joinParts_ok_iff : ∀ {parts : List Json} {i : ℕ},
    (∃ text, joinParts i parts = .ok text) ↔ ∀ part ∈ parts, ∃ s, part = .str s
  | [], _ => ⟨fun _ => by simp, fun _ => ⟨"", rfl⟩⟩
  | part :: rest, i => by
    rw [List.forall_mem_cons, ← joinParts_ok_iff (i := i + 1)]
    cases part with
    | str s =>
      rw [joinParts]
      constructor
      · rintro ⟨text, h⟩
        obtain ⟨tail, htail, _⟩ := bind_eq_ok.mp h
        exact ⟨⟨s, rfl⟩, tail, htail⟩
      · rintro ⟨_, tail, htail⟩
        exact ⟨s ++ tail, by rw [htail]; rfl⟩
    | _ =>
      refine ⟨fun ⟨_, h⟩ => ?_, fun ⟨⟨_, h⟩, _⟩ => ?_⟩ <;> cases h

theorem deltas_strings_iff (chunks : List Json) :
    (∀ part ∈ deltas chunks, ∃ s, part = .str s) ↔
      ∀ chunk ∈ chunks, textual (contentAt "delta" chunk) = true := by
  constructor
  · intro h chunk hc
    cases hat : contentAt "delta" chunk with
    | none => rfl
    | some content =>
      cases ht : content.truthy with
      | false => cases content <;> simp_all [textual]
      | true =>
        obtain ⟨s, rfl⟩ := h content (by simpa [deltas, ht] using ⟨chunk, hc, hat⟩)
        rfl
  · intro h part hp
    obtain ⟨hmem, ht⟩ := List.mem_filter.mp hp
    obtain ⟨chunk, hc, hat⟩ := List.mem_filterMap.mp hmem
    have htext := h chunk hc
    rw [hat] at htext
    cases part with
    | str s => exact ⟨s, rfl⟩
    | _ => simp [textual, ht] at htext

theorem streamContent_ok_iff (chunks : List Json) :
    (∃ content, streamContent chunks = .ok content) ↔ ∀ chunk ∈ chunks,
      shaped "delta" chunk = true ∧ textual (contentAt "delta" chunk) = true := by
  rw [streamContent]
  rcases deltaParts_cases chunks with ⟨hall, hparts⟩ | ⟨⟨bad, hbad, hs⟩, e, hparts⟩
  · rw [hparts, ok_bind]
    constructor
    · rintro ⟨content, h⟩ chunk hc
      obtain ⟨text, hjoin, _⟩ := bind_eq_ok.mp h
      exact ⟨hall chunk hc,
        (deltas_strings_iff chunks).mp (joinParts_ok_iff.mp ⟨text, hjoin⟩) chunk hc⟩
    · intro h
      obtain ⟨text, hjoin⟩ := joinParts_ok_iff (i := 0).mpr
        ((deltas_strings_iff chunks).mpr fun chunk hc => (h chunk hc).2)
      exact ⟨_, by rw [hjoin]; rfl⟩
  · rw [hparts]
    constructor
    · rintro ⟨content, h⟩
      cases h
    · intro h
      rw [(h bad hbad).1] at hs
      cases hs

/-- **The response parser returns on the readable responses, and on no other.** -/
theorem parseResponse_ok_iff (codec : Codec) (reader : Reader) (raw : Bytes) :
    (∃ content, parseResponse codec reader raw = .ok content) ↔
      raw = [] ∨ Readable reader (codec.decodeReplace raw) := by
  cases raw with
  | nil => exact ⟨fun _ => Or.inl rfl, fun _ => ⟨.null, rfl⟩⟩
  | cons byte rest =>
    rw [parseResponse, Readable]
    simp only [List.isEmpty_cons, Bool.false_eq_true, if_false, reduceCtorEq, false_or]
    generalize codec.decodeReplace (byte :: rest) = text
    split
    · exact streamContent_ok_iff _
    · cases hl : reader.loads text with
      | error e =>
        refine ⟨fun _ parsed h => ?_, fun _ => ⟨.str text, rfl⟩⟩
        cases h
      | ok parsed =>
        refine (messageContent_ok_iff parsed).trans ⟨fun h other ho => ?_, fun h => h parsed rfl⟩
        cases ho
        exact h

end VllmObserver.Middleware
