import VllmObserver.Middleware.Call
import Mathlib.Data.List.Induction

/-! # What is captured of the bodies

Each body is kept if the kept bytes stay within the limit. A body that does not
fit is left out, and the test is made anew for the next one: the kept bytes are a
prefix of the bodies as long as no smaller body follows one that was left out. -/
namespace VllmObserver.Middleware
open VllmObserver.Lib VllmObserver.Core

/-- The bodies of the delivered request messages. -/
def receivedBodies (ops : List Op) : List Bytes :=
  ops.filterMap fun
    | .receive (.request body _) => some (body.getD [])
    | _ => none

/-- The body that a step sends, if it is not empty. -/
def sentBody : Op → Option Bytes
  | .send (.body (some body) _) _ _ => if body.isEmpty then none else some body
  | _ => none

def size (bodies : List Bytes) : ℕ := (bodies.map List.length).sum

/-- The kept bytes are those of the first bodies, and within the limit. -/
def CapturedPrefix (bodies chunks : List Bytes) : Prop :=
  ∃ k, chunks.flatten = (bodies.take k).flatten ∧ chunks.flatten.length ≤ contentLimit

/-- Behind the first body that does not fit no other one fits but the empty. -/
def NoLateFit (bodies : List Bytes) : Prop :=
  ∀ before b between late after, bodies = before ++ b :: (between ++ late :: after) →
    size before ≤ contentLimit → contentLimit < size before + b.length → late ≠ [] →
    contentLimit < size before + late.length

@[simp] theorem size_append (xs ys : List Bytes) : size (xs ++ ys) = size xs + size ys := by
  simp [size]

@[simp] theorem size_cons (b : Bytes) (rest : List Bytes) :
    size (b :: rest) = b.length + size rest := rfl

@[simp] theorem size_nil : size [] = 0 := rfl

theorem length_flatten (bodies : List Bytes) : bodies.flatten.length = size bodies :=
  List.length_flatten

theorem keep_fits {chunks : List Bytes} {b : Bytes} (h : size chunks + b.length ≤ contentLimit) :
    keep chunks b = chunks ++ [b] := if_pos h

theorem keep_full {chunks : List Bytes} {b : Bytes} (h : contentLimit < size chunks + b.length) :
    keep chunks b = chunks := if_neg (not_le.mpr h)

/-- Keeping never drops a chunk and never goes beyond the limit. -/
theorem size_keep {chunks : List Bytes} (h : size chunks ≤ contentLimit) (b : Bytes) :
    size chunks ≤ size (keep chunks b) ∧ size (keep chunks b) ≤ contentLimit := by
  rcases Nat.lt_or_ge contentLimit (size chunks + b.length) with hfull | hfits
  · rw [keep_full hfull]
    exact ⟨le_refl _, h⟩
  · rw [keep_fits hfits]
    simp only [size_append, size_cons, size_nil]
    omega

theorem size_foldl_keep (bodies : List Bytes) {chunks : List Bytes}
    (h : size chunks ≤ contentLimit) :
    size chunks ≤ size (bodies.foldl keep chunks) ∧
      size (bodies.foldl keep chunks) ≤ contentLimit := by
  induction bodies generalizing chunks with
  | nil => exact ⟨le_refl _, h⟩
  | cons b rest ih =>
    have hone := size_keep h b
    have hrest := ih hone.2
    exact ⟨le_trans hone.1 hrest.1, hrest.2⟩

/-- Bodies that fit together are all kept. -/
theorem foldl_keep_fits (bodies : List Bytes) {chunks : List Bytes}
    (h : size chunks + size bodies ≤ contentLimit) :
    bodies.foldl keep chunks = chunks ++ bodies := by
  induction bodies generalizing chunks with
  | nil => simp
  | cons b rest ih =>
    rw [size_cons] at h
    rw [List.foldl_cons, keep_fits (by omega), ih (by simp; omega)]
    simp

/-- Bodies of which none fits change nothing but for empty chunks. -/
theorem foldl_keep_full (bodies : List Bytes) {chunks : List Bytes}
    (h : ∀ b ∈ bodies, b ≠ [] → contentLimit < size chunks + b.length) :
    (bodies.foldl keep chunks).flatten = chunks.flatten := by
  induction bodies generalizing chunks with
  | nil => rfl
  | cons b rest ih =>
    rw [List.forall_mem_cons] at h
    have hone : (keep chunks b).flatten = chunks.flatten := by
      by_cases hb : b = []
      · unfold keep
        split <;> simp [hb]
      · rw [keep_full (h.1 hb)]
    have hsize : size (keep chunks b) = size chunks := by
      rw [← length_flatten, hone, length_flatten]
    rw [List.foldl_cons, ih fun c hc hne => hsize ▸ h.2 c hc hne, hone]

/-- Bodies fit together, or there is a first one that does not fit. -/
theorem size_split (bodies : List Bytes) : size bodies ≤ contentLimit ∨
    ∃ before b rest, bodies = before ++ b :: rest ∧ size before ≤ contentLimit ∧
      contentLimit < size before + b.length := by
  induction bodies using List.reverseRecOn with
  | nil => exact Or.inl (Nat.zero_le _)
  | append_singleton bodies b ih =>
    rcases ih with h | ⟨before, c, rest, rfl, hb, hc⟩
    · rcases Nat.lt_or_ge contentLimit (size bodies + b.length) with hfull | hfits
      · exact Or.inr ⟨bodies, b, [], rfl, h, hfull⟩
      · exact Or.inl (by simpa using hfits)
    · exact Or.inr ⟨before, c, rest ++ [b], by simp, hb, hc⟩

/-- No cut between two messages lies inside a body. -/
theorem CapturedPrefix.not_inside (before : List Bytes) {rest chunks : List Bytes} {b : Bytes}
    (h : CapturedPrefix (before ++ b :: rest) chunks) (hlow : size before < size chunks)
    (hhigh : size chunks < size before + b.length) : False := by
  obtain ⟨k, hk, _⟩ := h
  have hsize : size chunks = size ((before ++ b :: rest).take k) := by
    rw [← length_flatten, hk, length_flatten]
  rcases Nat.lt_or_ge before.length k with hlt | hge
  · obtain ⟨j, rfl⟩ : ∃ j, k = before.length + (j + 1) := ⟨k - before.length - 1, by omega⟩
    rw [List.take_append, List.take_of_length_le (by omega), Nat.add_sub_cancel_left,
      List.take_succ_cons, size_append, size_cons] at hsize
    omega
  · rw [List.take_append_of_le_length hge] at hsize
    have hsplit : size before = size (before.take k) + size (before.drop k) := by
      rw [← size_append, List.take_append_drop]
    omega

/-- The bodies whose capture is a prefix at every point. -/
theorem keep_prefix_iff (bodies : List Bytes) :
    (∀ pre post, bodies = pre ++ post → CapturedPrefix pre (pre.foldl keep [])) ↔
      NoLateFit bodies := by
  constructor
  · rintro h before b between late after rfl hbefore hb hlate
    by_contra hfits
    -- what is kept behind `b` ends inside of it
    have hkept : (before ++ b :: between).foldl keep [] = between.foldl keep before := by
      rw [List.foldl_append, foldl_keep_fits before (by simpa using hbefore), List.nil_append,
        List.foldl_cons, keep_full hb]
    have hsize := size_foldl_keep between hbefore
    have hpos : 0 < late.length := List.length_pos_of_ne_nil hlate
    rcases Nat.eq_or_lt_of_le hsize.1 with heq | hlt
    · have hp := h (before ++ b :: (between ++ [late])) after (by simp)
      rw [← List.cons_append, ← List.append_assoc, List.foldl_append, hkept, List.foldl_cons,
        List.foldl_nil, keep_fits (by omega)] at hp
      rw [List.append_assoc, List.cons_append] at hp
      exact hp.not_inside before (by simp; omega) (by simp; omega)
    · have hp := h (before ++ b :: between) (late :: after) (by simp)
      rw [hkept] at hp
      exact hp.not_inside before hlt (by omega)
  · rintro h pre post rfl
    have hsize : size (pre.foldl keep []) ≤ contentLimit :=
      (size_foldl_keep pre (Nat.zero_le _)).2
    rw [← length_flatten] at hsize
    rcases size_split pre with hfits | ⟨before, b, rest, rfl, hbefore, hb⟩
    · refine ⟨pre.length, ?_, hsize⟩
      rw [foldl_keep_fits pre (by simpa using hfits), List.take_length, List.nil_append]
    · refine ⟨before.length, ?_, hsize⟩
      rw [List.foldl_append, foldl_keep_fits before (by simpa using hbefore), List.nil_append,
        List.foldl_cons, keep_full hb, List.take_left, foldl_keep_full]
      intro late hlate hne
      obtain ⟨between, after, rfl⟩ := List.append_of_mem hlate
      exact h before b between late (after ++ post) (by simp) hbefore hb hne

/-! ## Both channels -/

theorem step_requestChunks (s : Exchange) (op : Op) :
    (s.step true op).requestChunks = (receivedBodies [op]).foldl keep s.requestChunks := by
  cases op with
  | receive message => cases message with
    | request body _ => rfl
    | disconnect =>
      simp only [Exchange.step, Exchange.tracedReceive]
      split <;> rfl
  | send message firstBody now => cases message <;> rfl
  | hook hook => rfl

/-- What the traced `receive` has kept after a run. -/
theorem run_requestChunks (ops : List Op) (s : Exchange) :
    (run (Exchange.step true) s ops).requestChunks =
      (receivedBodies ops).foldl keep s.requestChunks := by
  induction ops generalizing s with
  | nil => rfl
  | cons op rest ih =>
    have hsplit : receivedBodies ([op] ++ rest) = receivedBodies [op] ++ receivedBodies rest :=
      List.filterMap_append
    rw [List.singleton_append] at hsplit
    rw [run_cons, ih, step_requestChunks, hsplit, List.foldl_append]

/-- A prefix of the messages that a channel takes comes from a prefix of the run. -/
theorem forall_prefix_iff {α β : Type} {f : α → Option β} {P : List β → Prop} {l : List α} :
    (∀ pre post, l = pre ++ post → P (pre.filterMap f)) ↔
      ∀ pre post, l.filterMap f = pre ++ post → P pre := by
  constructor
  · rintro h pre post heq
    obtain ⟨l₁, l₂, rfl, rfl, _⟩ := List.filterMap_eq_append_iff.mp heq
    exact h l₁ l₂ rfl
  · rintro h pre post rfl
    exact h (pre.filterMap f) (post.filterMap f) List.filterMap_append

theorem sentBodies_eq (ops : List Op) : sentBodies ops = ops.filterMap sentBody := by
  rw [sentBodies, sentMessages, List.filterMap_filterMap]
  congr 1
  funext op
  rcases op with message | ⟨message, _, _⟩ | hook
  · rfl
  · rcases message with _ | ⟨_ | body, _⟩ | _ <;> rfl
  · rfl

/-- **What is captured is a prefix** of what was received and sent, at every
point of the run, exactly if on neither channel a body that fits comes behind
one that does not. -/
theorem captured_prefix_iff (trace : RequestTrace) (ops : List Op) :
    (∀ pre post, ops = pre ++ post →
      CapturedPrefix (receivedBodies pre)
        (run (Exchange.step true) { trace := trace } pre).requestChunks ∧
      CapturedPrefix (sentBodies pre)
        (run (Exchange.step true) { trace := trace } pre).responseChunks) ↔
      NoLateFit (receivedBodies ops) ∧ NoLateFit (sentBodies ops) := by
  have hreceived : (∀ pre post, ops = pre ++ post → CapturedPrefix (receivedBodies pre)
      (run (Exchange.step true) { trace := trace } pre).requestChunks) ↔
      NoLateFit (receivedBodies ops) := by
    simp only [run_requestChunks]
    rw [← keep_prefix_iff]
    exact forall_prefix_iff (P := fun bodies => CapturedPrefix bodies (bodies.foldl keep []))
  have hsent : (∀ pre post, ops = pre ++ post → CapturedPrefix (sentBodies pre)
      (run (Exchange.step true) { trace := trace } pre).responseChunks) ↔
      NoLateFit (sentBodies ops) := by
    simp only [run_responseChunks]
    rw [← keep_prefix_iff, sentBodies_eq ops]
    simp only [sentBodies_eq]
    exact forall_prefix_iff (P := fun bodies => CapturedPrefix bodies (bodies.foldl keep []))
  rw [← hreceived, ← hsent]
  constructor
  · intro h
    exact ⟨fun pre post heq => (h pre post heq).1, fun pre post heq => (h pre post heq).2⟩
  · rintro ⟨h1, h2⟩ pre post heq
    exact ⟨h1 pre post heq, h2 pre post heq⟩

/-- A response in three parts. -/
def threeParts (first second last : Bytes) : List Op := [
  .send (.body (some first) (some true)) 1 1,
  .send (.body (some second) (some true)) 1 1,
  .send (.body (some last) none) 1 1]

section Hole
variable {first second last : Bytes}

theorem sentBodies_threeParts (h1 : first ≠ []) (h2 : second ≠ []) (h3 : last ≠ []) :
    sentBodies (threeParts first second last) = [first, second, last] := by
  simp [sentBodies_eq, threeParts, sentBody, h1, h2, h3]

/-- If the second part does not fit and the last one does, there is a hole. -/
theorem capture_skips (h1 : first ≠ []) (h2 : second ≠ []) (h3 : last ≠ [])
    (hfits : first.length ≤ contentLimit) (hfull : contentLimit < first.length + second.length)
    (hlast : first.length + last.length ≤ contentLimit) (trace : RequestTrace) :
    (run (Exchange.step true) { trace := trace }
      (threeParts first second last)).responseChunks = [first, last] ∧
    ¬ CapturedPrefix (sentBodies (threeParts first second last)) [first, last] := by
  rw [run_responseChunks, sentBodies_threeParts h1 h2 h3]
  have hpos : 0 < last.length := List.length_pos_of_ne_nil h3
  constructor
  · have hfirst : keep [] first = [first] := keep_fits (by simpa using hfits)
    have hsecond : keep [first] second = [first] := keep_full (by simpa using hfull)
    have hthird : keep [first] last = [first, last] := keep_fits (by simpa using hlast)
    change keep (keep (keep [] first) second) last = [first, last]
    rw [hfirst, hsecond, hthird]
  · intro h
    exact h.not_inside [first] (by simp; omega) (by simp; omega)

end Hole

/-- Behind a second part that is left out the last one is captured. -/
theorem captured_with_hole :
    (run (Exchange.step true) { trace := Config.newTrace chatScope readings }
      (threeParts (List.replicate 60000 97) (List.replicate 60000 98)
        (List.replicate 10 99))).responseChunks =
      [List.replicate 60000 97, List.replicate 10 99] ∧
    ¬ ∀ pre post, threeParts (List.replicate 60000 97) (List.replicate 60000 98)
        (List.replicate 10 99) = pre ++ post →
      CapturedPrefix (receivedBodies pre)
        (run (Exchange.step true) { trace := Config.newTrace chatScope readings }
          pre).requestChunks ∧
      CapturedPrefix (sentBodies pre)
        (run (Exchange.step true) { trace := Config.newTrace chatScope readings }
          pre).responseChunks := by
  have hne : ∀ (n : ℕ) (b : UInt8), List.replicate (n + 1) b ≠ [] := fun n b =>
    List.cons_ne_nil _ _
  obtain ⟨hkept, hhole⟩ := capture_skips (hne 59999 97) (hne 59999 98) (hne 9 99)
    (by rw [List.length_replicate]; decide)
    (by rw [List.length_replicate, List.length_replicate]; decide)
    (by rw [List.length_replicate, List.length_replicate]; decide)
    (Config.newTrace chatScope readings)
  refine ⟨hkept, fun h => hhole ?_⟩
  have hprefix := (h _ [] (List.append_nil _).symm).2
  rwa [hkept] at hprefix

end VllmObserver.Middleware
