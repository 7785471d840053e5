import VllmObserver.Exporter.TimelineTree

/-! # Parents are opened before their children

The sink opens the kept nodes in list order and looks every parent up among the
nodes opened before. Sorting puts an enclosing node first, and equal nodes stay
in the order they were recorded. The order therefore fails exactly where a
nested call has the clipped bounds of its submission but was recorded first. -/
namespace VllmObserver.Exporter
open VllmObserver.Lib VllmObserver.Core

/-- Every node but the root stands behind its parent. -/
def ParentsFirst (root : Node) (nodes : List Node) : Prop :=
  ∀ pre n post, nodes = pre ++ n :: post → n ≠ root → ∃ p ∈ pre, n.parentId = some p.id

/-- The lookups of the sink succeed when every parent was opened before. -/
theorem openSpans_ok_iff (nodes : List Node) :
    openSpans [none] nodes = .ok () ↔ ∀ pre n post, nodes = pre ++ n :: post →
      n.parentId = none ∨ ∃ p ∈ pre, n.parentId = some p.id := by
  -- the contexts are those of the spans opened so far, the latest first
  have aux : ∀ (rest opened : List Node),
      openSpans (opened.reverse.map (fun n => some n.id) ++ [none]) rest = .ok () ↔
        ∀ pre n post, rest = pre ++ n :: post →
          n.parentId = none ∨ ∃ p ∈ opened ++ pre, n.parentId = some p.id := by
    intro rest
    induction rest with
    | nil => simp [openSpans]
    | cons m rest ih =>
      intro opened
      have hmem : m.parentId ∈ opened.reverse.map (fun n => some n.id) ++ [none] ↔
          m.parentId = none ∨ ∃ p ∈ opened, m.parentId = some p.id := by
        simp [eq_comm, or_comm]
      rw [openSpans]
      have hih := ih (opened ++ [m])
      simp only [List.reverse_append, List.reverse_cons, List.reverse_nil, List.nil_append,
        List.map_cons, List.cons_append] at hih
      constructor
      · intro h pre n post hsplit
        split at h
        · rename_i hm
          cases pre with
          | nil =>
            obtain ⟨rfl, _⟩ := List.cons.inj hsplit
            simpa using hmem.mp hm
          | cons x pre =>
            obtain ⟨rfl, hrest⟩ := List.cons.inj hsplit
            simpa using hih.mp h pre n post hrest
        · cases h
      · intro h
        have hm := h [] m rest rfl
        rw [List.append_nil] at hm
        rw [if_pos (hmem.mpr hm)]
        refine hih.mpr fun pre n post hsplit => ?_
        simpa using h (m :: pre) n post (by rw [hsplit]; rfl)
  simpa using aux nodes []

theorem ParentsFirst.openSpans {root : Node} {nodes : List Node} (h : ParentsFirst root nodes)
    (hroot : root.parentId = none) : openSpans [none] nodes = .ok () := by
  refine (openSpans_ok_iff nodes).mpr fun pre n post hs => ?_
  by_cases hn : n = root
  · exact Or.inl (hn ▸ hroot)
  · exact Or.inr (h pre n post hs hn)

/-- They succeed exactly where parents stand first. -/
theorem openSpans_iff {root : Node} {nodes : List Node} (hroot : root.parentId = none)
    (honly : ∀ n ∈ nodes, n.parentId = none → n = root) :
    openSpans [none] nodes = .ok () ↔ ParentsFirst root nodes := by
  refine ⟨fun h pre n post hs hne => ?_, fun h => h.openSpans hroot⟩
  rcases (openSpans_ok_iff nodes).mp h pre n post hs with hn | hp
  · exact absurd (honly n (by simp [hs]) hn) hne
  · exact hp

section Parts
variable {uuid : ℕ → String} {event : Event} {root : Node} {generation : Option Node}
  {endNs : ℤ} {api transfer : Segment} {segs : List Segment} {details : List Detail}

/-- The last detail of a nested call has the bounds of the last submission and
was recorded first. -/
def Tied (details : List Detail) : Prop :=
  ∃ pre call mid submit post, details = pre ++ call :: (mid ++ submit :: post) ∧
    call.rawName ∈ nestedCalls ∧ submit.rawName = "submit_engine" ∧
    (call.startNs, call.endNs) = (submit.startNs, submit.endNs) ∧
    (∀ e ∈ mid ++ post, e.rawName ≠ call.rawName) ∧ ∀ e ∈ post, e.rawName ≠ "submit_engine"

/-- A node inside positive bounds is kept when it is not empty. -/
theorem valid_iff {a b : ℤ} {n : Node} (ha : 0 < a) (h : Inside a b n) {e : ℤ}
    (he : n.endNs = some e) : n.startNs < effectiveEnd b n ↔ n.startNs < e := by
  obtain ⟨e', he', h1, h2, _⟩ := h
  obtain rfl := Option.some.inj (he.symm.trans he')
  have hne : e ≠ 0 := by omega
  simp [effectiveEnd, he, hne]

/-- A node that encloses a kept node is kept. -/
theorem valid_of_encloses {a b : ℤ} {p n : Node} (ha : 0 < a) (hp : Inside a b p)
    (hn : Inside a b n) (h : Encloses p n) (hv : n.startNs < effectiveEnd b n) :
    p.startNs < effectiveEnd b p := by
  obtain ⟨e, f, he, hf, h1, h2⟩ := h
  rw [valid_iff ha hn hf] at hv
  rw [valid_iff ha hp he]
  omega

/-- The bounds of a detail are those of its node, which is not empty. -/
theorem Timeline.detail_node
    (h : Timeline uuid event root generation endNs api transfer segs details) {i : ℕ} {d : Detail}
    (hi : details[i]? = some d) : d.node.startNs = d.startNs ∧ d.node.endNs = some d.endNs ∧
      d.startNs < d.endNs ∧ d.node.id ∈ event.apiIntervals.map Node.id := by
  obtain ⟨m, hm, hc⟩ := details_mem h.isDetails (List.mem_of_getElem? hi)
  obtain ⟨_, _, hlt, _⟩ := detail_in_container hc
  obtain ⟨h1, h2, h3, _⟩ := detail_span hc
  exact ⟨h1, h2, by omega, List.mem_map.mpr ⟨m, hm, h3.symm⟩⟩

/-- The submission itself stays where it was clipped to. -/
theorem Timeline.submission
    (h : Timeline uuid event root generation endNs api transfer segs details) {submit : Detail}
    (hs : submitOf details = some submit) : ∃ j, details[j]? = some submit ∧
      submit.rawName = "submit_engine" ∧ (assigned details).get? "submit_engine" = some j ∧
      ((reparent event.apiIntervals details).map Detail.node)[j]? = some submit.node := by
  obtain ⟨j, hj, hjd⟩ := Option.bind_eq_some_iff.mp hs
  obtain ⟨s, hs', hn, _⟩ := (assigned_get? details "submit_engine" j).mp hj
  obtain rfl : s = submit := Option.some.inj (hs'.symm.trans hjd)
  refine ⟨j, hjd, hn, hj, ?_⟩
  rw [h.nested_getElem? hjd, place_of_not_nested (by rw [hn]; decide)]

/-- A nested call whose bounds are those of its submission but that does not
follow it is a tie. -/
theorem tied_of_lt {i j : ℕ} {d submit : Detail} (hi : details[i]? = some d)
    (hj : details[j]? = some submit) (hd : d.rawName ∈ nestedCalls)
    (hs : submit.rawName = "submit_engine") (hai : (assigned details).get? d.rawName = some i)
    (haj : (assigned details).get? "submit_engine" = some j)
    (heq : (d.startNs, d.endNs) = (submit.startNs, submit.endNs)) (hlt : i < j) :
    Tied details := by
  obtain ⟨pre, mid, post, rfl, rfl, rfl⟩ := split_pair hi hj hlt
  have hdl := ((assigned_split pre (mid ++ submit :: post) d d.rawName).mp hai).2
  rw [← List.cons_append, ← List.append_assoc] at haj
  have hsl := ((assigned_split (pre ++ d :: mid) post submit "submit_engine").mp haj).2
  refine ⟨pre, d, mid, submit, post, rfl, hd, hs, heq, fun e he => hdl e ?_, hsl⟩
  rcases List.mem_append.mp he with he | he
  · exact List.mem_append_left _ he
  · exact List.mem_append_right _ (List.mem_cons_of_mem _ he)

/-- A call that moves under its submission is enclosed by it. -/
theorem Timeline.moved_encloses
    (h : Timeline uuid event root generation endNs api transfer segs details) {i j : ℕ}
    {d submit : Detail} (hi : details[i]? = some d) (hj : details[j]? = some submit)
    (hmov : MovesUnder details i d submit) :
    Encloses submit.node (d.setParent submit.node.id).node := by
  obtain ⟨s1, s2, _, _⟩ := h.detail_node hj
  obtain ⟨d1, d2, _, _⟩ := h.detail_node hi
  have hd1 : (d.setParent submit.node.id).node.startNs = d.startNs := d1
  exact ⟨submit.endNs, d.endNs, s2, d2, by rw [s1, hd1]; exact hmov.2.2.1, hmov.2.2.2⟩

/-- Without a tie the submission is sorted before a call that moves under it. -/
theorem Timeline.submission_first
    (h : Timeline uuid event root generation endNs api transfer segs details)
    (hid : DistinctIds uuid event root generation) (hnt : ¬ Tied details) {i : ℕ}
    {d submit : Detail} (hi : details[i]? = some d) (hsub : submitOf details = some submit)
    (hmov : MovesUnder details i d submit)
    (hplace : (place details i d).node = (d.setParent submit.node.id).node) {l₁ l₂ : List Node}
    (hsort : (body root generation api transfer segs
      (reparent event.apiIntervals details)).insertionSort keyOrder =
        l₁ ++ (d.setParent submit.node.id).node :: l₂) : submit.node ∈ l₁ := by
  obtain ⟨j, hj, hsn, haj, hjn⟩ := h.submission hsub
  have henc := h.moved_encloses hi hj hmov
  by_cases hk : keyOrder (d.setParent submit.node.id).node submit.node
  · -- equal bounds: the sort is stable, and the submission was recorded first
    have hin := h.nested_getElem? hi
    rw [hplace] at hin
    obtain ⟨s1, s2, _, _⟩ := h.detail_node hj
    obtain ⟨d1, d2, _, _⟩ := h.detail_node hi
    have hd1 : (d.setParent submit.node.id).node.startNs = d.startNs := d1
    have hd2 : (d.setParent submit.node.id).node.endNs = some d.endNs := d2
    obtain ⟨hst, hen⟩ := henc.equal_of_keyOrder hk
    rw [s1, hd1] at hst
    rw [s2, hd2] at hen
    have hji : j < i := by
      rcases Nat.lt_trichotomy i j with hlt | heq | hgt
      · refine absurd (tied_of_lt hi hj hmov.1 hsn hmov.2.1 haj ?_ hlt) hnt
        rw [hst, Option.some.inj hen]
      · rw [heq] at hi
        obtain rfl := Option.some.inj (hi.symm.trans hj)
        exact absurd (hsn ▸ hmov.1) (by decide)
      · exact hgt
    have hpair : [submit.node, (d.setParent submit.node.id).node].Sublist
        (body root generation api transfer segs (reparent event.apiIntervals details)) :=
      (pair_sublist_of_lt hjn hin hji).trans (List.sublist_append_right _ _)
    exact mem_prefix_of_pair keyOrder ((h.body_ids hid).of_map).of_cons hsort hpair henc.keyOrder
  · exact mem_prefix_of_not_rel keyOrder hsort
      (List.mem_append_right _ (List.mem_of_getElem? hjn)) hk

/-- Without a tie every kept node stands behind its parent. -/
theorem Timeline.parentsFirst_of_not_tied
    (h : Timeline uuid event root generation endNs api transfer segs details)
    (hb : Bounds root generation endNs) (hid : DistinctIds uuid event root generation)
    (hnt : ¬ Tied details) :
    ParentsFirst root (validNodes endNs (root :: (body root generation api transfer segs
      (reparent event.apiIntervals details)).insertionSort keyOrder)) := by
  intro pre n post hsplit hne
  have hnv : n.startNs < effectiveEnd endNs n := by
    have hm : n ∈ validNodes endNs (root :: (body root generation api transfer segs
        (reparent event.apiIntervals details)).insertionSort keyOrder) := by rw [hsplit]; simp
    simpa using (List.mem_filter.mp hm).2
  obtain ⟨l₁, l₂, hl, rfl⟩ := filter_split hsplit
  cases l₁ with
  | nil =>
    obtain ⟨rfl, _⟩ := List.cons.inj hl
    exact absurd rfl hne
  | cons r l₁ =>
    obtain ⟨rfl, hsort⟩ := List.cons.inj hl
    have hnm : n ∈ body root generation api transfer segs
        (reparent event.apiIntervals details) :=
      (List.mem_insertionSort keyOrder).mp (by rw [hsort]; simp)
    have hni := h.body_inside hb n hnm
    -- a parent in front of the node is kept with it
    have kept : ∀ p ∈ body root generation api transfer segs
        (reparent event.apiIntervals details), Encloses p n → p ∈ l₁ →
        p ∈ (root :: l₁).filter (fun m => decide (m.startNs < effectiveEnd endNs m)) := by
      intro p hp henc hpl
      refine List.mem_filter.mpr ⟨List.mem_cons_of_mem _ hpl, ?_⟩
      simpa using valid_of_encloses hb.positive (h.body_inside hb p hp) hni henc hnv
    rcases h.body_parent hb hnm with hp | ⟨p, hp, hpar, henc, hsub⟩ |
        ⟨i, d, submit, hi, hsub, hmov, rfl, hplace⟩
    · -- the root encloses everything
      refine ⟨root, List.mem_filter.mpr ⟨by simp, ?_⟩, hp⟩
      have henc : Encloses root n := by
        obtain ⟨e, he, h1, _, h3⟩ := hni
        exact ⟨endNs, e, h.rootEnd, he, h1, h3⟩
      simpa using valid_of_encloses hb.positive
        ⟨endNs, h.rootEnd, le_refl _, hb.ordered, le_refl _⟩ hni henc hnv
    · have hnd := ((h.body_ids hid).of_map).of_cons
      exact ⟨p, kept p hp henc (mem_prefix_of_pair keyOrder hnd hsort hsub henc.keyOrder), hpar⟩
    · -- a moved call stands behind its submission
      obtain ⟨j, hj, _, _, hjn⟩ := h.submission hsub
      exact ⟨submit.node, kept submit.node (List.mem_append_right _ (List.mem_of_getElem? hjn))
        (h.moved_encloses hi hj hmov) (h.submission_first hid hnt hi hsub hmov hplace.symm hsort),
        rfl⟩

/-- A tied call moves under its submission and was recorded before it. -/
theorem Tied.moves (ht : Tied details) : ∃ i j d submit, i < j ∧ details[i]? = some d ∧
    details[j]? = some submit ∧ submit.rawName = "submit_engine" ∧
    MovesUnder details i d submit ∧ place details i d = d.setParent submit.node.id ∧
    (d.startNs, d.endNs) = (submit.startNs, submit.endNs) := by
  obtain ⟨pre, d, mid, submit, post, rfl, hcall, hsn, hspan, hdl, hsl⟩ := ht
  obtain ⟨hst, hen⟩ := Prod.mk.inj hspan
  have hi : (pre ++ d :: (mid ++ submit :: post))[pre.length]? = some d := by simp
  have hj : (pre ++ d :: (mid ++ submit :: post))[(pre ++ d :: mid).length]? = some submit := by
    rw [← List.cons_append, ← List.append_assoc]
    simp
  have hai : (assigned (pre ++ d :: (mid ++ submit :: post))).get? d.rawName =
      some pre.length := by
    rw [assigned_split]
    refine ⟨rfl, fun e he => ?_⟩
    rcases List.mem_append.mp he with he | he
    · exact hdl e (List.mem_append_left _ he)
    · rcases List.mem_cons.mp he with rfl | he
      · rintro heq
        rw [← heq, hsn] at hcall
        exact absurd hcall (by decide)
      · exact hdl e (List.mem_append_right _ he)
  have haj : (assigned (pre ++ d :: (mid ++ submit :: post))).get? "submit_engine" =
      some (pre ++ d :: mid).length := by
    rw [← List.cons_append, ← List.append_assoc, assigned_split]
    exact ⟨hsn, hsl⟩
  have hsub : submitOf (pre ++ d :: (mid ++ submit :: post)) = some submit := by
    rw [submitOf, haj, Option.bind_some, hj]
  have hmov : MovesUnder (pre ++ d :: (mid ++ submit :: post)) pre.length d submit :=
    ⟨hcall, hai, by omega, by omega⟩
  refine ⟨pre.length, (pre ++ d :: mid).length, d, submit, by simp, hi, hj, hsn, hmov, ?_, hspan⟩
  simp [place, hsub, hmov]

/-- A tied call is opened before the submission it hangs under. -/
theorem Timeline.not_parentsFirst_of_tied
    (h : Timeline uuid event root generation endNs api transfer segs details)
    (hb : Bounds root generation endNs) (hid : DistinctIds uuid event root generation)
    (hroot : root.parentId = none) (ht : Tied details) :
    ¬ ParentsFirst root (validNodes endNs (root :: (body root generation api transfer segs
      (reparent event.apiIntervals details)).insertionSort keyOrder)) := by
  obtain ⟨i, j, d, submit, hij, hi, hj, hsn, hmov, hplace, hspan⟩ := ht.moves
  obtain ⟨hst, hen⟩ := Prod.mk.inj hspan
  have hjn := h.nested_getElem? hj
  rw [place_of_not_nested (by rw [hsn]; decide)] at hjn
  have hin := h.nested_getElem? hi
  rw [hplace] at hin
  obtain ⟨s1, s2, s3, _⟩ := h.detail_node hj
  obtain ⟨d1, d2, d3, _⟩ := h.detail_node hi
  have hd1 : (d.setParent submit.node.id).node.startNs = d.startNs := d1
  have hd2 : (d.setParent submit.node.id).node.endNs = some d.endNs := d2
  -- the call and its submission, in this order in the kept list
  have hbody : [(d.setParent submit.node.id).node, submit.node].Sublist
      (body root generation api transfer segs (reparent event.apiIntervals details)) :=
    (pair_sublist_of_lt hin hjn hij).trans (List.sublist_append_right _ _)
  have hkey : keyOrder (d.setParent submit.node.id).node submit.node :=
    Encloses.keyOrder ⟨d.endNs, submit.endNs, hd2, s2, by omega, by omega⟩
  have hin1 := h.body_inside hb _ (hbody.subset (by simp : (d.setParent submit.node.id).node ∈ _))
  have hin2 := h.body_inside hb _ (hbody.subset (by simp : submit.node ∈ _))
  have hpair : [(d.setParent submit.node.id).node, submit.node].Sublist
      (validNodes endNs (root :: (body root generation api transfer segs
        (reparent event.apiIntervals details)).insertionSort keyOrder)) := by
    have hs := (((List.pair_sublist_insertionSort hkey hbody).cons root).filter
      fun m => decide (m.startNs < effectiveEnd endNs m))
    rwa [List.filter_cons_of_pos, List.filter_cons_of_pos, List.filter_nil] at hs
    · simpa using (valid_iff hb.positive hin2 s2).mpr (by omega)
    · simpa using (valid_iff hb.positive hin1 hd2).mpr (by omega)
  have hids : ((root :: (body root generation api transfer segs
      (reparent event.apiIntervals details)).insertionSort keyOrder).map Node.id).Nodup :=
    ((((List.perm_insertionSort keyOrder _).cons root).map Node.id).nodup_iff).mpr (h.body_ids hid)
  -- its parent would have to be the submission, which stands behind it
  intro hfirst
  obtain ⟨l, r, hsplit⟩ := List.append_of_mem
    (hpair.subset (by simp : (d.setParent submit.node.id).node ∈ _))
  have hne : (d.setParent submit.node.id).node ≠ root := by
    intro he
    rw [← he] at hroot
    cases hroot
  obtain ⟨p, hp, hpar⟩ := hfirst l _ r hsplit hne
  have hpid : p.id = submit.node.id := (Option.some.inj hpar).symm
  have hpm : p ∈ root :: (body root generation api transfer segs
      (reparent event.apiIntervals details)).insertionSort keyOrder :=
    List.mem_of_mem_filter (hsplit ▸ List.mem_append_left _ hp)
  have hsm := List.mem_of_mem_filter (hpair.subset (by simp : submit.node ∈ _))
  obtain rfl := List.inj_on_of_nodup_map hids hpm hsm hpid
  exact not_mem_prefix_of_sublist (hids.of_map.filter _) hsplit hpair hp

/-- Only the root of a timeline has no parent. -/
theorem Timeline.root_of_parentId_none
    (h : Timeline uuid event root generation endNs api transfer segs details)
    (hb : Bounds root generation endNs) :
    ∀ n ∈ validNodes endNs (root :: (body root generation api transfer segs
      (reparent event.apiIntervals details)).insertionSort keyOrder),
      n.parentId = none → n = root := by
  intro n hn hnone
  rcases List.mem_cons.mp (List.mem_of_mem_filter hn) with rfl | hm
  · rfl
  · rcases h.body_parent hb ((List.mem_insertionSort keyOrder).mp hm) with hp | ⟨_, _, hp, _⟩ |
        ⟨_, _, _, _, _, _, hp, _⟩
    · rw [hp] at hnone
      cases hnone
    · rw [hp] at hnone
      cases hnone
    · rw [hp] at hnone
      cases hnone

end Parts

/-! ## When the order fails, by the recorded intervals -/

/-- The leaves of the timeline: before and after the generation, and between
its cuts. -/
def leafSpans (observations : List Node) (root : Node) (generation : Option Node) (endNs : ℤ) :
    List (ℤ × ℤ) :=
  let gs := genStart generation endNs
  let ge := genEnd generation endNs
  (root.startNs, gs) :: (ge, endNs) :: match generation with
    | none => []
    | some _ => (((observedStages observations).cuts gs ge).spans gs ge).map Prod.snd

/-- The part of an API interval that is exported: what lies in the leaf of its
midpoint, unless that is empty. -/
def exportedSpan (leaves : List (ℤ × ℤ)) (n : Node) : Option (ℤ × ℤ) := do
  let e ← n.endNs
  let leaf ← leaves.find? (covers ((n.startNs + e) / 2))
  let span := (max n.startNs leaf.1, min e leaf.2)
  if nonempty span then some span else none

/-- The last exported interval of a nested call and the last exported submission
are exported with the same bounds, and the call was recorded first. -/
def SubmissionTied (leaves : List (ℤ × ℤ)) (intervals : List Node) : Prop :=
  ∃ pre call mid submit post, intervals = pre ++ call :: (mid ++ submit :: post) ∧
    call.name ∈ nestedCalls ∧ submit.name = "submit_engine" ∧
    exportedSpan leaves call ≠ none ∧ exportedSpan leaves call = exportedSpan leaves submit ∧
    (∀ n ∈ mid ++ post, n.name = call.name → exportedSpan leaves n = none) ∧
    ∀ n ∈ post, n.name = "submit_engine" → exportedSpan leaves n = none

section Parts
variable {uuid : ℕ → String} {event : Event} {root : Node} {generation : Option Node}
  {endNs : ℤ} {api transfer : Segment} {segs : List Segment} {details : List Detail}

def Segment.span (s : Segment) : ℤ × ℤ := (s.startNs, s.endNs)

/-- The containers are the leaves, but for empty ones. -/
theorem Timeline.find_container
    (h : Timeline uuid event root generation endNs api transfer segs details)
    (hb : Bounds root generation endNs) (t : ℤ) :
    (([api, transfer] ++ segs).find? (fun c => covers t c.span)).map Segment.span =
      (leafSpans event.observations root generation endNs).find? (covers t) := by
  obtain ⟨_, _, _, ha1, ha2, _⟩ := segment_spec h.isApi
  obtain ⟨_, _, _, ht1, ht2, _⟩ := segment_spec h.isTransfer
  rw [← Function.comp_def (covers t), ← List.find?_map]
  have hsegs : (segs.map Segment.span).find? (covers t) =
      (leafSpans event.observations root generation endNs).tail.tail.find? (covers t) := by
    cases hgen : generation with
    | none => simp [h.noSegments hgen, leafSpans]
    | some g =>
      subst hgen
      have hspans := congrArg (List.map Prod.snd) (h.segments_spans hb.genStart_le.2.1)
      rw [List.map_map] at hspans
      have hf := find?_covers_filter t ((((observedStages event.observations).cuts g.startNs
        (genEnd (some g) endNs)).spans g.startNs (genEnd (some g) endNs)).map Prod.snd)
      rw [List.filter_map] at hf
      exact (congrArg (List.find? (covers t)) hspans).trans hf
  have htop : (leafSpans event.observations root generation endNs) =
      api.span :: transfer.span ::
        (leafSpans event.observations root generation endNs).tail.tail := by
    simp [leafSpans, Segment.span, ha1, ha2, ht1, ht2]
  rw [htop, List.map_append, List.map_cons, List.map_cons, List.map_nil, List.cons_append,
    List.cons_append, List.nil_append, List.find?_cons, List.find?_cons, List.find?_cons,
    List.find?_cons, hsegs]

/-- Clipping keeps exactly the exported part. -/
theorem Timeline.clipped_span
    (h : Timeline uuid event root generation endNs api transfer segs details)
    (hb : Bounds root generation endNs) (n : Node) :
    (clipped ([api, transfer] ++ segs) n).map (fun d => (d.startNs, d.endNs)) =
      exportedSpan (leafSpans event.observations root generation endNs) n := by
  cases he : n.endNs with
  | none => simp [clipped, detailOf, exportedSpan, he, integer]; rfl
  | some e =>
    simp only [clipped, detailOf, he, integer, ok_bind, exportedSpan, Option.bind_eq_bind,
      Option.bind_some, ← h.find_container hb]
    rw [show (fun c : Segment => decide (c.startNs ≤ (n.startNs + e) / 2 ∧
      (n.startNs + e) / 2 < c.endNs)) = fun c => covers ((n.startNs + e) / 2) c.span from rfl]
    cases ([api, transfer] ++ segs).find? (fun c => covers ((n.startNs + e) / 2) c.span) with
    | none => rfl
    | some c =>
      by_cases hlt : max n.startNs c.startNs < min e c.endNs
      · simp only [if_neg (not_le.mpr hlt), Option.map_some, Option.bind_some, Segment.span,
          nonempty, hlt, decide_true, if_true]
      · simp only [if_pos (not_lt.mp hlt), Option.map_some, Option.map_none, Option.bind_some,
          Segment.span, nonempty, hlt, decide_false, Bool.false_eq_true, if_false]

/-- What clipping an interval says about its exported part. -/
theorem Timeline.exported_of_clipped
    (h : Timeline uuid event root generation endNs api transfer segs details)
    (hb : Bounds root generation endNs) {n : Node} {d : Detail}
    (hc : clipped ([api, transfer] ++ segs) n = some d) : d.rawName = n.name ∧
      exportedSpan (leafSpans event.observations root generation endNs) n =
        some (d.startNs, d.endNs) := by
  obtain ⟨_, _, _, _, _, _, hraw, _⟩ := clipped_spec hc
  have hs := h.clipped_span hb n
  rw [hc] at hs
  exact ⟨hraw, hs.symm⟩

/-- No interval of a name is exported where no detail bears it. -/
theorem Timeline.not_exported_iff
    (h : Timeline uuid event root generation endNs api transfer segs details)
    (hb : Bounds root generation endNs) (intervals : List Node) (name : String) :
    (∀ e ∈ intervals.filterMap (clipped ([api, transfer] ++ segs)), e.rawName ≠ name) ↔
      ∀ n ∈ intervals, n.name = name →
        exportedSpan (leafSpans event.observations root generation endNs) n = none := by
  constructor
  · intro hn n hm hname
    rw [← h.clipped_span hb n]
    cases hc : clipped ([api, transfer] ++ segs) n with
    | none => rfl
    | some d =>
      have hraw := (h.exported_of_clipped hb hc).1
      exact absurd (hraw.trans hname) (hn d (List.mem_filterMap.mpr ⟨n, hm, hc⟩))
  · intro hn e he hname
    obtain ⟨n, hm, hc⟩ := List.mem_filterMap.mp he
    obtain ⟨hraw, hspan⟩ := h.exported_of_clipped hb hc
    rw [hn n hm (hraw.symm.trans hname)] at hspan
    cases hspan

/-- A tie of the details is a tie of the recorded intervals. -/
theorem Timeline.tied_iff
    (h : Timeline uuid event root generation endNs api transfer segs details)
    (hb : Bounds root generation endNs) : Tied details ↔
      SubmissionTied (leafSpans event.observations root generation endNs) event.apiIntervals := by
  have hdet := detailsOf_spec h.isDetails
  constructor
  · rintro ⟨pre, d, mid, s, post, hsplit, hd, hs, heq, hdl, hsl⟩
    rw [hsplit] at hdet
    obtain ⟨l₁, call, rest, hl, hcall, _, hrest⟩ := filterMap_split hdet.symm
    obtain ⟨l₂, submit, l₃, rfl, hsubmit, rfl, rfl⟩ := filterMap_split hrest.symm
    obtain ⟨hcn, hcs⟩ := h.exported_of_clipped hb hcall
    obtain ⟨hsn, hss⟩ := h.exported_of_clipped hb hsubmit
    rw [← List.filterMap_append, hcn] at hdl
    refine ⟨l₁, call, l₂, submit, l₃, hl, hcn ▸ hd, hsn ▸ hs, by simp [hcs],
      by rw [hcs, hss, heq], ?_, ?_⟩
    · exact (h.not_exported_iff hb _ _).mp hdl
    · exact (h.not_exported_iff hb _ _).mp hsl
  · rintro ⟨l₁, call, l₂, submit, l₃, hl, hd, hs, hne, heq, hcl, hsl⟩
    have hcall : ∃ d, clipped ([api, transfer] ++ segs) call = some d := by
      rw [← Option.ne_none_iff_exists']
      intro hc
      rw [← h.clipped_span hb call, hc] at hne
      exact hne rfl
    have hsubmit : ∃ s, clipped ([api, transfer] ++ segs) submit = some s := by
      rw [← Option.ne_none_iff_exists']
      intro hc
      rw [heq, ← h.clipped_span hb submit, hc] at hne
      exact hne rfl
    obtain ⟨d, hcall⟩ := hcall
    obtain ⟨s, hsubmit⟩ := hsubmit
    obtain ⟨hcn, hcs⟩ := h.exported_of_clipped hb hcall
    obtain ⟨hsn, hss⟩ := h.exported_of_clipped hb hsubmit
    refine ⟨l₁.filterMap (clipped ([api, transfer] ++ segs)), d,
      l₂.filterMap (clipped ([api, transfer] ++ segs)), s,
      l₃.filterMap (clipped ([api, transfer] ++ segs)), ?_, hcn ▸ hd, hsn.trans hs, ?_, ?_, ?_⟩
    · rw [hdet, hl, List.filterMap_append, List.filterMap_cons, hcall, List.filterMap_append,
        List.filterMap_cons, hsubmit]
    · rw [hcs, hss] at heq
      exact Option.some.inj heq
    · rw [← List.filterMap_append, hcn]
      exact (h.not_exported_iff hb _ _).mpr hcl
    · exact (h.not_exported_iff hb _ _).mpr hsl

end Parts

/-- **Parents are opened first, but for one tie.** Every event of the recorders
has a timeline. Its kept nodes stand behind their parents, and the sink opens
all of them, exactly when no nested call that was recorded before its submission
is exported with the same bounds. -/
theorem timeline_parents_first (uuid : ℕ → String) (event : Event) (root : Node)
    (generation : Option Node) (endNs : ℤ) (hroot : root.parentId = none)
    (hend : root.endNs = some endNs) (hb : Bounds root generation endNs) (hr : Recorded event)
    (hid : DistinctIds uuid event root generation) :
    ∃ nodes, timelineNodes uuid event root generation = .ok nodes ∧
      (ParentsFirst root (validNodes endNs nodes) ↔
        ¬ SubmissionTied (leafSpans event.observations root generation endNs)
          event.apiIntervals) ∧
      (openSpans [none] (validNodes endNs nodes) = .ok () ↔
        ¬ SubmissionTied (leafSpans event.observations root generation endNs)
          event.apiIntervals) := by
  obtain ⟨nodes, hnodes⟩ := timelineNodes_ok uuid hr hend hb.generation_ended
  refine ⟨nodes, hnodes, ?_⟩
  obtain ⟨api, transfer, segs, details, ht, rfl⟩ := timelineNodes_timeline hnodes hend
  have hiff : ParentsFirst root (validNodes endNs (root :: (body root generation api transfer segs
      (reparent event.apiIntervals details)).insertionSort keyOrder)) ↔
      ¬ SubmissionTied (leafSpans event.observations root generation endNs)
        event.apiIntervals := by
    rw [← ht.tied_iff hb]
    constructor
    · intro hfirst htied
      exact ht.not_parentsFirst_of_tied hb hid hroot htied hfirst
    · exact ht.parentsFirst_of_not_tied hb hid
  exact ⟨hiff, (openSpans_iff hroot (ht.root_of_parentId_none hb)).trans hiff⟩

/-- A nested call inside its submission, both across the hand-off: clipping
leaves them the same bounds. -/
def tiedEvent : Event := smallEvent
  [smallGeneration, spanNode "w" "g" "waiting_to_first_schedule" 24 30]
  [spanNode "o" "r" "output_processor_add" 19 25, spanNode "s" "r" "submit_engine" 18 26]

theorem timeline_parents_first_tied :
    ∃ nodes, timelineNodes drawnId tiedEvent smallRoot (some smallGeneration) = .ok nodes ∧
      (ParentsFirst smallRoot (validNodes 100 nodes) ↔
        ¬ SubmissionTied (leafSpans tiedEvent.observations smallRoot (some smallGeneration) 100)
          tiedEvent.apiIntervals) ∧
      (openSpans [none] (validNodes 100 nodes) = .ok () ↔
        ¬ SubmissionTied (leafSpans tiedEvent.observations smallRoot (some smallGeneration) 100)
          tiedEvent.apiIntervals) :=
  timeline_parents_first drawnId tiedEvent smallRoot (some smallGeneration) 100 rfl rfl
    ⟨by decide, by decide, by rintro g ⟨⟩; exact ⟨80, rfl, by decide, by decide, by decide⟩⟩
    ⟨by decide, by decide, by decide⟩ (by unfold DistinctIds; decide)

/-- The trace of that event is lost to the lookup of the submission's span. -/
theorem timeline_parent_behind_child :
    ∃ nodes, timelineNodes drawnId tiedEvent smallRoot (some smallGeneration) = .ok nodes ∧
      openSpans [none] (validNodes 100 nodes) = .error (.keyError "s") ∧
      ¬ ParentsFirst smallRoot (validNodes 100 nodes) := by
  refine ⟨_, rfl, rfl, fun hfirst => ?_⟩
  cases hfirst.openSpans rfl

end VllmObserver.Exporter
