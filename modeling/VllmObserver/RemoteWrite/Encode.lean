import Mathlib.Data.String.Basic
import VllmObserver.Metrics.Sound

/-! # Encoding the registry

`encode_registry` makes a series of every sample, under the sample's labels, the
identity of the writer and the sample's name. Where they meet the later one
wins, so the series of two samples could become one. They stay apart: the labels
of a metric that the identity replaces have the identity's values already. -/
namespace VllmObserver.RemoteWrite
open VllmObserver.Lib VllmObserver.Core VllmObserver.Exporter VllmObserver.Metrics

/-- What `registry.collect()` yields for the children of the metrics. -/
structure Sample where
  name : String
  labels : Dict String String
  value : Flt

structure TimeSeries where
  labels : List (String × String)
  samples : List (Flt × ℤ)

section Encode
variable (identity : Dict String String) (timestampMs : ℤ)

/-- `{**sample.labels, **identity, "__name__": sample.name}`. -/
def merged (sample : Sample) : Dict String String :=
  (sample.labels.update identity.entries).set "__name__" sample.name

def encodeSample (sample : Sample) : TimeSeries where
  labels := (merged identity sample).sorted
  samples := [(sample.value, timestampMs)]

/-- The request, before it is serialised and compressed. -/
def encodeRegistry (samples : List Sample) : List TimeSeries :=
  samples.map (encodeSample identity timestampMs)

end Encode

/-! ## Collecting -/

/-- The samples of a child by the suffix of their name, with the labels they
have in addition. -/
def suffixes : Kind → List (String × List String)
  | .gauge => [("", [])]
  | .counter => [("_total", []), ("_created", [])]
  | .histogram => [("_bucket", ["le"]), ("_count", []), ("_sum", []), ("_created", [])]

/-- The names of a metric's samples, with their labels. -/
def series (family : Family) : List (String × List String) :=
  (suffixes family.kind).map fun (suffix, extra) =>
    (family.name ++ suffix, family.labelNames ++ extra)

def children (r : Registry) (family : Family) : List Child :=
  (if family.kind = .histogram then r.observed.keys else r.numbers.keys).filter
    (·.1 = family.name)

/-- The sample comes from a child of a registered metric. -/
def FromChild (r : Registry) (sample : Sample) : Prop :=
  ∃ family ∈ r.families, ∃ child ∈ children r family, ∃ extra labelNames,
    (sample.name, labelNames) ∈ series family ∧
    labelNames.length = (child.2 ++ extra).length ∧
    sample.labels = Dict.ofList (labelNames.zip (child.2 ++ extra))

/-- Two samples for the receiver's one series. -/
def Sample.Same (a b : Sample) : Prop :=
  a.name = b.name ∧ ∀ label, label ∈ a.labels.entries ↔ label ∈ b.labels.entries

/-- What the client promises of `registry.collect()`: samples of the children,
and no two with the same name and labels. -/
structure Collected (r : Registry) (samples : List Sample) : Prop where
  origin : ∀ sample ∈ samples, FromChild r sample
  distinct : samples.Pairwise fun a b => ¬ a.Same b

/-! ## A series -/

/-- The series is valid, is the instance's, and stands for the sample alone. -/
structure Encodes (labels : Labels) (timestampMs : ℤ) (sample : Sample) (series : TimeSeries) :
    Prop where
  increasing : (series.labels.map Prod.fst).Pairwise (· < ·)
  name : ("__name__", sample.name) ∈ series.labels
  job : ("job", "observer") ∈ series.labels
  service : ("service", labels.service) ∈ series.labels
  model : ("model", labels.model) ∈ series.labels
  instanceId : ("instance_id", labels.instanceId) ∈ series.labels
  kept : ∀ label ∈ sample.labels.entries, label ∈ series.labels
  only : ∀ label ∈ series.labels, label ∈ sample.labels.entries ∨
    label ∈ labels.identity.entries ∨ label = ("__name__", sample.name)
  samples : series.samples = [(sample.value, timestampMs)]

def TimeSeries.Same (a b : TimeSeries) : Prop := ∀ label, label ∈ a.labels ↔ label ∈ b.labels

/-- A label has one value. -/
theorem Encodes.value_unique {labels : Labels} {timestampMs : ℤ} {sample : Sample}
    {series : TimeSeries} (h : Encodes labels timestampMs sample series) {a b : String × String}
    (ha : a ∈ series.labels) (hb : b ∈ series.labels) (hab : a.1 = b.1) : a = b :=
  List.inj_on_of_nodup_map (h.increasing.imp ne_of_lt) ha hb hab

/-! ## The samples of a sound registry -/

theorem metrics_nodup : (allMetrics.map Family.name).Nodup := by decide +kernel

/-- No two metrics have samples of one name. -/
theorem series_nodup : ((allMetrics.flatMap series).map Prod.fst).Nodup := by decide +kernel

theorem not_reserved : ∀ s ∈ allMetrics.flatMap series, "__name__" ∉ s.2 := by decide +kernel

/-- The labels of the sample are those of its metric, and those of the identity
among them are the instance's. -/
structure Own (labels : Labels) (sample : Sample) : Prop where
  names : ∃ labelNames, (sample.name, labelNames) ∈ allMetrics.flatMap series ∧
    ∀ name, name ∈ sample.labels.keys ↔ name ∈ labelNames
  agrees : ∀ name value, (name, value) ∈ sample.labels.entries →
    ∀ own, labels.identity.get? name = some own → value = own

section Own
variable {labels : Labels} {r : Registry} {family : Family} {child : Child} {sample : Sample}

theorem Own.not_reserved (h : Own labels sample) : "__name__" ∉ sample.labels.keys := by
  obtain ⟨labelNames, hmem, hnames⟩ := h.names
  rw [hnames]
  exact RemoteWrite.not_reserved _ hmem

/-- The name of a child is that of one metric. -/
theorem childOf_children (h : Sound labels r) (hf : family ∈ r.families)
    (hc : child ∈ children r family) : ChildOf labels family child := by
  obtain ⟨hchild, hname⟩ := List.mem_filter.mp hc
  have hsound : ∃ family' ∈ r.families, ChildOf labels family' child := by
    split at hchild
    · obtain ⟨family', hf', -, hc'⟩ := h.observed child hchild
      exact ⟨family', hf', hc'⟩
    · obtain ⟨family', hf', -, hc'⟩ := h.numbers child hchild
      exact ⟨family', hf', hc'⟩
  obtain ⟨family', hf', hc'⟩ := hsound
  have heq : family' = family := List.inj_on_of_nodup_map metrics_nodup (h.known _ hf')
    (h.known _ hf) (hc'.name.symm.trans (of_decide_eq_true hname))
  exact heq ▸ hc'

/-- The identity has no label that only some samples of a metric have. -/
theorem identity_extra {kind : Kind} {suffix : String} {extraNames : List String}
    (h : (suffix, extraNames) ∈ suffixes kind) : ∀ name ∈ extraNames,
    labels.identity.get? name = none := by
  intro name hname
  have hle : name = "le" := by
    cases kind <;> simp only [suffixes, List.mem_cons, List.not_mem_nil, or_false,
      Prod.mk.injEq] at h
    · rw [h.2] at hname
      cases hname
    · rcases h with ⟨-, rfl⟩ | ⟨-, rfl⟩ <;> cases hname
    · rcases h with ⟨-, rfl⟩ | ⟨-, rfl⟩ | ⟨-, rfl⟩ | ⟨-, rfl⟩
      · exact List.mem_singleton.mp hname
      all_goals cases hname
  rw [hle]
  rfl

theorem own_of_fromChild (h : Sound labels r) (hs : FromChild r sample) : Own labels sample := by
  obtain ⟨family, hf, child, hc, extra, labelNames, hseries, hlength, hlabels⟩ := hs
  have hchild := childOf_children h hf hc
  constructor
  · refine ⟨labelNames, List.mem_flatMap.mpr ⟨family, h.known family hf, hseries⟩, fun name => ?_⟩
    rw [hlabels, Dict.ofList, Dict.mem_keys_update, List.map_fst_zip hlength.le]
    simp
  · intro name value hmem own hown
    obtain ⟨⟨suffix, extraNames⟩, hsuffix, heq⟩ := List.mem_map.mp hseries
    obtain ⟨-, rfl⟩ := Prod.mk.inj heq
    rw [hlabels, Dict.mem_entries_iff] at hmem
    have hzip : (name, value) ∈ (family.labelNames ++ extraNames).zip (child.2 ++ extra) := by
      simpa using Dict.mem_of_get?_update hmem
    rw [List.zip_append hchild.length.symm, List.mem_append] at hzip
    rcases hzip with hzip | hzip
    · exact hchild.agrees name value hzip own hown
    · rw [identity_extra hsuffix name (List.of_mem_zip hzip).1] at hown
      cases hown

end Own

/-! ## The request -/

section Series
variable {labels : Labels} {timestampMs : ℤ} {a b sample : Sample} {A B : TimeSeries}

theorem get?_merged (identity : Dict String String) (sample : Sample) (name : String) :
    (merged identity sample).get? name = if name = "__name__" then some sample.name
      else (identity.get? name).or (sample.labels.get? name) := by
  rw [merged, Dict.get?_set, Dict.get?_update_dict]

theorem mem_encodeSample {identity : Dict String String} {name value : String} :
    (name, value) ∈ (encodeSample identity timestampMs sample).labels ↔
      (merged identity sample).get? name = some value :=
  Dict.mem_sorted.trans Dict.mem_entries_iff

/-- The identity overrides only labels that agree with it. -/
theorem encodes (h : Own labels sample) :
    Encodes labels timestampMs sample (encodeSample labels.identity timestampMs sample) where
  increasing := Dict.sorted_increasing _
  name := mem_encodeSample.mpr (by rw [get?_merged, if_pos rfl])
  job := mem_encodeSample.mpr (by rw [get?_merged, if_neg (by decide)]; rfl)
  service := mem_encodeSample.mpr (by rw [get?_merged, if_neg (by decide)]; rfl)
  model := mem_encodeSample.mpr (by rw [get?_merged, if_neg (by decide)]; rfl)
  instanceId := mem_encodeSample.mpr (by rw [get?_merged, if_neg (by decide)]; rfl)
  kept := by
    rintro ⟨name, value⟩ hmem
    have hne : name ≠ "__name__" := by
      rintro rfl
      exact h.not_reserved (List.mem_map_of_mem hmem)
    rw [mem_encodeSample, get?_merged, if_neg hne]
    cases hown : labels.identity.get? name with
    | none => exact Dict.mem_entries_iff.mp hmem
    | some own => rw [h.agrees name value hmem own hown, Option.some_or]
  only := by
    rintro ⟨name, value⟩ hmem
    rw [mem_encodeSample, get?_merged] at hmem
    split at hmem
    · rename_i hname
      exact .inr (.inr (by rw [hname, Option.some.inj hmem]))
    · cases hown : labels.identity.get? name with
      | none =>
        rw [hown, Option.none_or] at hmem
        exact .inl (Dict.mem_entries_of_get? hmem)
      | some own =>
        rw [hown, Option.some_or] at hmem
        exact .inr (.inl (Dict.mem_entries_of_get? (hmem ▸ hown)))
  samples := rfl

theorem TimeSeries.Same.symm (h : A.Same B) : B.Same A := fun label => (h label).symm

/-- Samples of one name have the same label names, so a label of the one is a
label of the other once their series agree. -/
theorem labels_subset (ha : Own labels a) (hb : Own labels b) (hA : Encodes labels timestampMs a A)
    (hB : Encodes labels timestampMs b B) (hname : a.name = b.name) (h : A.Same B) :
    ∀ label ∈ a.labels.entries, label ∈ b.labels.entries := by
  intro label hmem
  obtain ⟨namesA, hseriesA, hkeysA⟩ := ha.names
  obtain ⟨namesB, hseriesB, hkeysB⟩ := hb.names
  have hnames : namesA = namesB :=
    (Prod.mk.inj (List.inj_on_of_nodup_map series_nodup hseriesA hseriesB hname)).2
  have hkey : label.1 ∈ b.labels.keys := by
    rw [hkeysB, ← hnames, ← hkeysA]
    exact List.mem_map_of_mem hmem
  obtain ⟨own, hown, hfst⟩ := List.mem_map.mp hkey
  have heq : own = label :=
    hB.value_unique (hB.kept own hown) ((h label).mp (hA.kept label hmem)) hfst
  exact heq ▸ hown

theorem same_of_same (ha : Own labels a) (hb : Own labels b) (hA : Encodes labels timestampMs a A)
    (hB : Encodes labels timestampMs b B) (h : A.Same B) : a.Same b := by
  have hname : a.name = b.name :=
    (Prod.mk.inj (hB.value_unique ((h _).mp hA.name) hB.name rfl)).2
  exact ⟨hname, fun label => ⟨labels_subset ha hb hA hB hname h label,
    labels_subset hb ha hB hA hname.symm h.symm label⟩⟩

end Series

/-- **Every series of a request is valid, and no two are the same.** -/
theorem series_valid (client : Client) (reader : Reader) (labels : Labels) (ops : List MetricsOp)
    (timestampMs : ℤ) (samples : List Sample)
    (h : Collected (run (step client reader labels) (create labels) ops) samples) :
    List.Forall₂ (Encodes labels timestampMs) samples
      (encodeRegistry labels.identity timestampMs samples) ∧
    (encodeRegistry labels.identity timestampMs samples).Pairwise fun a b => ¬ a.Same b := by
  have hown : ∀ sample ∈ samples, Own labels sample := fun sample hmem =>
    own_of_fromChild (sound_run client reader labels ops) (h.origin sample hmem)
  constructor
  · rw [encodeRegistry, List.forall₂_map_right_iff, List.forall₂_same]
    exact fun sample hmem => encodes (hown sample hmem)
  · rw [encodeRegistry, List.pairwise_map]
    refine h.distinct.imp_of_mem fun {a b} ha hb hne hsame => hne ?_
    exact same_of_same (hown a ha) (hown b hb) (encodes (hown a ha)) (encodes (hown b hb)) hsame

/-! ## A started writer -/

def sampleOf (family : Family) (suffix : String) (values : List String) (value : Flt) : Sample :=
  ⟨family.name ++ suffix, Dict.ofList (family.labelNames.zip values), value⟩

def startedOps : List MetricsOp := [.inflight 1, .createWriter, .alive 1, .pushFailed]

def startedRegistry : Registry :=
  run (step counting someNumbers replica) (create replica) startedOps

/-- The samples of the children, in the order of their metrics. -/
def startedChildren : List (Family × String × List String × Flt) := [
  (info, "", replica.values, .fin 1), (inflight, "", replica.values, .fin 1),
  (langfuseUnavailable, "", [], 0), (heartbeat, "", [], 0), (alive, "", [], .fin 1),
  (healthy, "", [], 0), (failures, "_total", [], .fin 1),
  (failures, "_created", [], .fin 1700000000)]

def startedSamples : List Sample :=
  startedChildren.map fun (family, suffix, values, value) => sampleOf family suffix values value

theorem collected_started : Collected startedRegistry startedSamples where
  origin := by
    have hchildren : ∀ c ∈ startedChildren, c.1 ∈ startedRegistry.families ∧
        c.1.labels c.2.2.1 ∈ children startedRegistry c.1 ∧ (c.2.1, []) ∈ suffixes c.1.kind ∧
        c.1.labelNames.length = c.2.2.1.length := by decide +kernel
    intro sample hmem
    obtain ⟨⟨family, suffix, values, value⟩, hc, rfl⟩ := List.mem_map.mp hmem
    obtain ⟨hf, hchild, hsuffix, hlength⟩ := hchildren _ hc
    exact ⟨family, hf, _, hchild, [], family.labelNames,
      List.mem_map.mpr ⟨_, hsuffix, congrArg (Prod.mk _) (List.append_nil _)⟩,
      by rwa [List.append_nil],
      by rw [List.append_nil]; rfl⟩
  distinct := by
    have hnames : (startedSamples.map Sample.name).Nodup := by decide +kernel
    exact (List.pairwise_map.mp hnames).imp fun hne hsame => hne hsame.1

theorem series_valid_started :
    List.Forall₂ (Encodes replica 7) startedSamples
      (encodeRegistry replica.identity 7 startedSamples) ∧
    ((encodeRegistry replica.identity 7 startedSamples).Pairwise fun a b => ¬ a.Same b) ∧
    (encodeSample replica.identity 7 (sampleOf info "" replica.values (.fin 1))).labels =
      [("__name__", "observer_instance_info"), ("instance_id", "host"), ("job", "observer"),
        ("model", "unknown"), ("service", "vllm")] := by
  have h := series_valid counting someNumbers replica startedOps 7 startedSamples collected_started
  exact ⟨h.1, h.2, by decide +kernel⟩

end VllmObserver.RemoteWrite
