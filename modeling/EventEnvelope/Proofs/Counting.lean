import EventEnvelope.Counters
import EventEnvelope.Proofs.DistinctKeys
import EventEnvelope.Topic
import Mathlib.Data.List.Basic

/-! Counting by name and labels. A series is found among the counters under its sample name and its
labels, whoever asks, and counting it once more changes that sample and no other. What the counters
tell of a topic is its tally. -/

namespace EventEnvelope

namespace Series

/-- One text for each label of the family. -/
def IsFormed (s : Series) : Prop := s.labels.length = s.family.labelNames.length

/-- A series of a topic: the topic's identifier is the last of its labels. -/
structure IsOf (s : Series) (topic : Topic) : Prop where
  formed : s.IsFormed
  last : s.labels.getLast? = some (.proper topic.id)

/-- What the counters tell somebody who asks for the series by its sample name and its labels. -/
def sampled (s : Series) (c : Counters) : Nat := c.sample s.family.sampleName s.labelMap

/-- A series with one label or with two, as its family has them. -/
theorem IsFormed.cases {s : Series} (h : s.IsFormed) :
    (∃ channel topic, s = ⟨.published, [channel, topic]⟩) ∨
    (∃ topic, s = .encodingError topic) ∨ ∃ topic, s = .publishFailure topic := by
  obtain ⟨family, labels⟩ := s
  cases family with
  | published =>
    obtain ⟨channel, topic, rfl⟩ := List.length_eq_two.mp h
    exact .inl ⟨channel, topic, rfl⟩
  | encodingErrors =>
    obtain ⟨topic, rfl⟩ := List.length_eq_one_iff.mp h
    exact .inr (.inl ⟨topic, rfl⟩)
  | publishFailures =>
    obtain ⟨topic, rfl⟩ := List.length_eq_one_iff.mp h
    exact .inr (.inr ⟨topic, rfl⟩)

/-- Sample name and labels tell series apart. -/
theorem same_labelMap {s s' : Series} (formed : s.IsFormed) (formed' : s'.IsFormed) :
    (s.family.sampleName == s'.family.sampleName && Datum.same s.labelMap s'.labelMap)
      = decide (s = s') := by
  rcases formed.cases with ⟨c, t, rfl⟩ | ⟨t, rfl⟩ | ⟨t, rfl⟩ <;>
    rcases formed'.cases with ⟨c', t', rfl⟩ | ⟨t', rfl⟩ | ⟨t', rfl⟩ <;>
    simp [encodingError, publishFailure, CounterFamily.sampleName, labelMap,
      CounterFamily.labelNames, Datum.same_map, Datum.entriesIn, Datum.plain, Text.content,
      Bool.beq_eq_decide_eq]

end Series

namespace Counters

theorem count_bump (c : Counters) (s s' : Series) :
    (c.bump s).count s' = c.count s' + if s = s' then 1 else 0 := by
  unfold bump
  by_cases present : (c.any fun e => e.1 = s) = true
  · -- counting changes no series, so that the entry found is the one found before
    have found : (c.map fun e => if e.1 = s then (e.1, e.2 + 1) else e).find? (fun e => e.1 = s')
        = (c.find? fun e => e.1 = s').map fun e => if e.1 = s then (e.1, e.2 + 1) else e := by
      rw [List.find?_map]
      congr 2
      funext e
      by_cases same : e.1 = s <;> simp [same]
    rw [if_pos present, count, count, found]
    cases first : c.find? fun e => e.1 = s' with
    | none =>
      have absent : s ≠ s' := by
        rintro rfl
        obtain ⟨e, he, same⟩ := List.any_eq_true.mp present
        exact List.find?_eq_none.mp first e he same
      simp [absent]
    | some e =>
      have own : e.1 = s' := by simpa using List.find?_some first
      by_cases same : s = s'
      · simp [own, same]
      · simp [own, same, Ne.symm same]
  · rw [if_neg present, count, count, List.find?_append]
    cases first : c.find? fun e => e.1 = s' with
    | none => by_cases same : s = s' <;> simp [same]
    | some e =>
      have own : e.1 = s' := by simpa using List.find?_some first
      have other : s ≠ s' := by
        rintro rfl
        exact present
          (List.any_eq_true.mpr ⟨e, List.mem_of_find?_eq_some first, by simpa using own⟩)
      simp [other]

theorem count_foldl_bump (c : Counters) (ss : List Series) (s : Series) :
    (ss.foldl bump c).count s = c.count s + ss.count s := by
  induction ss generalizing c with
  | nil => rfl
  | cons first rest ih =>
    rw [List.foldl_cons, ih, count_bump, List.count_cons]
    simp only [beq_iff_eq]
    omega

def IsFormed (c : Counters) : Prop := ∀ e ∈ c, e.1.IsFormed

theorem IsFormed.bump {c : Counters} {s : Series} (h : c.IsFormed) (formed : s.IsFormed) :
    (c.bump s).IsFormed := by
  intro e he
  unfold Counters.bump at he
  split at he
  · obtain ⟨old, listed, rfl⟩ := List.mem_map.mp he
    split
    · exact h old listed
    · exact h old listed
  · rcases List.mem_append.mp he with old | new
    · exact h e old
    · rw [List.mem_singleton.mp new]
      exact formed

theorem IsFormed.foldl_bump {c : Counters} {ss : List Series} (h : c.IsFormed)
    (formed : ∀ s ∈ ss, s.IsFormed) : (ss.foldl Counters.bump c).IsFormed := by
  induction ss generalizing c with
  | nil => exact h
  | cons first rest ih =>
    rw [List.forall_mem_cons] at formed
    exact ih (h.bump formed.1) formed.2

end Counters

theorem Series.sampled_eq_count {c : Counters} (h : c.IsFormed) {s : Series} (formed : s.IsFormed) :
    s.sampled c = c.count s := by
  unfold sampled Counters.sample Counters.count
  have same : c.find? (fun e => e.1.family.sampleName == s.family.sampleName
      && Datum.same e.1.labelMap s.labelMap) = c.find? fun e => e.1 = s := by
    induction c with
    | nil => rfl
    | cons e r ih =>
      have rest : Counters.IsFormed r := fun e he => h e (List.mem_cons_of_mem _ he)
      rw [List.find?_cons, List.find?_cons, same_labelMap (h e List.mem_cons_self) formed, ih rest]
  rw [same]

/-- What the counters tell of one topic. -/
@[ext] structure Tally where
  rejected : Nat
  failed : Nat
  standard : Nat
  legacy : Nat
deriving DecidableEq, Repr

namespace Tally

instance : Zero Tally := ⟨⟨0, 0, 0, 0⟩⟩

instance : Add Tally := ⟨fun a b =>
  ⟨a.rejected + b.rejected, a.failed + b.failed, a.standard + b.standard, a.legacy + b.legacy⟩⟩

@[simp] theorem rejected_add (a b : Tally) : (a + b).rejected = a.rejected + b.rejected := rfl

@[simp] theorem failed_add (a b : Tally) : (a + b).failed = a.failed + b.failed := rfl

@[simp] theorem standard_add (a b : Tally) : (a + b).standard = a.standard + b.standard := rfl

@[simp] theorem legacy_add (a b : Tally) : (a + b).legacy = a.legacy + b.legacy := rfl

@[simp] theorem standard_zero : (0 : Tally).standard = 0 := rfl

@[simp] theorem legacy_zero : (0 : Tally).legacy = 0 := rfl

theorem add_zero (a : Tally) : a + 0 = a := rfl

/-- How often each outcome of a topic is counted by the given series. -/
def ofSeries (topic : Topic) (ss : List Series) : Tally where
  rejected := ss.count (.encodingError topic.id)
  failed := ss.count (.publishFailure topic.id)
  standard := ss.count (.standardPublished topic.id)
  legacy := ss.count (.legacyPublished topic.id)

theorem ofSeries_encodingError (topic : Topic) :
    ofSeries topic [.encodingError topic.id] = ⟨1, 0, 0, 0⟩ := by
  simp [ofSeries, Series.encodingError, Series.publishFailure, Series.standardPublished,
    Series.legacyPublished]

theorem ofSeries_publishFailure (topic : Topic) :
    ofSeries topic [.publishFailure topic.id] = ⟨0, 1, 0, 0⟩ := by
  simp [ofSeries, Series.encodingError, Series.publishFailure, Series.standardPublished,
    Series.legacyPublished]

/-- Series of one topic count nothing of another. -/
theorem ofSeries_of_ne {topic other : Topic} {ss : List Series} (own : ∀ s ∈ ss, s.IsOf topic)
    (apart : other ≠ topic) : ofSeries other ss = 0 := by
  have uncounted {s : Series} (others : s.labels.getLast? = some (.proper other.id)) :
      ss.count s = 0 := by
    rw [List.count_eq_zero]
    intro listed
    have last := (own s listed).last
    rw [others, Option.some.injEq, CodeText.proper.injEq, Topic.id_inj] at last
    exact apart last
  apply Tally.ext
  · exact uncounted rfl
  · exact uncounted rfl
  · exact uncounted rfl
  · exact uncounted rfl

end Tally

namespace Counters

def tally (c : Counters) (topic : Topic) : Tally where
  rejected := (Series.encodingError topic.id).sampled c
  failed := (Series.publishFailure topic.id).sampled c
  standard := (Series.standardPublished topic.id).sampled c
  legacy := (Series.legacyPublished topic.id).sampled c

theorem tally_nil (topic : Topic) : tally [] topic = 0 := rfl

/-- Counting series adds to the tally of a topic what they count of it. -/
theorem tally_foldl_bump {c : Counters} {ss : List Series} (h : c.IsFormed)
    (formed : ∀ s ∈ ss, s.IsFormed) (topic : Topic) :
    (ss.foldl bump c).tally topic = c.tally topic + .ofSeries topic ss := by
  have counted {s : Series} (own : s.IsFormed) :
      s.sampled (ss.foldl bump c) = s.sampled c + ss.count s := by
    rw [Series.sampled_eq_count (h.foldl_bump formed) own, Series.sampled_eq_count h own,
      count_foldl_bump]
  apply Tally.ext
  · exact counted rfl
  · exact counted rfl
  · exact counted rfl
  · exact counted rfl

end Counters

end EventEnvelope
