import EventEnvelope.Proofs.Json.Image
import EventEnvelope.Proofs.Wire.Found

/-! What a reader of the JSON form finds in a text without doubles, whoever wrote it. Main
statements: every tree stands for a value of this kind, and every such value comes back from its own
JSON form as it was. -/

namespace EventEnvelope

namespace Datum

/-- What a tree stands for: leaves, tagged texts, lists, and maps under distinct names that do not
count as a tagged value. No text that was read holds a pair of surrogates. -/
inductive IsNoted : Datum → Prop
  | null : IsNoted null
  | flag (b : Bool) : IsNoted (flag b)
  | number (n : Int) : IsNoted (number n)
  | plain {s : CodeText} (unpaired : s.isUnpaired = true) : IsNoted (plain s)
  | address {a : Address} (unpaired : a.text.isUnpaired = true) : IsNoted (address a)
  | symbol {s : Symbol} (unpaired : s.text.isUnpaired = true) : IsNoted (symbol s)
  | list {xs : List Datum} (parts : ∀ x ∈ xs, IsNoted x) : IsNoted (list xs)
  | map {es : List (Datum × Datum)} (keys : DistinctTexts es)
      (names : ∀ e ∈ es, ∃ s, e.1 = .plain s ∧ s.isUnpaired = true)
      (values : ∀ e ∈ es, IsNoted e.2) (untagged : Json.untag es = map es) : IsNoted (map es)

/-- Whatever is not a text is shown in characters alone. -/
theorem IsNoted.unpaired_display {d : Datum} (h : d.IsNoted) : d.display.isUnpaired = true := by
  cases h with
  | plain unpaired => exact unpaired
  | address unpaired => exact unpaired
  | symbol unpaired => exact unpaired
  | _ => exact CodeText.isUnpaired_proper _

/-- The members of an object once repeated names are merged. -/
structure AreMembers (es : List (Datum × Datum)) : Prop where
  keys : DistinctTexts es
  names : ∀ e ∈ es, ∃ s, e.1 = plain s ∧ s.isUnpaired = true
  values : ∀ e ∈ es, IsNoted e.2

theorem AreMembers.insert {es : List (Datum × Datum)} {s : CodeText} {v : Datum}
    (h : AreMembers es) (unpaired : s.isUnpaired = true) (noted : v.IsNoted) :
    AreMembers (insert es (plain s) v) where
  keys := h.keys.inserted rfl v
  names := by
    unfold Datum.insert
    split
    · intro e he
      obtain ⟨e', he', rfl⟩ := List.mem_map.mp he
      split <;> exact h.names e' he'
    · intro e he
      rcases List.mem_append.mp he with he | he
      · exact h.names e he
      · exact ⟨s, by rw [List.mem_singleton.mp he], unpaired⟩
  values := forall_insert h.values noted

theorem areMembers_ofEntries {es : List (Datum × Datum)}
    (h : ∀ e ∈ es, (∃ s, e.1 = plain s ∧ s.isUnpaired = true) ∧ e.2.IsNoted) :
    AreMembers (ofEntries es) := by
  refine List.foldlRecOn es _ ⟨.nil, by simp, by simp⟩ ?_
  intro m members e he
  obtain ⟨⟨s, name, unpaired⟩, noted⟩ := h e he
  rw [name]
  exact members.insert unpaired noted

/-- An object is a tagged text or the map of its members. -/
theorem AreMembers.untag {es : List (Datum × Datum)} (h : AreMembers es) :
    (Json.untag es).IsNoted := by
  by_cases untagged : Json.untag es = .map es
  · rw [untagged]
    exact .map h.keys h.names h.values untagged
  · unfold Json.untag at untagged ⊢
    split
    · next k v =>
      have unpaired := (h.values (k, v) (by simp)).unpaired_display
      split
      · exact .address unpaired
      · split
        · exact .symbol unpaired
        · next address symbol => simp [address, symbol] at untagged
    · simp at untagged

end Datum

namespace Json

open Datum (IsNoted)

mutual

/-- Every tree that may have been read, but for doubles, stands for such a value. -/
theorem noted_toDatum : (j : Json) → j.isLegible = true → (toDatum j).IsNoted
  | null, _ => .null
  | flag b, _ => .flag b
  | integer n, _ => .number n
  | text _, legible => .plain legible
  | array xs, legible => .list (noted_toData xs legible)
  | object ms, legible => (Datum.areMembers_ofEntries (noted_toEntries ms legible)).untag

theorem noted_toData : (js : List Json) → areLegible js = true → ∀ d ∈ toData js, d.IsNoted
  | [], _ => by simp [toData]
  | j :: js, legible => by
    rw [areLegible, Bool.and_eq_true] at legible
    rw [toData, List.forall_mem_cons]
    exact ⟨noted_toDatum j legible.1, noted_toData js legible.2⟩

theorem noted_toEntries : (ms : List (CodeText × Json)) → areMembersLegible ms = true →
    ∀ e ∈ toEntries ms, (∃ s, e.1 = .plain s ∧ s.isUnpaired = true) ∧ e.2.IsNoted
  | [], _ => by simp [toEntries]
  | (s, j) :: ms, legible => by
    rw [areMembersLegible, Bool.and_eq_true, Bool.and_eq_true] at legible
    rw [toEntries, List.forall_mem_cons]
    exact ⟨⟨⟨s, rfl, legible.1.1⟩, noted_toDatum j legible.1.2⟩, noted_toEntries ms legible.2⟩

end

theorem rendersEntries_keeps {es : List (Datum × Datum)}
    (names : ∀ e ∈ es, ∃ s, e.1 = .plain s ∧ s.isUnpaired = true)
    (values : ∀ e ∈ es, Keeps e.2) : ∃ ms, RendersEntries es ms es := by
  induction es with
  | nil => exact ⟨[], rendersEntries_nil⟩
  | cons e es ih =>
    obtain ⟨k, d⟩ := e
    obtain ⟨s, rfl, unpaired⟩ := names (k, d) (by simp)
    obtain ⟨j, first⟩ := values (.plain s, d) (by simp)
    obtain ⟨ms, rest⟩ := ih (fun x hx => names x (by simp [hx])) fun x hx => values x (by simp [hx])
    exact ⟨_, rest.cons rfl unpaired first⟩

/-- Whatever a tree stood for comes back from its own JSON form as it was. -/
theorem keeps_noted {d : Datum} (h : d.IsNoted) : Keeps d := by
  induction h with
  | null => exact ⟨_, renders_null⟩
  | flag b => exact ⟨_, renders_flag b⟩
  | number n => exact ⟨_, renders_number n⟩
  | plain unpaired => exact ⟨_, renders_plain rfl unpaired⟩
  | address unpaired => exact ⟨_, renders_address unpaired⟩
  | symbol unpaired => exact ⟨_, renders_symbol unpaired⟩
  | list parts ih =>
    obtain ⟨js, trees⟩ := rendersAll_keeps ih
    exact ⟨_, .list trees⟩
  | map keys names values untagged ih =>
    obtain ⟨ms, trees⟩ := rendersEntries_keeps names ih
    exact ⟨_, .map trees keys untagged⟩

end Json

namespace Datum

/-- The elements of such a value are such values: those of a list, the characters of a text and the
names of a map. -/
theorem IsNoted.elements {d : Datum} {xs : List Datum} (noted : d.IsNoted)
    (listed : d.elements? = some xs) : ∀ x ∈ xs, x.IsNoted := by
  have characters (s : CodeText) : ∀ x ∈ characters s, x.IsNoted := by
    intro x hx
    obtain ⟨p, _, rfl⟩ := List.mem_map.mp hx
    exact .plain (CodeText.isUnpaired_single p)
  cases noted with
  | plain unpaired => cases listed; exact characters _
  | address unpaired => cases listed; exact characters _
  | symbol unpaired => cases listed; exact characters _
  | list parts => cases listed; exact parts
  | map keys names values untagged =>
    cases listed
    intro x hx
    obtain ⟨e, he, rfl⟩ := List.mem_map.mp hx
    obtain ⟨s, name, unpaired⟩ := names e he
    rw [name]
    exact .plain unpaired
  | _ => cases listed

theorem IsNoted.value {es : List (Datum × Datum)} (noted : (Datum.map es).IsNoted) :
    ∀ e ∈ es, e.2.IsNoted := by
  cases noted with
  | map keys names values untagged => exact values

end Datum

end EventEnvelope
