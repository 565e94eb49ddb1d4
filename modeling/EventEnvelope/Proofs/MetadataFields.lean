import EventEnvelope.Proofs.OlderRecord
import EventEnvelope.Proofs.Rebuilding

/-! Metadata from single fields, each encoded by itself. Main statement: fields make metadata
exactly when every key is in the vocabulary, no two name the same member and there are values under
each that an event can hold; then a key finds the values of its own field, in their order, and a key
that no field names finds nothing. -/

namespace EventEnvelope

variable {α : Type} {limit? : Option Nat}

namespace Build

variable {s : Surroundings} {P : Prop} {promised : α → Surroundings → Prop}

/-- What settles a condition and asks for nothing but the settings returns exactly if the condition
holds. It fails with an encoding fault, or with the faults of settings that cannot be read. -/
theorem Settles.answer {x : Build α} (h : x.Settles s P promised) (asks : x.Asks) :
    ((∃ a, (x s).1 = .ok a) ↔ P) ∧
    (¬P → (∃ fault, (x s).1 = .error (.encoding fault)) ∨
      ∃ faults, (x s).1 = .error (.invalid faults) ∧ s.config.settings.1 = .error faults) ∧
    ∀ a, (x s).1 = .ok a → ∃ s', promised a s' := by
  cases h with
  | @returned a s' run holds kept =>
    rw [run]
    refine ⟨by simp [holds], fun fails => absurd holds fails, ?_⟩
    rintro _ ⟨⟩
    exact ⟨s', kept⟩
  | @refused e s' run fails encodable =>
    have failure := asks.repeats.encoding_or_unreadable (congrArg Prod.fst run) encodable
    rw [run]
    refine ⟨by simp [fails], fun _ => ?_, by simp⟩
    rcases failure with ⟨fault, rfl⟩ | ⟨faults, rfl, unreadable⟩
    · exact .inl ⟨fault, rfl⟩
    · exact .inr ⟨faults, rfl, unreadable⟩

end Build

namespace Metadata

/-- Fields that make metadata: each key names a member of the vocabulary, no two the same one, and
there are values under it, each of which an event can hold. -/
structure AreFields (limit? : Option Nat) (fields : List (Datum × List Datum)) : Prop where
  named : ∀ f ∈ fields, ∃ k : MetadataKey, f.1.content? = some (.proper k.id)
  filled : ∀ f ∈ fields, f.2 ≠ [] ∧ ∀ d ∈ f.2, d.IsElement limit?
  distinct : fields.Pairwise fun f g =>
    ∀ k : MetadataKey, f.1.content? = some (.proper k.id) → g.1.content? ≠ some (.proper k.id)

/-- What a field is encoded as: its values made typed, in their order, under the member that its key
names. -/
structure Encodes (limit? : Option Nat) (field : Datum × List Datum)
    (e : MetadataKey × List Value) :
    Prop where
  key : field.1.content? = some (.proper e.1.id)
  values : List.Forall₂ (Datum.Becomes limit?) field.2 e.2

/-- Metadata as the mapping that callers look keys up in. -/
def toDatum (m : Metadata) : Datum := Envelope.metadataMap m.toEntries

/-- The one value among the values of a key. -/
def single (k : MetadataKey) : List Value → Except Failure Datum
  | [v] => .ok v.toDatum
  | vs => .error (.manyValues k vs.length)

/-- What a key finds in metadata that was made of fields: the typed values of the field that names
the same member, and the one among them if there is just one; nothing if no field names it. -/
structure Finds (m : Metadata) (limit? : Option Nat) (fields : List (Datum × List Datum))
    (key : Datum) (k : MetadataKey) : Prop where
  given : ∀ f ∈ fields, f.1.content? = some (.proper k.id) → ∃ vs : List Value,
    List.Forall₂ (Datum.Becomes limit?) f.2 vs ∧
    lookup m.toDatum key = .ok (.tuple (vs.map Value.toDatum)) ∧
    lookupOne m.toDatum key = single k vs
  absent : (∀ f ∈ fields, f.1.content? ≠ some (.proper k.id)) →
    lookup m.toDatum key = .error .absentKey ∧ lookupOne m.toDatum key = .error .absentKey

variable {fields : List (Datum × List Datum)} {m : Metadata} {key : Datum} {k : MetadataKey}

theorem get?_toEntries (m : Metadata) (k : MetadataKey) :
    Datum.get? (m.toEntries.map fun e => (.text (.key e.1), .tuple e.2)) k.id
      = (m.find? fun e => e.1 = k).map fun e => .tuple (e.2.map Value.toDatum) := by
  have same : (fun e : MetadataKey × List Value =>
      some (CodeText.proper e.1.id) == some (.proper k.id)) = fun e => decide (e.1 = k) := by
    funext e
    rw [Bool.eq_iff_iff, beq_iff_eq, decide_eq_true_eq, Option.some.injEq, CodeText.proper.injEq]
    exact ⟨MetadataKey.id_injective, congrArg _⟩
  simp only [Datum.get?, toEntries, List.map_map, List.find?_map, Option.map_map,
    Function.comp_def, Datum.content?, Text.content, same]

/-- Any text that names a member finds what stands under the member. -/
theorem lookup_eq (named : key.content? = some (.proper k.id)) :
    lookup m.toDatum key = match m.find? fun e => e.1 = k with
      | some e => .ok (.tuple (e.2.map Value.toDatum))
      | none => .error .absentKey := by
  simp only [lookup, key_eq_ok_iff.mpr named, toDatum, Envelope.metadataMap, get?_toEntries]
  cases m.find? fun e => e.1 = k <;> rfl

theorem lookupOne_eq (named : key.content? = some (.proper k.id)) :
    lookupOne m.toDatum key = match m.find? fun e => e.1 = k with
      | some e => single k e.2
      | none => .error .absentKey := by
  simp only [lookupOne, lookup_eq named]
  cases m.find? fun e => e.1 = k with
  | none => rfl
  | some e =>
    obtain ⟨k', vs⟩ := e
    match vs with
    | [] => simp [Datum.length?, Datum.elements?, key_eq_ok_iff.mpr named, single]
    | [v] => simp [Datum.length?, Datum.elements?, first, single]
    | v :: v' :: vs => simp [Datum.length?, Datum.elements?, key_eq_ok_iff.mpr named, single]

theorem finds_of_encodes (encoded : List.Forall₂ (Encodes limit?) fields m)
    (distinct : (m.map Prod.fst).Nodup) (named : key.content? = some (.proper k.id)) :
    m.Finds limit? fields key k where
  given f hf own := by
    obtain ⟨⟨k', vs⟩, listed, becomes⟩ := exists_of_forall₂ encoded.flip hf
    have same : k' = k := MetadataKey.eq_of_content? becomes.key own
    subst same
    have found := find?_of_mem_of_nodup distinct listed
    exact ⟨vs, becomes.values, by rw [lookup_eq named, found], by rw [lookupOne_eq named, found]⟩
  absent unnamed := by
    have missing : m.find? (fun e => e.1 = k) = none := by
      rw [List.find?_eq_none]
      intro e he same
      obtain ⟨f, hf, becomes⟩ := exists_of_forall₂ encoded he
      exact unnamed f hf (of_decide_eq_true same ▸ becomes.key)
    rw [lookup_eq named, lookupOne_eq named, missing]
    exact ⟨rfl, rfl⟩

/-- Entries have distinct keys when no two of their fields name the same member. -/
theorem nodup_iff_of_encodes (encoded : List.Forall₂ (Encodes limit?) fields m) :
    (m.map Prod.fst).Nodup ↔ fields.Pairwise fun f g =>
      ∀ k : MetadataKey, f.1.content? = some (.proper k.id) →
        g.1.content? ≠ some (.proper k.id) := by
  induction encoded with
  | nil => simp
  | @cons f e fields m first rest ih =>
    rw [List.map_cons, List.nodup_cons, List.pairwise_cons, ih]
    refine and_congr_left fun _ => ?_
    constructor
    · intro fresh g hg k own same
      obtain ⟨e', listed, becomes⟩ := exists_of_forall₂ rest.flip hg
      have left : e.1 = k := MetadataKey.eq_of_content? first.key own
      have right : e'.1 = k := MetadataKey.eq_of_content? becomes.key same
      exact fresh (left.trans right.symm ▸ List.mem_map_of_mem listed)
    · intro apart again
      obtain ⟨e', listed, same⟩ := List.mem_map.mp again
      obtain ⟨g, hg, becomes⟩ := exists_of_forall₂ rest listed
      exact apart g hg e.1 first.key (same ▸ becomes.key)

/-- Entries are collected exactly when their keys are distinct, and then as they are. -/
theorem ofEntries_eq_ok_iff {es : Metadata} :
    ofEntries es = .ok m ↔ (es.map Prod.fst).Nodup ∧ m = es := by
  constructor
  · intro h
    cases eq_of_ofEntries h
    exact ⟨nodup_of_ofEntries h, rfl⟩
  · rintro ⟨distinct, rfl⟩
    exact ofEntries_eq_ok distinct

end Metadata

namespace Build

variable {s : Surroundings} {fields : List (Datum × List Datum)}

/-- Metadata from single fields: each is encoded by itself, and the entries are collected. -/
def metadataOfFields (fields : List (Datum × List Datum)) : Build Metadata := do
  let entries ← fields.mapM fun f => metadataEntry f.1 f.2
  admitted (Metadata.ofEntries entries)

theorem asks_encoded (fields : List (Datum × List Datum)) :
    Asks (fields.mapM fun f => metadataEntry f.1 f.2) := by
  induction fields with
  | nil => exact asks_pure []
  | cons f fields ih =>
    rw [List.mapM_cons]
    exact (asks_metadataEntry f.1 f.2).bind fun _ => ih.map _

theorem asks_metadataOfFields (fields : List (Datum × List Datum)) :
    Asks (metadataOfFields fields) :=
  (asks_encoded fields).bind fun _ => asks_admitted _

theorem settles_encoded (fields : List (Datum × List Datum)) (limited : s.symbolLimit? = limit?) :
    Settles (fields.mapM fun f => metadataEntry f.1 f.2) s
      (∀ f ∈ fields, (∃ k : MetadataKey, f.1.content? = some (.proper k.id)) ∧ f.2 ≠ [] ∧
        ∀ d ∈ f.2, d.IsElement limit?)
      fun m _ => List.Forall₂ (Metadata.Encodes limit?) fields m := by
  induction fields generalizing s with
  | nil => exact .returned rfl (by simp) .nil
  | cons f fields ih =>
    rw [List.mapM_cons, List.forall_mem_cons]
    refine (settles_metadataEntry f.1 f.2 limited).bind ?_
    rintro e s₁ _ ⟨named, becomes, alike⟩
    refine (ih (alike.symbolLimit.trans limited)).map ?_
    exact fun m s' others => .cons ⟨named, becomes⟩ others

theorem settles_metadataOfFields (fields : List (Datum × List Datum))
    (limited : s.symbolLimit? = limit?) :
    (metadataOfFields fields).Settles s (Metadata.AreFields limit? fields) fun m _ =>
      List.Forall₂ (Metadata.Encodes limit?) fields m ∧ (m.map Prod.fst).Nodup := by
  refine ((settles_encoded fields limited).bind (Q := fields.Pairwise fun f g =>
    ∀ k : MetadataKey, f.1.content? = some (.proper k.id) →
      g.1.content? ≠ some (.proper k.id)) ?_).congr ?_
  · intro m s₁ _ encoded
    refine ((settles_admitted (Metadata.ofEntries m) s₁).congr ?_).imp ?_
    · simp only [Metadata.ofEntries_eq_ok_iff, exists_eq_right,
        Metadata.nodup_iff_of_encodes encoded]
    · rintro m' s' _ ⟨collected, _⟩
      obtain ⟨distinct, rfl⟩ := Metadata.ofEntries_eq_ok_iff.mp collected
      exact ⟨encoded, distinct⟩
  · constructor
    · rintro ⟨fit, distinct⟩
      exact ⟨fun f hf => (fit f hf).1, fun f hf => (fit f hf).2, distinct⟩
    · rintro ⟨named, filled, distinct⟩
      exact ⟨fun f hf => ⟨named f hf, filled f hf⟩, distinct⟩

/-- Metadata is built from fields exactly when they make metadata. It lists the members that the
keys name in the order of the fields, and any text that names a member of the vocabulary, or the
member itself, finds there what its own field gave and nothing else. Otherwise the failure is an
encoding fault, or the faults of settings that cannot be read. -/
theorem metadataOfFields_returns_iff (fields : List (Datum × List Datum)) (s : Surroundings) :
    let built := (metadataOfFields fields s).1
    ((∃ m, built = .ok m) ↔ Metadata.AreFields s.symbolLimit? fields) ∧
    (¬Metadata.AreFields s.symbolLimit? fields →
      (∃ fault, built = .error (.encoding fault)) ∨
        ∃ faults, built = .error (.invalid faults) ∧ s.config.settings.1 = .error faults) ∧
    ∀ m, built = .ok m →
      List.Forall₂ (Metadata.Encodes s.symbolLimit?) fields m ∧
      ∀ (key : Datum) (k : MetadataKey), key.content? = some (.proper k.id) →
        m.Finds s.symbolLimit? fields key k := by
  intro built
  obtain ⟨returns, refused, kept⟩ :=
    (settles_metadataOfFields fields (rfl : s.symbolLimit? = _)).answer
      (asks_metadataOfFields fields)
  refine ⟨returns, refused, fun m answer => ?_⟩
  obtain ⟨_, encoded, distinct⟩ := kept m answer
  exact ⟨encoded, fun key k named => Metadata.finds_of_encodes encoded distinct named⟩

/-- The topic of collected fees has the text of the key `fee`, and so names it. -/
theorem metadataOfFields_returns_iff_fee :
    let fields : List (Datum × List Datum) := [(.plain "amount", [.number 5]),
      (.topic .feeCollected, [.flag true, .plain "GOLD"])]
    ∃ m, (metadataOfFields fields .ledger).1 = .ok m ∧
      Metadata.lookupOne m.toDatum (.text (.key .amount)) = .ok (.number 5) ∧
      Metadata.lookup m.toDatum (.plain "fee")
        = .ok (.tuple [.flag true, .symbol ⟨"GOLD"⟩]) ∧
      Metadata.lookupOne m.toDatum (.plain "fee") = .error (.manyValues .fee 2) ∧
      Metadata.lookup m.toDatum (.plain "token") = .error .absentKey := by
  intro fields
  obtain ⟨returns, _, kept⟩ := metadataOfFields_returns_iff fields .ledger
  have limit : Surroundings.ledger.symbolLimit? = some 32 := by rfl
  have five : (Datum.number 5).Becomes (some 32) (.number 5) := .number ⟨by decide, by decide⟩
  have gold : (Datum.plain "GOLD").Becomes (some 32) (.symbol ⟨"GOLD"⟩) :=
    .word rfl ⟨by decide, ⟨32, rfl, by decide⟩, by decide⟩
  rw [limit] at returns kept
  have fit : Metadata.AreFields (some 32) fields := by
    refine ⟨?_, ?_, ?_⟩
    · simp only [fields, List.forall_mem_cons]
      exact ⟨⟨.amount, rfl⟩, ⟨.fee, rfl⟩, by simp⟩
    · simp only [fields, List.forall_mem_cons]
      exact ⟨⟨by simp, ⟨_, five⟩, by simp⟩, ⟨by simp, ⟨_, .flag true⟩, ⟨_, gold⟩, by simp⟩, by simp⟩
    · rw [List.pairwise_pair]
      intro k own same
      have equal : CodeText.proper "amount" = .proper "fee" :=
        Option.some.inj (own.trans same.symm)
      simp at equal
  obtain ⟨m, answer⟩ := returns.mpr fit
  obtain ⟨_, finds⟩ := kept m answer
  obtain ⟨vs, becomes, _, amount⟩ :=
    (finds (.text (.key .amount)) .amount rfl).given _ List.mem_cons_self rfl
  cases Datum.becomes_unique.forall₂ becomes (.cons five .nil)
  obtain ⟨vs, becomes, fee, fees⟩ := (finds (.plain "fee") .fee rfl).given _ (.tail _ (.head _)) rfl
  cases Datum.becomes_unique.forall₂ becomes (.cons (.flag true) (.cons gold .nil))
  have unnamed : ∀ f ∈ fields, f.1.content? ≠ some (.proper MetadataKey.token.id) := by
    simp only [fields, List.forall_mem_cons]
    exact ⟨by decide, by decide, by simp⟩
  have token := (finds (.plain "token") .token rfl).absent unnamed
  exact ⟨m, answer, amount, fee, fees, token.1⟩

end Build

end EventEnvelope
