import EventEnvelope.Proofs.MetadataFields

/-! Metadata from a mapping that a caller made. A value is taken for a sequence if it can be walked
and is no text, so a set passes for one, and so does a map, for its keys. Main statement: a mapping
makes metadata exactly when each entry is taken by itself; what comes out has an entry for each of
its own, in their order, with all elements of the value, and never is a key said to stand twice. -/

namespace EventEnvelope

variable {α β : Type} {limit? : Option Nat}

/-- The elements that a value under a key is taken for: those of a list, a tuple or a set, and the
keys of a map. -/
inductive Datum.Yields : Datum → List Datum → Prop
  | list (ds : List Datum) : Yields (.list ds) ds
  | tuple (ds : List Datum) : Yields (.tuple ds) ds
  | set (ds : List Datum) : Yields (.set ds) ds
  | keys (es : List (Datum × Datum)) : Yields (.map es) (es.map Prod.fst)

namespace Metadata

/-- An entry of a mapping that is taken: its key names a member of the vocabulary, and its value
yields at least one element, all of which an event can hold. -/
structure IsMapped (limit? : Option Nat) (entry : Datum × Datum) : Prop where
  key : ∃ k : MetadataKey, entry.1.content? = some (.proper k.id)
  values : ∃ ds, entry.2.Yields ds ∧ ds ≠ [] ∧ ∀ d ∈ ds, d.IsElement limit?

/-- What an entry of a mapping is taken for: all elements of its value made typed, in their order,
under the member that its key names. -/
structure MapsTo (limit? : Option Nat) (entry : Datum × Datum) (e : MetadataKey × List Value) :
    Prop where
  key : entry.1.content? = some (.proper e.1.id)
  values : ∃ ds, entry.2.Yields ds ∧ List.Forall₂ (Datum.Becomes limit?) ds e.2

theorem sequence?_of_yields {d : Datum} {ds : List Datum} (h : d.Yields ds) :
    sequence? d = some ds := by
  cases h <;> rfl

/-- A struct and a value that only the wire knows can be walked, but no event holds what they
yield. -/
theorem yields_of_sequence? {d : Datum} {ds : List Datum} (h : sequence? d = some ds)
    (filled : ds ≠ []) (elements : ∀ d ∈ ds, d.IsElement limit?) : d.Yields ds := by
  cases d with
  | list ds => cases h; exact .list ds
  | tuple ds => cases h; exact .tuple ds
  | set ds => cases h; exact .set ds
  | map es => cases h; exact .keys es
  | struct x =>
    cases h
    obtain ⟨d, hd⟩ := List.exists_mem_of_ne_nil _ filled
    obtain ⟨e, _, rfl⟩ := List.mem_map.mp hd
    obtain ⟨v, becomes⟩ := elements _ hd
    cases becomes
  | ext code bs =>
    cases h
    obtain ⟨v, becomes⟩ := elements (.bytes bs) (by simp)
    cases becomes
  | _ => cases h

theorem isEntry_iff_isMapped {entry : Datum × Datum} :
    IsEntry limit? entry ↔ IsMapped limit? entry := by
  constructor
  · rintro ⟨named, ds, listed, filled, elements⟩
    exact ⟨named, ds, yields_of_sequence? listed filled elements, filled, elements⟩
  · rintro ⟨named, ds, yields, filled, elements⟩
    exact ⟨named, ds, sequence?_of_yields yields, filled, elements⟩

theorem IsEntry.mapsTo {entry : Datum × Datum} {e : MetadataKey × List Value}
    (fit : IsEntry limit? entry) (becomes : Becomes limit? entry e) : MapsTo limit? entry e := by
  obtain ⟨ds, listed, filled, elements⟩ := fit.values
  obtain ⟨ds', listed', typed⟩ := becomes.values
  cases listed.symm.trans listed'
  exact ⟨becomes.key, ds, yields_of_sequence? listed filled elements, typed⟩

end Metadata

theorem Admission.value_ne_repeatedKey (limit : Int) (d : Datum) (k : MetadataKey) :
    value limit d ≠ .error (.repeatedKey k) := by
  have interned (t : Text) : (symbolOf limit t).map Value.symbol ≠ .error (.repeatedKey k) := by
    unfold symbolOf
    split
    · simp [Except.map]
    · split
      · simp [Except.map]
      · split <;> simp [Except.map]
  cases d with
  | number n =>
    simp only [value, integer]
    split <;> simp [Except.map]
  | text t =>
    cases t with
    | address a => simp [value]
    | symbol x => simp [value]
    | _ => exact interned _
  | _ => simp [value]

namespace Build

variable {s : Surroundings}

/-- A computation that never complains of a key that stands twice. -/
def NeverRepeats (x : Build α) : Prop :=
  ∀ s k, (x s).1 ≠ .error (.encoding (.repeatedKey k))

theorem neverRepeats_pure (a : α) : NeverRepeats (pure a : Build α) := by
  rintro s k ⟨⟩

theorem neverRepeats_throw {e : Failure} (other : ∀ k, e ≠ .encoding (.repeatedKey k)) :
    NeverRepeats (throw e : Build α) := by
  rintro s k ⟨⟩
  exact other k rfl

theorem neverRepeats_admitted {r : Except EncodingFault α}
    (other : ∀ k, r ≠ .error (.repeatedKey k)) : NeverRepeats (admitted r) := by
  cases r with
  | ok a => exact neverRepeats_pure a
  | error fault =>
    refine neverRepeats_throw fun k same => other k ?_
    cases same
    rfl

theorem NeverRepeats.bind {x : Build α} {f : α → Build β} (hx : x.NeverRepeats)
    (hf : ∀ a, (f a).NeverRepeats) : NeverRepeats (x >>= f) := by
  intro s k
  have first := hx s k
  rw [bind_apply]
  rcases went : x s with ⟨r, mid⟩
  rw [went] at first
  cases r with
  | error e => exact fun same => first (by cases same; rfl)
  | ok a => exact hf a mid k

theorem neverRepeats_symbolLimit (interned : Bool) : NeverRepeats (symbolLimit interned) := by
  have asked : NeverRepeats settings := by
    intro s k
    unfold settings
    split <;> simp
  unfold symbolLimit
  split
  · exact asked.bind fun _ => neverRepeats_pure _
  · exact neverRepeats_pure _

theorem neverRepeats_values (ds : List Datum) : NeverRepeats (values ds) := by
  induction ds with
  | nil => exact neverRepeats_pure []
  | cons d ds ih =>
    have value : NeverRepeats (value d) := (neverRepeats_symbolLimit _).bind fun limit =>
      neverRepeats_admitted (Admission.value_ne_repeatedKey limit d)
    exact value.bind fun v => ih.bind fun vs => neverRepeats_pure _

theorem neverRepeats_metadataEntry (key : Datum) (ds : List Datum) :
    NeverRepeats (metadataEntry key ds) := by
  have resolved (k : MetadataKey) : Metadata.key key ≠ .error (.repeatedKey k) := by
    unfold Metadata.key
    split <;> simp
  have typed (k : MetadataKey) : NeverRepeats (values ds >>= fun vs => pure (k, vs)) :=
    (neverRepeats_values ds).bind fun _ => neverRepeats_pure _
  apply (neverRepeats_admitted resolved).bind
  intro k
  split
  · exact (neverRepeats_throw (by simp)).bind fun _ => typed k
  · exact (neverRepeats_pure ()).bind fun _ => typed k

theorem neverRepeats_metadataEntries (es : List (Datum × Datum)) :
    NeverRepeats (metadataEntries es) := by
  induction es with
  | nil => exact neverRepeats_pure []
  | cons e es ih =>
    obtain ⟨key, mapped⟩ := e
    unfold metadataEntries
    split
    · exact (neverRepeats_metadataEntry key _).bind fun _ => ih.bind fun _ => neverRepeats_pure _
    · exact neverRepeats_throw (by simp)

/-- No two keys of a map name the same member, so its entries are collected once they are made. -/
theorem metadata_ne_repeatedKey {es : List (Datum × Datum)}
    (distinct : es.Pairwise fun e e' => Datum.same e.1 e'.1 = false) (k : MetadataKey) :
    (metadata (.map es) s).1 ≠ .error (.encoding (.repeatedKey k)) := by
  have apart := neverRepeats_metadataEntries es s k
  change ((metadataEntries es >>= fun entries => admitted (Metadata.ofEntries entries)) s).1 ≠ _
  rw [bind_apply]
  cases settles_metadataEntries es (rfl : s.symbolLimit? = _) with
  | @returned m s' run holds kept =>
    have keys := Metadata.nodup_of_becomes distinct kept.1
    rw [run]
    dsimp only
    rw [Metadata.ofEntries_eq_ok keys]
    exact neverRepeats_pure m s' k
  | @refused e s' run fails encodable =>
    rw [run] at apart ⊢
    exact fun same => apart (by cases same; rfl)

/-- A mapping makes metadata exactly when each of its entries is taken, and then no entry and no
element of one is lost. Otherwise the failure is an encoding fault, or the faults of settings that
cannot be read; in no case does a key stand twice. -/
theorem metadata_returns_iff {es : List (Datum × Datum)}
    (distinct : es.Pairwise fun e e' => Datum.same e.1 e'.1 = false) (s : Surroundings) :
    let built := (metadata (.map es) s).1
    ((∃ m, built = .ok m) ↔ ∀ entry ∈ es, Metadata.IsMapped s.symbolLimit? entry) ∧
    ((¬∀ entry ∈ es, Metadata.IsMapped s.symbolLimit? entry) →
      (∃ fault, built = .error (.encoding fault)) ∨
        ∃ faults, built = .error (.invalid faults) ∧ s.config.settings.1 = .error faults) ∧
    (∀ k, built ≠ .error (.encoding (.repeatedKey k))) ∧
    ∀ m, built = .ok m →
      List.Forall₂ (Metadata.MapsTo s.symbolLimit?) es m ∧ (m.map Prod.fst).Nodup := by
  intro built
  have taken : (∀ entry ∈ es, Metadata.IsEntry s.symbolLimit? entry) ↔
      ∀ entry ∈ es, Metadata.IsMapped s.symbolLimit? entry :=
    forall₂_congr fun entry _ => Metadata.isEntry_iff_isMapped
  have settled := settles_metadata distinct (rfl : s.symbolLimit? = _)
  obtain ⟨returns, refused, kept⟩ := (settled.congr taken).answer (asks_metadata _)
  refine ⟨returns, refused, metadata_ne_repeatedKey distinct, fun m answer => ?_⟩
  obtain ⟨_, becomes, _⟩ := kept m answer
  have fit := taken.mpr (returns.mp ⟨m, answer⟩)
  have mapped := (List.forall₂_and_left es m).mpr ⟨fit, becomes⟩
  exact ⟨mapped.imp fun entry e both => both.1.mapsTo both.2,
    Metadata.nodup_of_becomes distinct becomes⟩

/-- Keys are texts of any kind, as long as a member of the vocabulary is spelled so. -/
theorem metadata_returns_iff_fees :
    let es : List (Datum × Datum) := [(.address ⟨"token"⟩, .list [.address ⟨"GOLD"⟩]),
      (.text (.key .fee), .tuple [.number 5, .plain "bonus", .flag true])]
    let m : Metadata := [(.token, [.address ⟨"GOLD"⟩]),
      (.fee, [.number 5, .symbol ⟨"bonus"⟩, .flag true])]
    es.Pairwise (fun e e' => Datum.same e.1 e'.1 = false) ∧
      (metadata (.map es) .ledger).1 = .ok m ∧
      List.Forall₂ (Metadata.MapsTo Surroundings.ledger.symbolLimit?) es m := by
  intro es m
  have distinct : es.Pairwise fun e e' => Datum.same e.1 e'.1 = false := by
    simp [es, Datum.address, Text.content, MetadataKey.id]
  have answer : (metadata (.map es) .ledger).1 = .ok m := rfl
  obtain ⟨_, _, _, kept⟩ := metadata_returns_iff distinct .ledger
  exact ⟨distinct, answer, (kept m answer).1⟩

/-- Neither a set nor a map is a sequence, and yet each is taken for one; what the map holds under
its keys is lost. -/
theorem metadata_takes_unordered :
    (metadata (.map [(.plain "amount", .set [.number 5])]) .ledger).1
        = .ok [(.amount, [.number 5])] ∧
      (metadata (.map [(.plain "reason", .map [(.plain "bonus", .number 7)])]) .ledger).1
        = .ok [(.reason, [.symbol ⟨"bonus"⟩])] := by
  constructor <;> rfl

end Build

end EventEnvelope
