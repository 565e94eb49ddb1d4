import EventEnvelope.Proofs.LayoutTable

/-! The older record tells nothing that its envelope does not. Each of its fields stands somewhere
in the envelope, as the actor, at a position of the data or under a metadata key, and the two
records share the time; only the number of a trade is nowhere else. Main statement: the older record
can be built again from the envelope, and equal envelopes of one operation have equal older records,
but for that number. -/

namespace EventEnvelope

/-- Where an envelope holds a value. -/
inductive Place
  | actor
  | data (i : Nat)
  | key (k : MetadataKey)
deriving DecidableEq, Repr

namespace Envelope

/-- The value that an envelope holds in a place; under a key, the first one. -/
def at? (e : Envelope) : Place → Option Value
  | .actor => e.actor.toValue?
  | .data i => e.data[i]?.bind Datum.toValue?
  | .key k => (e.metadata.find? fun m => m.1 = k).bind fun m => m.2.head?.bind Datum.toValue?

/-- Equal as the runtime compares records: texts by their content, flags and integers as numbers,
metadata in any order. -/
structure Same (e e' : Envelope) : Prop where
  topic : e.topic = e'.topic
  payload : Datum.same e.payload e'.payload = true

end Envelope

namespace LegacyPayload

/-- The fields whose values the payload carries, beside the time. -/
def fields : LegacyPayload → List Field
  | single f => [f]
  | row fs => fs
  | struct kind => kind.fields.filter (· ≠ .timestamp)

end LegacyPayload

namespace Layout

/-- The fields whose values the older record carries, beside the time. -/
def olderFields (l : Layout) : List Field := l.legacyKeys ++ l.legacy.fields

/-- A place where an envelope of this layout holds a field. -/
def place? (l : Layout) (f : Field) : Option Place :=
  if f = l.actor then some .actor
  else match l.data.findIdx? (· = f) with
    | some i => some (.data i)
    | none => (l.metadata.find? fun m => m.2 = .field f).map fun m => .key m.1

/-- Whether an envelope of this layout holds the field in the place, whatever was left out. -/
def holds (l : Layout) (f : Field) : Place → Bool
  | .actor => f = l.actor && f.role = .identity
  | .data i => l.data[i]? = some f && (l.data.take i).all fun g => !l.optional.contains g
  | .key k => l.metadata.contains (k, .field f)

end Layout

namespace Operation

/-- What an envelope of the operation tells about its fields. What is settled late is not in the
envelope and has to be known. -/
def told (op : Operation) (e : Envelope) (known : Value) : Assignment := fun f =>
  if f ∈ op.layout.late then some known else (op.layout.place? f).bind e.at?

/-- The older record of the operation, built from the envelope. -/
def older (op : Operation) (e : Envelope) (known : Value) : Checked Publication :=
  (Layout.legacyPayload (op.told e known) (.number e.timestamp) op.layout.legacy).map fun payload =>
    ⟨op.layout.legacyChannel (op.told e known), payload⟩

/-- Equal older records of the operation, value types included, but for the number of a trade. -/
structure SameOlder (op : Operation) (p p' : Publication) : Prop where
  channel : p.channel = p'.channel
  payload : op ≠ .tradeExecuted → p.payload = p'.payload
  trade : op = .tradeExecuted → ∃ s s' : LegacyStruct, p.payload = .struct s ∧
    p'.payload = .struct s' ∧ s.kind = s'.kind ∧ ∀ f ≠ .tradeId, s.get? f = s'.get? f

theorem placed (op : Operation) {f : Field} (carried : f ∈ op.layout.olderFields)
    (early : f ∉ op.layout.late) :
    f ∈ op.layout.params ∧ f ∉ op.layout.optional ∧
      ∃ place, op.layout.place? f = some place ∧ op.layout.holds f place = true := by
  have all : ∀ f ∈ op.layout.olderFields, f ∈ op.layout.late ∨ f ∈ op.layout.params ∧
      f ∉ op.layout.optional ∧ (op.layout.place? f).any (op.layout.holds f) = true := by
    cases op <;> decide
  obtain ⟨listed, required, found⟩ := (all f carried).resolve_left early
  exact ⟨listed, required, by simpa [Option.any_eq_true] using found⟩

theorem params_of_data (op : Operation) : ∀ f ∈ op.layout.data, f ∈ op.layout.params := by
  cases op <;> decide

end Operation

section Lists

variable {α β : Type}

theorem getElem?_filterMap {a : α → Option β} {xs : List α} {i : Nat} {x : α} {y : β}
    (found : xs[i]? = some x) (own : a x = some y) (before : ∀ z ∈ xs.take i, ∃ w, a z = some w) :
    (xs.filterMap a)[i]? = some y := by
  induction xs generalizing i with
  | nil => cases found
  | cons z xs ih =>
    cases i with
    | zero =>
      cases found
      simp [own]
    | succ i =>
      rw [List.take_succ_cons, List.forall_mem_cons] at before
      obtain ⟨⟨w, present⟩, before⟩ := before
      simpa [present] using ih found before

theorem find?_of_mem_of_nodup [DecidableEq α] {es : List (α × β)} {k : α} {x : β}
    (distinct : (es.map Prod.fst).Nodup) (h : (k, x) ∈ es) :
    (es.find? fun e => e.1 = k) = some (k, x) := by
  induction es with
  | nil => cases h
  | cons e es ih =>
    rw [List.map_cons, List.nodup_cons] at distinct
    rcases List.mem_cons.mp h with rfl | later
    · simp
    · have apart : e.1 ≠ k := fun same => distinct.1 (same ▸ List.mem_map_of_mem later)
      simpa [apart] using ih distinct.2 later

end Lists

namespace Datum

theorem toValue?_toDatum (v : Value) : v.toDatum.toValue? = some v := by
  cases v <;> rfl

theorem eq_of_toValue? {d : Datum} {v : Value} (h : d.toValue? = some v) : d = v.toDatum := by
  cases d with
  | text t => cases t <;> cases h <;> rfl
  | flag b => cases h; rfl
  | number n => cases h; rfl
  | _ => cases h

theorem same_flag (b b' : Bool) : same (.flag b) (.flag b') = (b == b') := by
  have apart : (Binary64.unitsPerOne : Int) ≠ 0 := by decide +kernel
  simp only [same, sameLeaf, quantity?, Quantity.same]
  generalize (Binary64.unitsPerOne : Int) = one at apart ⊢
  cases b <;> cases b' <;> simp [apart, apart.symm]

theorem same_number (n n' : Int) : same (.number n) (.number n') = (n == n') := by
  have apart : (Binary64.unitsPerOne : Int) ≠ 0 := by decide +kernel
  have scaled : n * Binary64.unitsPerOne = n' * Binary64.unitsPerOne ↔ n = n' :=
    ⟨Int.eq_of_mul_eq_mul_right apart, fun h => by rw [h]⟩
  simp only [same, sameLeaf, quantity?, Quantity.same, scaled]
  rfl

/-- Values of one kind that the runtime takes for equal are equal. -/
theorem eq_of_same {v v' : Value} (role : v.role = v'.role)
    (h : same v.toDatum v'.toDatum = true) : v = v' := by
  cases v <;> cases v' <;> cases role
  · simpa [Value.toDatum, same_flag] using h
  · simpa [Value.toDatum, same_number] using h
  all_goals
    next x x' =>
    cases x
    cases x'
    simpa [Value.toDatum, Text.content] using h

theorem same_tuple (xs ys : List Datum) : same (.tuple xs) (.tuple ys) = sameAll xs ys := by
  rw [same]

theorem same_of_sameAll {xs ys : List Datum} (h : sameAll xs ys = true) {i : Nat} {x y : Datum}
    (hx : xs[i]? = some x) (hy : ys[i]? = some y) : same x y = true := by
  induction xs generalizing ys i with
  | nil => cases hx
  | cons a xs ih =>
    cases ys with
    | nil => cases hy
    | cons b ys =>
      simp only [sameAll, Bool.and_eq_true] at h
      cases i with
      | zero =>
        cases hx
        cases hy
        exact h.1
      | succ i => exact ih h.2 hx hy

theorem mem_of_entriesIn {es fs : List (Datum × Datum)} (h : entriesIn es fs = true)
    {e : Datum × Datum} (he : e ∈ es) :
    ∃ f ∈ fs, same e.1 f.1 = true ∧ same e.2 f.2 = true := by
  induction es with
  | nil => cases he
  | cons a es ih =>
    obtain ⟨k, v⟩ := a
    simp only [entriesIn, Bool.and_eq_true, List.any_eq_true] at h
    rcases List.mem_cons.mp he with rfl | later
    · exact h.1
    · exact ih h.2 later

end Datum

namespace Envelope

variable {e e' : Envelope}

/-- What equal envelopes hold in a place is equal, where it is of one kind. -/
theorem Same.at?_eq (same : e.Same e') (distinct : (e'.metadata.map Prod.fst).Nodup) {place : Place}
    {v v' : Value} (held : e.at? place = some v) (held' : e'.at? place = some v')
    (role : v.role = v'.role) : v = v' := by
  have parts := same.payload
  simp only [Envelope.payload, Datum.same_tuple, Datum.sameAll, Bool.and_eq_true, metadataMap,
    Datum.same_map] at parts
  obtain ⟨_, actor, data, ⟨_, metadata⟩, _⟩ := parts
  apply Datum.eq_of_same role
  cases place with
  | actor =>
    rw [← Datum.eq_of_toValue? held, ← Datum.eq_of_toValue? held']
    exact actor
  | data i =>
    obtain ⟨d, found, value⟩ := Option.bind_eq_some_iff.mp held
    obtain ⟨d', found', value'⟩ := Option.bind_eq_some_iff.mp held'
    rw [← Datum.eq_of_toValue? value, ← Datum.eq_of_toValue? value']
    exact Datum.same_of_sameAll data found found'
  | key k =>
    obtain ⟨⟨k₁, ds⟩, found, first⟩ := Option.bind_eq_some_iff.mp held
    obtain ⟨⟨k₂, ds'⟩, found', first'⟩ := Option.bind_eq_some_iff.mp held'
    obtain ⟨d, first, value⟩ := Option.bind_eq_some_iff.mp first
    obtain ⟨d', first', value'⟩ := Option.bind_eq_some_iff.mp first'
    have own : k₁ = k := by simpa using List.find?_some found
    subst own
    -- the entry that equals the one under the key is the one found there, since keys are distinct
    obtain ⟨_, shown, sameKey, sameValues⟩ := Datum.mem_of_entriesIn metadata
      (List.mem_map_of_mem (List.mem_of_find?_eq_some found))
    obtain ⟨⟨k₃, ds₃⟩, listed, rfl⟩ := List.mem_map.mp shown
    have equal : k₃ = k₁ := by
      rw [Datum.same_text] at sameKey
      exact (MetadataKey.id_injective (by simpa [Text.content] using sameKey)).symm
    subst equal
    have same := found'.symm.trans (find?_of_mem_of_nodup distinct listed)
    cases same
    rw [Datum.same_tuple] at sameValues
    rw [← Datum.eq_of_toValue? value, ← Datum.eq_of_toValue? value']
    rw [List.head?_eq_getElem?] at first first'
    exact Datum.same_of_sameAll sameValues first first'

theorem Same.timestamp_eq (same : e.Same e') : e.timestamp = e'.timestamp := by
  have parts := same.payload
  simp only [Envelope.payload, Datum.same_tuple, Datum.sameAll, Bool.and_eq_true] at parts
  have equal := parts.2.2.2.2.1
  rw [Datum.same_number, beq_iff_eq] at equal
  exact Int.ofNat_inj.mp equal

end Envelope

namespace Layout

variable {a a' : Assignment}

theorem legacyPayload_congr {now : Datum} {p : LegacyPayload} (same : ∀ f ∈ p.fields, a f = a' f) :
    legacyPayload a now p = legacyPayload a' now p := by
  cases p with
  | single f =>
    have own := same f (List.mem_singleton.mpr rfl)
    simp only [legacyPayload, own]
  | row fs =>
    have rows : fs.filterMap (rowValue a) = fs.filterMap (rowValue a') :=
      List.filterMap_congr fun f hf => by simp only [rowValue, same f hf]
    simp only [legacyPayload, rows]
  | struct kind =>
    have filled : structFields a now kind = structFields a' now kind := by
      refine List.filterMap_congr fun f hf => ?_
      by_cases time : f = .timestamp
      · simp [time]
      · have carried : f ∈ (LegacyPayload.struct kind).fields :=
          List.mem_filter.mpr ⟨hf, decide_eq_true time⟩
        simp only [same f carried]
    simp only [legacyPayload, filled]

theorem legacyChannel_congr {l : Layout} (same : ∀ f ∈ l.legacyKeys, a f = a' f) :
    l.legacyChannel a = l.legacyChannel a' := by
  have keys : (l.legacyKeys.filterMap fun f => (a f).map Value.toDatum)
      = l.legacyKeys.filterMap fun f => (a' f).map Value.toDatum :=
    List.filterMap_congr fun f hf => by simp only [same f hf]
  simp only [legacyChannel, keys]

end Layout

theorem LegacyStruct.get?_of_entries {s : LegacyStruct} {fs : List Field} {v : Field → Value}
    (h : s.entries = fs.map fun f => (f, v f)) (f : Field) :
    s.get? f = if f ∈ fs then some (v f) else none := by
  have found : ((fs.map fun g => (g, v g)).find? fun e => e.1 = f)
      = if f ∈ fs then some (f, v f) else none := by
    clear h
    induction fs with
    | nil => rfl
    | cons g fs ih =>
      by_cases same : g = f
      · subst same
        simp
      · simp [same, Ne.symm same, ih]
  rw [get?, h, found]
  split <;> rfl

namespace Operation

variable {op : Operation} {args args' : CallerArguments} {s s' : Surroundings} {e e' : Emission}
  {m m' : Metadata} {emitter emitter' : Address}

/-- An envelope holds the values of its operation's parameters where the layout puts them. -/
theorem Makes.at?_eq {now : Datum} (made : op.Makes args s e m emitter now)
    (distinct : (m.map Prod.fst).Nodup) {f : Field} {v : Value} {place : Place}
    (own : op.assignment s.symbolLimit? args f = some v) (role : v.role = f.role)
    (held : op.layout.holds f place = true) : e.standard.at? place = some v := by
  rw [made.standard]
  cases place with
  | actor =>
    simp only [Layout.holds, Bool.and_eq_true, decide_eq_true_eq] at held
    obtain ⟨rfl, identity⟩ := held
    cases v with
    | address x => simp [Envelope.at?, Draft.stamped, Draft.actorDatum, draft,
        Assignment.address?, own, Datum.address, Datum.toValue?]
    | _ => cases role.trans identity
  | data i =>
    simp only [Layout.holds, Bool.and_eq_true, decide_eq_true_eq, List.all_eq_true,
      Bool.not_eq_true', ← Bool.not_eq_true, List.contains_iff_mem] at held
    have before (g : Field) (hg : g ∈ op.layout.data.take i) :
        ∃ w, op.assignment s.symbolLimit? args g = some w := by
      obtain ⟨w, _, present⟩ := made.value_of_required
        (op.params_of_data g (List.mem_of_mem_take hg)) (held.2 g hg)
      exact ⟨w, present⟩
    have found := getElem?_filterMap held.1 own before
    simp [Envelope.at?, Draft.stamped, draft, found, Datum.toValue?_toDatum]
  | key k =>
    have listed : (k, .field f) ∈ op.layout.metadata := List.contains_iff_mem.mp held
    have entry : (k, [v]) ∈ m := by
      rw [Layout.metadataOf_eq_ok made.metadata]
      exact List.mem_filterMap.mpr ⟨_, listed, by simp [Layout.sourced, own]⟩
    have keys : (m.toEntries.map Prod.fst).Nodup := by simpa using distinct
    have found := find?_of_mem_of_nodup keys (List.mem_map_of_mem entry)
    simp [Envelope.at?, Draft.stamped, draft, found, Datum.toValue?_toDatum]

/-- The envelope tells what the older record carries, but for what is settled late. -/
theorem Makes.told_eq {now : Datum} (made : op.Makes args s e m emitter now)
    (distinct : (m.map Prod.fst).Nodup) (known : Value) {f : Field}
    (carried : f ∈ op.layout.olderFields) (early : f ∉ op.layout.late) :
    op.told e.standard known f = op.assignment s.symbolLimit? args f := by
  obtain ⟨listed, required, place, found, held⟩ := op.placed carried early
  obtain ⟨v, value, own⟩ := made.value_of_required listed required
  rw [Operation.told, if_neg early, found, own]
  exact made.at?_eq distinct own (Field.role_of_value? value) held

theorem late_eq (op : Operation) : op.layout.late = [] ∨ op = .tradeExecuted := by
  cases op <;> decide

theorem early_of_legacyKeys (op : Operation) : ∀ f ∈ op.layout.legacyKeys, f ∉ op.layout.late := by
  cases op <;> decide

theorem Makes.timestamp_eq {now : Int} (made : op.Makes args s e m emitter (.number now)) :
    now = e.standard.timestamp :=
  Except.ok.inj (made.time (by simp))

/-- The older record is built again from the envelope, once what is settled late is known. -/
theorem Makes.older_eq {now : Int} (made : op.Makes args s e m emitter (.number now))
    (distinct : (m.map Prod.fst).Nodup) {known : Value}
    (late : ∀ f ∈ op.layout.late, op.assignment s.symbolLimit? args f = some known) :
    op.older e.standard known = .ok e.legacy := by
  have agree (f : Field) (carried : f ∈ op.layout.olderFields) :
      op.told e.standard known f = op.assignment s.symbolLimit? args f := by
    by_cases early : f ∈ op.layout.late
    · rw [late f early, told, if_pos early]
    · exact made.told_eq distinct known carried early
  have channel := Layout.legacyChannel_congr fun f hf => agree f (List.mem_append_left _ hf)
  have payload : Layout.legacyPayload (op.told e.standard known) (.number e.standard.timestamp)
      op.layout.legacy = .ok e.legacy.payload := by
    rw [Layout.legacyPayload_congr fun f hf => agree f (List.mem_append_right _ hf),
      ← made.timestamp_eq]
    exact made.payload
  rw [older, payload, channel, ← made.channel]
  rfl

section TwoCalls

variable {now now' : Int} (made : op.Makes args s e m emitter (.number now))
  (made' : op.Makes args' s' e' m' emitter' (.number now')) (distinct : (m.map Prod.fst).Nodup)
  (distinct' : (m'.map Prod.fst).Nodup) (same : e.standard.Same e'.standard)

include made made' distinct distinct' same

/-- Where the envelopes are equal, so are the values that they hold. -/
theorem Makes.assignment_eq {f : Field} (carried : f ∈ op.layout.olderFields)
    (early : f ∉ op.layout.late) :
    op.assignment s.symbolLimit? args f = op.assignment s'.symbolLimit? args' f := by
  obtain ⟨listed, required, place, _, held⟩ := op.placed carried early
  obtain ⟨v, value, own⟩ := made.value_of_required listed required
  obtain ⟨v', value', own'⟩ := made'.value_of_required listed required
  have role := Field.role_of_value? value
  have role' := Field.role_of_value? value'
  have keys : (e'.standard.metadata.map Prod.fst).Nodup := by
    rw [made'.standard]
    exact (Metadata.map_fst_toEntries m').symm ▸ distinct'
  rw [own, own', same.at?_eq keys (made.at?_eq distinct own role held)
    (made'.at?_eq distinct' own' role' held) (role.trans role'.symm)]

theorem Makes.sameOlder : op.SameOlder e.legacy e'.legacy := by
  have time : now = now' := by
    rw [made.timestamp_eq, made'.timestamp_eq, same.timestamp_eq]
  have agree {f : Field} (carried : f ∈ op.layout.olderFields) (early : f ∉ op.layout.late) :=
    made.assignment_eq made' distinct distinct' same carried early
  constructor
  · rw [made.channel, made'.channel]
    exact Layout.legacyChannel_congr fun f hf =>
      agree (List.mem_append_left _ hf) (op.early_of_legacyKeys f hf)
  · intro untraded
    have none := op.late_eq.resolve_right untraded
    have payload := made.payload
    rw [Layout.legacyPayload_congr fun f hf =>
      agree (List.mem_append_right _ hf) (none ▸ List.not_mem_nil), time] at payload
    exact Except.ok.inj (payload.symm.trans made'.payload)
  · rintro rfl
    obtain ⟨held, payload, kind, entries⟩ := made.describes rfl
    obtain ⟨held', payload', kind', entries'⟩ := made'.describes rfl
    refine ⟨held, held', payload, payload', kind.trans kind'.symm, fun f other => ?_⟩
    rw [LegacyStruct.get?_of_entries entries, LegacyStruct.get?_of_entries entries']
    split
    · next hf =>
      unfold Assignment.structValue
      split
      · rw [time]
      · next timeless =>
        have carried : f ∈ Layout.olderFields (layout .tradeExecuted) :=
          List.mem_append_right _ (List.mem_filter.mpr ⟨hf, decide_eq_true timeless⟩)
        rw [agree carried (fun late => other (List.mem_singleton.mp late))]
    · rfl

end TwoCalls

theorem Makes.exists_known {now : Datum} (made : op.Makes args s e m emitter now) :
    ∃ known, ∀ f ∈ op.layout.late, op.assignment s.symbolLimit? args f = some known := by
  rcases op.late_eq with none | rfl
  · rw [none]
    exact ⟨Layout.placeholder, by simp⟩
  · obtain ⟨known, own, _⟩ := made.value_of_needed (f := .tradeId) (by decide) (by decide)
    refine ⟨known, fun f late => ?_⟩
    cases List.mem_singleton.mp late
    exact own

/-- Whatever becomes of two calls of one operation afterwards, if the envelopes built for them are
equal, so are their older records, but for the number of a trade; and an older record can be built
again from its envelope and that number alone. -/
theorem build_sameOlder {now now' : Int} (clock : s.clock s.ticks = .value (.number now))
    (clock' : s'.clock s'.ticks = .value (.number now')) (h : (op.build args s).1 = .ok e)
    (h' : (op.build args' s').1 = .ok e') (same : e.standard.Same e'.standard) :
    op.SameOlder e.legacy e'.legacy ∧
    (∃ tradeId, op.older e.standard tradeId = .ok e.legacy) ∧
    (op ≠ .tradeExecuted → ∀ tradeId, op.older e.standard tradeId = .ok e.legacy) := by
  obtain ⟨m, emitter, reading, made⟩ := build_makes (Prod.ext h rfl)
  obtain ⟨m', emitter', reading', made'⟩ := build_makes (Prod.ext h' rfl)
  cases made.reading.symm.trans clock
  cases made'.reading.symm.trans clock'
  refine ⟨made.sameOlder made' made.distinct made'.distinct same, ?_, ?_⟩
  · obtain ⟨known, late⟩ := made.exists_known
    exact ⟨known, made.older_eq made.distinct late⟩
  · intro untraded known
    have none := op.late_eq.resolve_right untraded
    exact made.older_eq made.distinct (by simp [none])

end Operation

/-- The trade again, with a number. -/
def CallerArguments.numberedTrade : CallerArguments
  | .tradeId => .number 7
  | f => trade f

namespace Operation

/-- Two trades that differ in their number alone. -/
theorem build_sameOlder_trades : ∃ e e' : Emission,
    (tradeExecuted.build .trade .ledger).1 = .ok e ∧
    (tradeExecuted.build .numberedTrade .ledger).1 = .ok e' ∧
    tradeExecuted.SameOlder e.legacy e'.legacy ∧
    ∃ s s' : LegacyStruct, e.legacy.payload = .struct s ∧ e'.legacy.payload = .struct s' ∧
      s.get? .tradeId = some (.number 0) ∧ s'.get? .tradeId = some (.number 7) := by
  obtain ⟨e, built⟩ : ∃ e, (tradeExecuted.build .trade .ledger).1 = .ok e := ⟨_, rfl⟩
  obtain ⟨e', built'⟩ : ∃ e, (tradeExecuted.build .numberedTrade .ledger).1 = .ok e := ⟨_, rfl⟩
  have same : e.standard.Same e'.standard := by
    cases built
    cases built'
    exact ⟨rfl, by decide +kernel⟩
  have clock : Surroundings.ledger.clock 0 = .value (.number 1700000000) := rfl
  obtain ⟨older, _⟩ := build_sameOlder clock clock built built' same
  refine ⟨e, e', built, built', older, ?_⟩
  cases built
  cases built'
  exact ⟨_, _, rfl, rfl, rfl, rfl⟩

end Operation

end EventEnvelope
