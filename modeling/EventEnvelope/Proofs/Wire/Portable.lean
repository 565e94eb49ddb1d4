import EventEnvelope.Proofs.DistinctKeys
import EventEnvelope.Proofs.Wire.Encodable
import EventEnvelope.Proofs.Wire.Value

/-! Values that the binary form carries. Each has a tree of its own; a reader finds texts of closed
vocabularies as plain text, lists as tuples and structs as maps, and all else as it was. Main
statement: such a value has bytes just when it keeps within the format's limits and none of its
texts holds a surrogate, and the bytes spell what the reader is to find. -/

namespace EventEnvelope

namespace Wire

/-- Sizes and counts from here on have no bytes. -/
def sizeLimit : Nat := 0x100000000

/-- A text without bytes never fits. -/
def textFits (s : CodeText) : Bool := (Utf8.encode? s).any fun bs => bs.length < sizeLimit

def integerFits (n : Int) : Bool := Bytes.signedWidth n < sizeLimit

/-- What came of writing: bytes just when all fits. Otherwise a limit of the format or a text
without bytes is told, whichever comes first. -/
inductive Written (fits encodable : Bool) (outcome : Except Failure Bytes) (reads : Bytes → Prop) :
    Prop
  | bytes (bs : Bytes) (within : fits = true) (encoded : outcome = .ok bs) (read : reads bs)
  | oversized (beyond : fits = false) (refused : outcome = .error .badValue)
  | unencodable (beyond : fits = false) (broken : encodable = false)
      (refused : outcome = .error .unencodable)

section Written

variable {fits encodable : Bool} {outcome : Except Failure Bytes} {reads reads' : Bytes → Prop}

theorem Written.imp (h : Written fits encodable outcome reads)
    (more : ∀ bs, reads bs → reads' bs) : Written fits encodable outcome reads' := by
  cases h with
  | bytes bs within encoded read => exact .bytes bs within encoded (more bs read)
  | oversized beyond refused => exact .oversized beyond refused
  | unencodable beyond broken refused => exact .unencodable beyond broken refused

theorem Written.of_ok {bs : Bytes} (h : Written fits encodable outcome reads)
    (written : outcome = .ok bs) : reads bs := by
  cases h with
  | bytes bs' within encoded read =>
    cases encoded.symm.trans written
    exact read
  | oversized beyond refused => cases refused.symm.trans written
  | unencodable beyond broken refused => cases refused.symm.trans written

theorem Written.of_fits (h : Written fits encodable outcome reads) (within : fits = true) :
    ∃ bs, outcome = .ok bs ∧ reads bs := by
  cases h with
  | bytes bs _ encoded read => exact ⟨bs, encoded, read⟩
  | oversized beyond _ => cases within.symm.trans beyond
  | unencodable beyond _ _ => cases within.symm.trans beyond

theorem Written.refused (h : Written fits encodable outcome reads) (beyond : fits = false) :
    outcome = .error .badValue ∨ encodable = false ∧ outcome = .error .unencodable := by
  cases h with
  | bytes _ within _ _ => cases within.symm.trans beyond
  | oversized _ refused => exact .inl refused
  | unencodable _ broken refused => exact .inr ⟨broken, refused⟩

end Written

end Wire

/-- Texts that travel without a kind of their own. -/
def Text.isUntyped : Text → Bool
  | address _ | symbol _ => false
  | _ => true

def Value.fits : Value → Bool
  | flag _ => true
  | number n => Wire.integerFits n
  | symbol s => Wire.textFits s.text
  | address a => Wire.textFits a.text

namespace Datum

/-- The text that a key travels as. -/
def keyText? : Datum → Option CodeText
  | text t => if t.isUntyped then some t.carried else none
  | _ => none

mutual

/-- Plain data, texts, structs, and what is built of them; maps under distinct untyped texts. -/
def isPortable : Datum → Bool
  | null | flag _ | number _ | text _ | struct _ => true
  | list xs => arePortable xs
  | tuple xs => arePortable xs
  | map es => decide (es.map fun e => e.1.keyText?).Nodup && areEntriesPortable es
  | _ => false

def arePortable : List Datum → Bool
  | [] => true
  | x :: r => isPortable x && arePortable r

def areEntriesPortable : List (Datum × Datum) → Bool
  | [] => true
  | (k, v) :: r => k.keyText?.isSome && isPortable v && areEntriesPortable r

end

/-- A struct as it travels. -/
def ofStruct (s : LegacyStruct) : Datum :=
  map [(plain Wire.structName, plain s.kind.name),
    (plain Wire.structFields, map (s.entries.map fun e => (plain e.1.name, e.2.toDatum)))]

mutual

/-- What a reader finds in place of a value. Of keys that travel as one text the last counts. -/
def received : Datum → Datum
  | text t => if t.isUntyped then plain t.carried else text t
  | list xs => tuple (receivedAll xs)
  | tuple xs => tuple (receivedAll xs)
  | map es => map (ofEntries (receivedEntries es))
  | struct s => ofStruct s
  | d => d

def receivedAll : List Datum → List Datum
  | [] => []
  | x :: r => received x :: receivedAll r

def receivedEntries : List (Datum × Datum) → List (Datum × Datum)
  | [] => []
  | (k, v) :: r => (received k, received v) :: receivedEntries r

end

mutual

/-- Whether a portable value with at most so many levels below it keeps within the limits of the
binary form. -/
def fits (levels : Nat) : Datum → Bool
  | number n => Wire.integerFits n
  | text t => Wire.textFits t.carried
  | list xs => decide (xs.length < Wire.sizeLimit) && allFit levels xs
  | tuple xs => decide (xs.length < Wire.sizeLimit) && allFit levels xs
  | map es => decide (es.length < Wire.sizeLimit) && entriesFit levels es
  | struct s => decide (2 ≤ levels) && s.entries.all fun e => e.2.fits
  | _ => true

def allFit (levels : Nat) : List Datum → Bool
  | [] => true
  | x :: r =>
    match levels with
    | 0 => false
    | inner + 1 => fits inner x && allFit levels r

def entriesFit (levels : Nat) : List (Datum × Datum) → Bool
  | [] => true
  | (k, v) :: r =>
    match levels with
    | 0 => false
    | inner + 1 => fits inner k && fits inner v && entriesFit levels r

end

theorem receivedAll_eq_map (xs : List Datum) : receivedAll xs = xs.map received := by
  induction xs with
  | nil => rfl
  | cons x r ih => rw [receivedAll, ih, List.map_cons]

theorem receivedEntries_eq_map (es : List (Datum × Datum)) :
    receivedEntries es = es.map fun e => (e.1.received, e.2.received) := by
  induction es with
  | nil => rfl
  | cons e r ih => rw [receivedEntries, ih, List.map_cons]

theorem arePortable_eq_all (xs : List Datum) : arePortable xs = xs.all isPortable := by
  induction xs with
  | nil => rfl
  | cons x r ih => rw [arePortable, ih, List.all_cons]

theorem areEntriesPortable_eq_all (es : List (Datum × Datum)) :
    areEntriesPortable es = es.all fun e => e.1.keyText?.isSome && e.2.isPortable := by
  induction es with
  | nil => rfl
  | cons e r ih => rw [areEntriesPortable, ih, List.all_cons]

theorem allFit_eq_all (inner : Nat) (xs : List Datum) :
    allFit (inner + 1) xs = xs.all (fits inner) := by
  induction xs with
  | nil => rfl
  | cons x r ih => rw [allFit, ih, List.all_cons]

theorem entriesFit_eq_all (inner : Nat) (es : List (Datum × Datum)) :
    entriesFit (inner + 1) es = es.all fun e => fits inner e.1 && fits inner e.2 := by
  induction es with
  | nil => rfl
  | cons e r ih => rw [entriesFit, ih, List.all_cons]

theorem eq_text_of_keyText? {k : Datum} {s : CodeText} (h : k.keyText? = some s) :
    ∃ t, k = .text t ∧ t.isUntyped = true ∧ t.carried = s := by
  cases k with
  | text t =>
    simp only [keyText?, Option.ite_none_right_eq_some, Option.some.injEq] at h
    exact ⟨t, rfl, h⟩
  | _ => cases h

theorem received_of_keyText? {k : Datum} {s : CodeText} (h : k.keyText? = some s) :
    k.received = plain s := by
  obtain ⟨t, rfl, untyped, rfl⟩ := eq_text_of_keyText? h
  rw [received, if_pos untyped]

theorem content?_received {k : Datum} (h : k.keyText?.isSome = true) :
    k.received.content? = k.keyText? := by
  obtain ⟨s, key⟩ := Option.isSome_iff_exists.mp h
  rw [received_of_keyText? key, key]
  rfl

theorem distinctTexts_received {es : List (Datum × Datum)}
    (distinct : (es.map fun e => e.1.keyText?).Nodup)
    (keys : ∀ e ∈ es, e.1.keyText?.isSome = true) : DistinctTexts (receivedEntries es) := by
  rw [receivedEntries_eq_map]
  constructor
  · intro e he
    obtain ⟨e', inside, rfl⟩ := List.mem_map.mp he
    rw [content?_received (keys e' inside)]
    exact keys e' inside
  · have same := List.map_congr_left fun e he => content?_received (keys e he)
    rw [List.map_map]
    exact (same : es.map (fun e => e.1.received.content?) = _).symm ▸ distinct

/-- Keys that travel as distinct texts are all found again. -/
theorem received_map {es : List (Datum × Datum)} (distinct : (es.map fun e => e.1.keyText?).Nodup)
    (keys : ∀ e ∈ es, e.1.keyText?.isSome = true) :
    (map es).received = map (receivedEntries es) := by
  rw [received, (distinctTexts_received distinct keys).ofEntries_eq]

theorem keys_of_areEntriesPortable {es : List (Datum × Datum)}
    (h : areEntriesPortable es = true) : ∀ e ∈ es, e.1.keyText?.isSome = true := by
  rw [areEntriesPortable_eq_all, List.all_eq_true] at h
  exact fun e he => (Bool.and_eq_true_iff.mp (h e he)).1

theorem received_of_isPortable {es : List (Datum × Datum)} (h : (map es).isPortable = true) :
    (map es).received = map (receivedEntries es) := by
  rw [isPortable, Bool.and_eq_true, decide_eq_true_eq] at h
  exact received_map h.1 (keys_of_areEntriesPortable h.2)

end Datum

namespace Wire

theorem CountTags.isSome_head {t : CountTags} (small : t.smallLimit ≤ sizeLimit) (n : Nat) :
    (t.head n).isSome = decide (n < sizeLimit) := by
  have wide : 0x10000 ≤ sizeLimit := by decide
  unfold head
  split
  · simp only [Option.isSome_some]
    exact (decide_eq_true (by omega)).symm
  · split
    · next one below =>
      have := of_decide_eq_true below
      simp only [Option.isSome_some]
      exact (decide_eq_true (by omega)).symm
    · split
      · simp only [Option.isSome_some]
        exact (decide_eq_true (by omega)).symm
      · split
        · next below =>
          simp only [Option.isSome_some]
          exact (decide_eq_true below).symm
        · next above =>
          simp only [Option.isSome_none]
          exact (decide_eq_false above).symm

theorem isSome_extHead (n : Nat) : (extHead n).isSome = decide (n < sizeLimit) := by
  have wide : 0x10000 ≤ sizeLimit := by decide
  unfold extHead
  split
  · next tag fixed =>
    have short : n ≤ 16 := by
      unfold fixedExtTag? at fixed
      split at fixed <;> simp_all
    simp only [Option.isSome_some]
    exact (decide_eq_true (by omega)).symm
  · repeat' split
    all_goals simp only [Option.isSome_some, Option.isSome_none]
    · exact (decide_eq_true (by omega)).symm
    · exact (decide_eq_true (by omega)).symm
    · next below => exact (decide_eq_true below).symm
    · next above => exact (decide_eq_false above).symm

/-- A tree as the wire form of a value: what a reader finds, and how deep and large the tree is. -/
structure Carries (d : Datum) (fits : Nat → Bool) (w : Wire) : Prop where
  value : toDatum w = some d
  bytes : ∀ levels, (write levels w).isOk = fits levels

structure CarriesAll (ds : List Datum) (fits : Nat → Bool) (ws : List Wire) : Prop where
  values : toData ws = some ds
  length : ws.length = ds.length
  bytes : ∀ levels, (writeAll levels ws).isOk = fits levels

structure CarriesEntries (es : List (Datum × Datum)) (fits : Nat → Bool)
    (ws : List (Wire × Wire)) : Prop where
  values : toEntries ws = some es
  length : ws.length = es.length
  bytes : ∀ levels, (writeEntries levels ws).isOk = fits levels

/-- What comes of making a tree: one that is as it should be, or none for want of a text's bytes,
where nothing fits. -/
inductive Conveys {ω : Type} (carries : ω → Prop) (fits : Nat → Bool) (outcome : Except Failure ω) :
    Prop
  | tree {w : ω} (made : outcome = .ok w) (carried : carries w)
  | unencodable (failed : outcome = .error .unencodable) (beyond : ∀ levels, fits levels = false)

theorem Conveys.of_ok {ω : Type} {carries : ω → Prop} {fits : Nat → Bool}
    {outcome : Except Failure ω} {w : ω} (h : Conveys carries fits outcome)
    (made : outcome = .ok w) : carries w := by
  cases h with
  | tree made' carried =>
    cases made'.symm.trans made
    exact carried
  | unencodable failed _ => cases failed.symm.trans made

theorem Conveys.map {ω ω' : Type} {carries : ω → Prop} {carries' : ω' → Prop}
    {fits fits' : Nat → Bool} {outcome : Except Failure ω} {f : ω → ω'}
    (h : Conveys carries fits outcome) (tree : ∀ w, carries w → carries' (f w))
    (beyond : ∀ levels, fits levels = false → fits' levels = false) :
    Conveys carries' fits' (outcome.map f) := by
  cases h with
  | tree made carried => exact .tree (by rw [made]; rfl) (tree _ carried)
  | unencodable failed none => exact .unencodable (by rw [failed]; rfl) fun n => beyond n (none n)

theorem carries_null : Carries .null (fun _ => true) null := ⟨rfl, fun _ => rfl⟩

theorem carries_flag (b : Bool) : Carries (.flag b) (fun _ => true) (flag b) :=
  ⟨rfl, fun _ => by cases b <;> rfl⟩

theorem carries_text (s : CodeText) : Carries (.plain s) (fun _ => textFits s) (text s) where
  value := rfl
  bytes _ := by
    cases s with
    | proper s =>
      rw [write, writeText]
      exact isOk_headed.trans ((Bool.and_true _).trans (CountTags.isSome_head (by decide) _))
    | broken s u rest => rfl

theorem carries_ext {code : Nat} {bs : Bytes} {d : Datum} (small : code < 0x80)
    (known : ofExt code bs = .ok d) :
    Carries d (fun _ => decide (bs.length < sizeLimit)) (ext code bs) where
  value := by rw [toDatum, if_pos small, known]; rfl
  bytes _ := by
    rw [write, writeExt, isOk_headed]
    exact (Bool.and_true _).trans (isSome_extHead _)

theorem conveys_typed (wrap : CodeText → Datum) {code : Nat} (small : code < 0x80)
    (known : ∀ s : String, ofExt code (Utf8.encode s) = .ok (wrap s)) (s : CodeText) :
    Conveys (Carries (wrap s) fun _ => textFits s) (fun _ => textFits s) (ofTyped code s) := by
  cases s with
  | proper s => exact .tree rfl (carries_ext small (known s))
  | broken s u rest => exact .unencodable rfl fun _ => rfl

theorem conveys_address (a : Address) :
    Conveys (Carries (.address a) fun _ => textFits a.text) (fun _ => textFits a.text)
      (ofTyped addressCode a.text) :=
  conveys_typed (fun s => .address ⟨s⟩) (show 1 < 0x80 by decide)
    (fun s => by simp [ofExt, addressCode, Utf8.decode?_encode]) a.text

theorem conveys_symbol (s : Symbol) :
    Conveys (Carries (.symbol s) fun _ => textFits s.text) (fun _ => textFits s.text)
      (ofTyped symbolCode s.text) :=
  conveys_typed (fun s => .symbol ⟨s⟩) (show 2 < 0x80 by decide)
    (fun s => by simp [ofExt, addressCode, symbolCode, Utf8.decode?_encode]) s.text

theorem integerFits_of_isNative {n : Int} (h : isNative n = true) : integerFits n = true := by
  have bounds : -0x8000000000000000 ≤ n ∧ n < 0x10000000000000000 := by
    simpa [isNative] using h
  have short : Bytes.bitLength n.natAbs ≤ 64 := by
    unfold Bytes.bitLength
    split
    · decide
    · next nonzero =>
      have : n.natAbs.log2 < 64 := (Nat.log2_lt nonzero).mpr (by omega)
      omega
  have width : Bytes.signedWidth n ≤ 9 := by
    unfold Bytes.signedWidth
    omega
  exact decide_eq_true (Nat.lt_of_le_of_lt width (by decide))

theorem carries_integer (n : Int) : Carries (.number n) (fun _ => integerFits n) (ofInt n) := by
  unfold ofInt
  split
  · next native =>
    refine ⟨by rw [toDatum, if_pos native], fun levels => ?_⟩
    rw [integerFits_of_isNative native]
    rfl
  · have known : ofExt integerCode (Bytes.ofInt (Bytes.signedWidth n) n) = .ok (.number n) := by
      simp [ofExt, addressCode, symbolCode, integerCode, Bytes.toInt_signedWidth]
    have spelled := carries_ext (by decide) known
    simpa [Bytes.ofInt, integerFits] using spelled

theorem conveys_value (v : Value) :
    Conveys (Carries v.toDatum fun _ => v.fits) (fun _ => v.fits) (ofValue v) := by
  cases v with
  | flag b => exact .tree rfl (carries_flag b)
  | number n => exact .tree rfl (carries_integer n)
  | symbol s => exact conveys_symbol s
  | address a => exact conveys_address a

theorem carriesAll_nil : CarriesAll [] (fun _ => true) [] :=
  ⟨rfl, rfl, fun levels => by cases levels <;> rfl⟩

theorem CarriesAll.cons {w : Wire} {ws : List Wire} {d : Datum} {ds : List Datum}
    {one all : Nat → Bool} (first : Carries d one w) (rest : CarriesAll ds all ws) :
    CarriesAll (d :: ds) (fun
      | 0 => false
      | inner + 1 => one inner && all (inner + 1)) (w :: ws) where
  values := by rw [toData, first.value, rest.values]
  length := congrArg Nat.succ rest.length
  bytes levels := by
    cases levels with
    | zero => rfl
    | succ inner =>
      dsimp only
      rw [← first.bytes, ← rest.bytes, writeAll, isOk_joined]

theorem CarriesAll.congr {ws : List Wire} {ds : List Datum} {fits fits' : Nat → Bool}
    (h : CarriesAll ds fits ws) (same : ∀ levels, fits levels = fits' levels) :
    CarriesAll ds fits' ws :=
  ⟨h.values, h.length, fun levels => (h.bytes levels).trans (same levels)⟩

theorem carriesEntries_nil : CarriesEntries [] (fun _ => true) [] :=
  ⟨rfl, rfl, fun levels => by cases levels <;> rfl⟩

theorem CarriesEntries.cons {s : CodeText} {w : Wire} {ws : List (Wire × Wire)} {d : Datum}
    {es : List (Datum × Datum)} {one all : Nat → Bool} (first : Carries d one w)
    (rest : CarriesEntries es all ws) :
    CarriesEntries ((.plain s, d) :: es) (fun
      | 0 => false
      | inner + 1 => textFits s && one inner && all (inner + 1)) ((text s, w) :: ws) where
  values := by
    rw [toEntries, first.value, rest.values]
    rfl
  length := congrArg Nat.succ rest.length
  bytes levels := by
    cases levels with
    | zero => rfl
    | succ inner =>
      dsimp only
      rw [← first.bytes, ← rest.bytes, ← (carries_text s).bytes inner, writeEntries, isOk_joined,
        isOk_joined, Bool.and_assoc]

theorem CarriesEntries.congr {ws : List (Wire × Wire)} {es : List (Datum × Datum)}
    {fits fits' : Nat → Bool} (h : CarriesEntries es fits ws)
    (same : ∀ levels, fits levels = fits' levels) : CarriesEntries es fits' ws :=
  ⟨h.values, h.length, fun levels => (h.bytes levels).trans (same levels)⟩

theorem Carries.array {ws : List Wire} {ds : List Datum} {all : Nat → Bool}
    (parts : CarriesAll ds all ws) :
    Carries (.tuple ds) (fun levels => decide (ds.length < sizeLimit) && all levels)
      (array ws) where
  value := by rw [toDatum, parts.values]; rfl
  bytes levels := by
    rw [← parts.bytes, ← parts.length, ← CountTags.isSome_head (t := arrayTags) (by decide),
      write, isOk_headed]

theorem Carries.map {ws : List (Wire × Wire)} {es : List (Datum × Datum)} {all : Nat → Bool}
    (parts : CarriesEntries es all ws) (keys : Datum.DistinctTexts es) :
    Carries (.map es) (fun levels => decide (es.length < sizeLimit) && all levels) (map ws) where
  value := by
    rw [toDatum, parts.values, Option.map_some, keys.ofEntries_eq]
  bytes levels := by
    rw [← parts.bytes, ← parts.length, ← CountTags.isSome_head (t := mapTags) (by decide), write,
      isOk_headed]

theorem Carries.congr {w : Wire} {d : Datum} {fits fits' : Nat → Bool} (h : Carries d fits w)
    (same : ∀ levels, fits levels = fits' levels) : Carries d fits' w :=
  ⟨h.value, fun levels => (h.bytes levels).trans (same levels)⟩

end Wire

theorem Field.textFits_name (f : Field) : Wire.textFits f.name = true := by
  cases f <;> decide +kernel

namespace LegacyKind

theorem textFits_name (kind : LegacyKind) : Wire.textFits kind.name = true := by
  cases kind <;> decide +kernel

theorem nodup_names (kind : LegacyKind) : (kind.fields.map Field.name).Nodup := by
  cases kind <;> decide +kernel

theorem distinctTexts (kind : LegacyKind) (d : Field → Datum) :
    Datum.DistinctTexts (kind.fields.map fun f => (Datum.plain f.name, d f)) where
  texts e he := by
    obtain ⟨_, _, rfl⟩ := List.mem_map.mp he
    rfl
  distinct := by
    have names : ((kind.fields.map Field.name).map fun s => some (CodeText.proper s)).Nodup :=
      List.Pairwise.map _ (fun _ _ differ h => differ (by simpa using h)) kind.nodup_names
    rw [List.map_map] at names ⊢
    exact names

end LegacyKind

namespace LegacyStruct

theorem map_fst_entries (s : LegacyStruct) : s.entries.map Prod.fst = s.kind.fields :=
  List.map_fst_zip (Nat.le_of_eq (Field.length_of_fitsAll s.fits).symm)

theorem length_entries (s : LegacyStruct) : s.entries.length = s.kind.fields.length := by
  rw [← s.map_fst_entries, List.length_map]

theorem entries_ne_nil (s : LegacyStruct) : s.entries ≠ [] := by
  intro none
  have := s.length_entries
  rw [none] at this
  revert this
  cases s.kind <;> decide

theorem length_entries_lt (s : LegacyStruct) : s.entries.length < Wire.sizeLimit := by
  rw [s.length_entries]
  cases s.kind <;> decide

theorem distinctTexts (s : LegacyStruct) :
    Datum.DistinctTexts (s.entries.map fun e => (Datum.plain e.1.name, e.2.toDatum)) := by
  refine (s.kind.distinctTexts fun _ => .null).of_keys ?_
  rw [← s.map_fst_entries, List.map_map, List.map_map, List.map_map]
  rfl

end LegacyStruct

namespace Wire

/-- Whether the fields of a struct fit, with at most so many levels below. -/
def fieldsFit (es : List (Field × Value)) (levels : Nat) : Bool :=
  es.isEmpty || (decide (1 ≤ levels) && es.all fun e => e.2.fits)

theorem conveys_fields (es : List (Field × Value)) :
    Conveys (CarriesEntries (es.map fun e => (Datum.plain e.1.name, e.2.toDatum)) (fieldsFit es))
      (fieldsFit es) (ofFields es) := by
  induction es with
  | nil => exact .tree rfl carriesEntries_nil
  | cons e es ih =>
    obtain ⟨f, v⟩ := e
    cases conveys_value v with
    | unencodable failed beyond =>
      refine .unencodable (by rw [ofFields, failed]) fun levels => ?_
      simp [fieldsFit, beyond levels]
    | tree made carried =>
      rw [ofFields, made]
      refine ih.map (fun ws parts => ?_) fun levels beyond => ?_
      · refine (parts.cons (s := f.name) carried).congr fun levels => ?_
        cases levels with
        | zero => rfl
        | succ inner => cases es <;> simp [fieldsFit, Field.textFits_name]
      · simp only [fieldsFit, Bool.or_eq_false_iff, Bool.and_eq_false_iff] at beyond
        rcases beyond.2 with flat | unfit
        · simp [fieldsFit, flat]
        · simp [fieldsFit, unfit]

theorem carries_struct {s : LegacyStruct} {fields : List (Wire × Wire)}
    (carried : CarriesEntries (s.entries.map fun e => (Datum.plain e.1.name, e.2.toDatum))
      (fieldsFit s.entries) fields) :
    Carries (Datum.ofStruct s)
      (fun levels => decide (2 ≤ levels) && s.entries.all fun e => e.2.fits)
      (map [(text structName, text s.kind.name), (text structFields, map fields)]) := by
  have fields := Carries.map carried s.distinctTexts
  have parts := (carriesEntries_nil.cons (s := structFields) fields).cons (s := structName)
    (carries_text s.kind.name)
  have keys : Datum.DistinctTexts
      [(Datum.plain structName, Datum.plain s.kind.name),
        (Datum.plain structFields,
          Datum.map (s.entries.map fun e => (Datum.plain e.1.name, e.2.toDatum)))] :=
    ⟨by simp [Datum.plain, Datum.content?], by simp [Datum.plain, Datum.content?]; decide⟩
  refine (Carries.map parts keys).congr fun levels => ?_
  have names : textFits structName = true ∧ textFits structFields = true := by decide
  have counts : 2 < sizeLimit ∧ s.entries.length < sizeLimit :=
    ⟨by decide, s.length_entries_lt⟩
  rcases levels with _ | _ | levels
  · simp
  · simp [fieldsFit, s.entries_ne_nil]
  · simp [fieldsFit, names, counts, LegacyKind.textFits_name, s.entries_ne_nil]

theorem conveys_struct (s : LegacyStruct) :
    Conveys (Carries (Datum.ofStruct s) fun levels => (Datum.struct s).fits levels)
      (fun levels => (Datum.struct s).fits levels) (ofStruct s) := by
  refine (conveys_fields s.entries).map (fun fields carried => carries_struct carried) ?_
  intro levels beyond
  simp only [fieldsFit, Bool.or_eq_false_iff, Bool.and_eq_false_iff] at beyond
  rw [Datum.fits, Bool.and_eq_false_iff]
  exact beyond.2.imp_left fun flat => by simp at flat ⊢; omega

theorem ofDatum_of_keyText? {k : Datum} {s : CodeText} (h : k.keyText? = some s) :
    ofDatum k = .ok (text s) ∧ ∀ levels, k.fits levels = textFits s := by
  obtain ⟨t, rfl, untyped, rfl⟩ := Datum.eq_text_of_keyText? h
  cases t <;> first | contradiction | exact ⟨rfl, fun _ => rfl⟩

mutual

/-- A portable value has a tree that carries it, unless a typed text of it has no bytes. -/
theorem ofDatum_conveys : (d : Datum) → d.isPortable = true →
    Conveys (Carries d.received fun levels => d.fits levels) (fun levels => d.fits levels)
      (ofDatum d)
  | .null, _ => .tree rfl carries_null
  | .flag b, _ => .tree rfl (carries_flag b)
  | .number n, _ => .tree rfl (carries_integer n)
  | .text t, _ => by
    cases t with
    | address a => exact conveys_address a
    | symbol s => exact conveys_symbol s
    | _ => exact .tree rfl (carries_text _)
  | .struct s, _ => conveys_struct s
  | .list xs, h => by
    refine (ofData_conveys xs h).map (fun ws parts => ?_) fun levels beyond => ?_
    · refine (Carries.array parts).congr fun levels => ?_
      rw [Datum.receivedAll_eq_map, List.length_map, Datum.fits]
    · rw [Datum.fits, beyond, Bool.and_false]
  | .tuple xs, h => by
    refine (ofData_conveys xs h).map (fun ws parts => ?_) fun levels beyond => ?_
    · refine (Carries.array parts).congr fun levels => ?_
      rw [Datum.receivedAll_eq_map, List.length_map, Datum.fits]
    · rw [Datum.fits, beyond, Bool.and_false]
  | .map es, h => by
    rw [Datum.received_of_isPortable h]
    simp only [Datum.isPortable, Bool.and_eq_true, decide_eq_true_eq] at h
    have keys := Datum.distinctTexts_received h.1 (Datum.keys_of_areEntriesPortable h.2)
    refine (ofEntries_conveys es h.2).map (fun ws parts => ?_) fun levels beyond => ?_
    · refine (Carries.map parts keys).congr fun levels => ?_
      rw [Datum.receivedEntries_eq_map, List.length_map, Datum.fits]
    · rw [Datum.fits, beyond, Bool.and_false]

theorem ofData_conveys : (xs : List Datum) → Datum.arePortable xs = true →
    Conveys (CarriesAll (Datum.receivedAll xs) fun levels => Datum.allFit levels xs)
      (fun levels => Datum.allFit levels xs) (ofData xs)
  | [], _ => .tree rfl carriesAll_nil
  | x :: r, h => by
    simp only [Datum.arePortable, Bool.and_eq_true] at h
    cases ofDatum_conveys x h.1 with
    | unencodable failed beyond =>
      refine .unencodable (by rw [ofData, failed]) fun levels => ?_
      cases levels with
      | zero => rfl
      | succ inner => rw [Datum.allFit, beyond, Bool.false_and]
    | tree made carried =>
      rw [ofData, made]
      refine (ofData_conveys r h.2).map (fun ws parts => ?_) fun levels beyond => ?_
      · exact (parts.cons carried).congr fun levels => by cases levels <;> rfl
      · cases levels with
        | zero => rfl
        | succ inner => rw [Datum.allFit, beyond, Bool.and_false]

theorem ofEntries_conveys : (es : List (Datum × Datum)) → Datum.areEntriesPortable es = true →
    Conveys (CarriesEntries (Datum.receivedEntries es) fun levels => Datum.entriesFit levels es)
      (fun levels => Datum.entriesFit levels es) (ofEntries es)
  | [], _ => .tree rfl carriesEntries_nil
  | (k, v) :: r, h => by
    simp only [Datum.areEntriesPortable, Bool.and_eq_true] at h
    obtain ⟨s, key⟩ := Option.isSome_iff_exists.mp h.1.1
    obtain ⟨keyTree, keyFits⟩ := ofDatum_of_keyText? key
    cases ofDatum_conveys v h.1.2 with
    | unencodable failed beyond =>
      refine .unencodable (by rw [ofEntries, keyTree, failed]) fun levels => ?_
      cases levels with
      | zero => rfl
      | succ inner => rw [Datum.entriesFit, beyond, Bool.and_false, Bool.false_and]
    | tree made carried =>
      rw [ofEntries, keyTree, made]
      refine (ofEntries_conveys r h.2).map (fun ws parts => ?_) fun levels beyond => ?_
      · rw [Datum.receivedEntries, Datum.received_of_keyText? key]
        refine (parts.cons carried).congr fun levels => ?_
        cases levels with
        | zero => rfl
        | succ inner => rw [Datum.entriesFit, keyFits]
      · cases levels with
        | zero => rfl
        | succ inner => rw [Datum.entriesFit, beyond, Bool.and_false]

end

/-- A portable value that fits has bytes, and a reader of them finds what the value stands for; one
that does not has none. -/
theorem encode_portable {d : Datum} (h : d.isPortable = true) :
    Written (d.fits writerLevels) d.isEncodable (encode d)
      (fun bs => decode bs = .ok d.received) := by
  have spelled (broken : encode d = .error .unencodable) : d.isEncodable = false := by
    rw [Bool.eq_false_iff]
    exact fun encodable => encode_ne_unencodable encodable broken
  cases ofDatum_conveys d h with
  | unencodable failed beyond =>
    have refused : encode d = .error .unencodable := by rw [encode, failed]
    exact .unencodable (beyond writerLevels) (spelled refused) refused
  | @tree w made carried =>
    have same : encode d = write writerLevels w := by rw [encode, made]
    have size := carried.bytes writerLevels
    rw [same] at spelled ⊢
    cases written : write writerLevels w with
    | ok bs =>
      rw [written] at size
      exact .bytes bs size.symm rfl (decode_write written carried.value)
    | error e =>
      rw [written] at size spelled
      rcases write_eq_error w written with rfl | ⟨_, rfl⟩
      · exact .oversized size.symm rfl
      · exact .unencodable size.symm (spelled rfl) rfl

end Wire

/-- A value that the binary form carries as it is. -/
structure Datum.IsSteady (d : Datum) : Prop where
  portable : d.isPortable = true
  received : d.received = d

theorem Datum.IsSteady.tuple {ds : List Datum} (h : ∀ d ∈ ds, d.IsSteady) :
    (Datum.tuple ds).IsSteady := by
  constructor
  · rw [Datum.isPortable, arePortable_eq_all, List.all_eq_true]
    exact fun d hd => (h d hd).portable
  · rw [Datum.received, receivedAll_eq_map, List.map_congr_left fun d hd => (h d hd).received,
      List.map_id']

/-- Nothing, or a typed value: what a reader finds as it was written. -/
def Datum.IsSettled (d : Datum) : Prop := d = .null ∨ ∃ v : Value, d = v.toDatum

namespace Datum.IsSettled

variable {d : Datum}

theorem isPortable (h : d.IsSettled) : d.isPortable = true := by
  rcases h with rfl | ⟨v, rfl⟩
  · rfl
  · cases v <;> rfl

theorem received (h : d.IsSettled) : d.received = d := by
  rcases h with rfl | ⟨v, rfl⟩
  · rfl
  · cases v <;> rfl

theorem steady (h : d.IsSettled) : d.IsSteady := ⟨h.isPortable, h.received⟩

/-- Nothing lies below a settled value. -/
theorem fits (h : d.IsSettled) (levels : Nat) : d.fits levels = d.fits 0 := by
  rcases h with rfl | ⟨v, rfl⟩
  · rfl
  · cases v <;> rfl

section Sequences

variable {ds : List Datum} (h : ∀ d ∈ ds, IsSettled d)

include h

theorem isPortable_tuple : (Datum.tuple ds).isPortable = true :=
  (IsSteady.tuple fun d hd => (h d hd).steady).portable

theorem fits_tuple (inner : Nat) :
    (Datum.tuple ds).fits (inner + 1) = true ↔
      ds.length < Wire.sizeLimit ∧ ∀ d ∈ ds, d.fits 0 = true := by
  rw [Datum.fits, allFit_eq_all, Bool.and_eq_true, decide_eq_true_eq, List.all_eq_true]
  exact and_congr_right fun _ => forall₂_congr fun d hd => by rw [(h d hd).fits]

end Sequences

end Datum.IsSettled

end EventEnvelope
