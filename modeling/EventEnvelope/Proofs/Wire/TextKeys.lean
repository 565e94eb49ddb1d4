import EventEnvelope.Proofs.Effects
import EventEnvelope.Proofs.Wire.Found

/-! Which of the values that can be written can be read. A writer takes any value without parts for
a key, a reader plain texts and byte strings only. Main statements: the bytes of a value are read if
every key in it, at any depth, is a text without a kind of its own, and refused otherwise. -/

namespace EventEnvelope

namespace Datum

mutual

/-- Every key in the value travels as a plain text. -/
def hasTextKeys : Datum → Bool
  | list xs => haveTextKeys xs
  | tuple xs => haveTextKeys xs
  | map es => entriesHaveTextKeys es
  | _ => true

def haveTextKeys : List Datum → Bool
  | [] => true
  | x :: r => hasTextKeys x && haveTextKeys r

def entriesHaveTextKeys : List (Datum × Datum) → Bool
  | [] => true
  | (k, v) :: r => k.keyText?.isSome && hasTextKeys v && entriesHaveTextKeys r

end

theorem haveTextKeys_eq_all (xs : List Datum) : haveTextKeys xs = xs.all hasTextKeys := by
  induction xs with
  | nil => rfl
  | cons x r ih => rw [haveTextKeys, ih, List.all_cons]

theorem entriesHaveTextKeys_eq_all (es : List (Datum × Datum)) :
    entriesHaveTextKeys es = es.all fun e => e.1.keyText?.isSome && e.2.hasTextKeys := by
  induction es with
  | nil => rfl
  | cons e r ih => rw [entriesHaveTextKeys, ih, List.all_cons]

end Datum

namespace Wire

mutual

/-- A tree as it is made of a value: every leaf stands for a value, and every key is a leaf. -/
def isSound : Wire → Bool
  | array xs => areSound xs
  | map es => entriesSound es
  | w => (toDatum w).isSome

def areSound : List Wire → Bool
  | [] => true
  | x :: r => isSound x && areSound r

def entriesSound : List (Wire × Wire) → Bool
  | [] => true
  | (k, v) :: r => k.isKey && isSound k && isSound v && entriesSound r

end

theorem toDatum_of_isKey {k : Wire} (leaf : k.isKey = true) (sound : k.isSound = true) :
    ∃ d, toDatum k = some d := by
  cases k with
  | array xs => cases leaf
  | map es => cases leaf
  | _ => exact Option.isSome_iff_exists.mp sound

theorem isKey_of_readable {k : Wire} {d : Datum} (value : toDatum k = some d)
    (readable : isReadableKey d = true) : k.isKey = true := by
  cases k with
  | array xs =>
    obtain ⟨ds, _, rfl⟩ := Option.map_eq_some_iff.mp value
    cases readable
  | map es =>
    obtain ⟨ds, _, rfl⟩ := Option.map_eq_some_iff.mp value
    cases readable
  | _ => rfl

mutual

/-- A tree that stands for a value is sound. -/
theorem isSound_of_toDatum : (w : Wire) → (toDatum w).isSome = true → w.isSound = true
  | array xs, value => by
    rw [toDatum, Option.isSome_map] at value
    exact areSound_of_toData xs value
  | map es, value => by
    rw [toDatum, Option.isSome_map] at value
    exact entriesSound_of_toEntries es value
  | null, value => value
  | flag _, value => value
  | integer _, value => value
  | text _, value => value
  | ext _ _, value => value

theorem areSound_of_toData : (xs : List Wire) → (toData xs).isSome = true → areSound xs = true
  | [], _ => rfl
  | x :: r, values => by
    rw [toData] at values
    split at values
    · next d ds first rest =>
      rw [areSound, isSound_of_toDatum x (by rw [first]; rfl),
        areSound_of_toData r (by rw [rest]; rfl)]
      rfl
    · cases values

theorem entriesSound_of_toEntries : (es : List (Wire × Wire)) → (toEntries es).isSome = true →
    entriesSound es = true
  | [], _ => rfl
  | (k, v) :: r, values => by
    rw [toEntries] at values
    split at values
    · next key value es first second rest =>
      split at values
      · next readable =>
        rw [entriesSound, isKey_of_readable first readable,
          isSound_of_toDatum k (by rw [first]; rfl), isSound_of_toDatum v (by rw [second]; rfl),
          entriesSound_of_toEntries r (by rw [rest]; rfl)]
        rfl
      · cases values
    · cases values

end

section Failing

variable {α β : Type}

/-- Reading a message ends in a fault. -/
def Read.Fails (x : Read α) (bs : Bytes) : Prop := ∃ fault, x bs = .error fault

theorem Read.Fails.bind {x : Read α} {bs : Bytes} (h : x.Fails bs) (f : α → Read β) :
    Read.Fails (x >>= f) bs := by
  obtain ⟨fault, run⟩ := h
  exact ⟨fault, Read.bind_error run⟩

theorem Read.Fails.after {x : Read α} {f : α → Read β} {bs rest : Bytes} {a : α}
    (first : x bs = .ok (a, rest)) (h : (f a).Fails rest) : Read.Fails (x >>= f) bs := by
  obtain ⟨fault, run⟩ := h
  exact ⟨fault, (Read.bind_ok first).trans run⟩

theorem Read.fails_refuse (fault : DecodeFault) (bs : Bytes) :
    Read.Fails (refuse fault : Read α) bs := ⟨fault, rfl⟩

end Failing

section Parts

variable {total inner count n : Nat} {bs mid mid' : Bytes} {value : Read Datum} {d k v : Datum}

theorem fails_array (h : head bs = .ok (.array count, mid))
    (parts : (readAll (read total inner) count).Fails mid) : (read total (inner + 1)).Fails bs := by
  refine .after h ?_
  dsimp only
  split
  · exact Read.fails_refuse _ _
  · exact parts.bind _

theorem fails_map (h : head bs = .ok (.map count, mid))
    (parts : (readEntries (read total inner) count).Fails mid) :
    (read total (inner + 1)).Fails bs := by
  refine .after h ?_
  dsimp only
  split
  · exact Read.fails_refuse _ _
  · exact parts.bind _

theorem fails_readAll_later (first : value bs = .ok (d, mid)) (rest : (readAll value n).Fails mid) :
    (readAll value (n + 1)).Fails bs :=
  .after first (rest.bind _)

/-- A key that no reader admits is refused after the value under it. -/
theorem fails_readEntries_key (key : value bs = .ok (k, mid)) (stored : value mid = .ok (v, mid'))
    (unreadable : isReadableKey k = false) : (readEntries value (n + 1)).Fails bs := by
  refine .after key (.after stored ?_)
  rw [unreadable]
  exact Read.fails_refuse _ _

theorem fails_readEntries_later (key : value bs = .ok (k, mid)) (stored : value mid = .ok (v, mid'))
    (rest : (readEntries value n).Fails mid') : (readEntries value (n + 1)).Fails bs := by
  refine .after key (.after stored ?_)
  split
  · exact rest.bind _
  · exact Read.fails_refuse _ _

end Parts

mutual

/-- What was written of a sound tree is refused unless the tree stands for a value. -/
theorem read_fails {total levels opened : Nat} {bs : Bytes} :
    (w : Wire) → w.isSound = true → toDatum w = none → write levels w = .ok bs →
      levels < opened → bs.length ≤ total → (rest : Bytes) →
      (read total opened).Fails (bs ++ rest)
  | array xs, sound, valueless, written, deeper, held, rest => by
    obtain ⟨inner, rfl⟩ : ∃ inner, opened = inner + 1 := ⟨opened - 1, by omega⟩
    obtain ⟨front, body, count, parts, rfl⟩ := headed_eq_ok written
    simp only [List.length_append] at held
    rw [List.append_assoc]
    exact fails_array (head_array count _) (readAll_fails xs sound
      (Option.map_eq_none_iff.mp valueless) parts (by omega) (by omega) rest)
  | map es, sound, valueless, written, deeper, held, rest => by
    obtain ⟨inner, rfl⟩ : ∃ inner, opened = inner + 1 := ⟨opened - 1, by omega⟩
    obtain ⟨front, body, count, parts, rfl⟩ := headed_eq_ok written
    simp only [List.length_append] at held
    rw [List.append_assoc]
    exact fails_map (head_map count _) (readEntries_fails es sound
      (Option.map_eq_none_iff.mp valueless) parts (by omega) (by omega) rest)
  | null, _, valueless, _, _, _, _ => by cases valueless
  | flag _, _, valueless, _, _, _, _ => by cases valueless
  | text _, _, valueless, _, _, _, _ => by cases valueless
  | integer n, sound, valueless, _, _, _, _ =>
    absurd (toDatum_of_isKey rfl sound) (by simp [valueless])
  | ext code body, sound, valueless, _, _, _, _ =>
    absurd (toDatum_of_isKey rfl sound) (by simp [valueless])

theorem readAll_fails {total levels opened : Nat} {bs : Bytes} :
    (xs : List Wire) → areSound xs = true → toData xs = none → writeAll levels xs = .ok bs →
      levels ≤ opened → bs.length ≤ total → (rest : Bytes) →
      (readAll (read total opened) xs.length).Fails (bs ++ rest)
  | [], _, valueless, _, _, _, _ => by cases valueless
  | x :: r, sound, valueless, written, deeper, held, rest => by
    obtain ⟨inner, front, others, rfl, first, second, rfl⟩ := writeAll_cons_eq_ok written
    rw [areSound, Bool.and_eq_true] at sound
    simp only [List.length_append] at held
    rw [List.append_assoc]
    cases one : toDatum x with
    | none => exact (read_fails x sound.1 one first (by omega) (by omega) _).bind _
    | some d =>
      have later : toData r = none := by
        simp only [toData, one] at valueless
        cases others : toData r with
        | none => rfl
        | some ds => simp [others] at valueless
      exact fails_readAll_later (read_write x first one (by omega) (by omega) _)
        (readAll_fails r sound.2 later second deeper (by omega) rest)

theorem readEntries_fails {total levels opened : Nat} {bs : Bytes} :
    (es : List (Wire × Wire)) → entriesSound es = true → toEntries es = none →
      writeEntries levels es = .ok bs → levels ≤ opened → bs.length ≤ total → (rest : Bytes) →
      (readEntries (read total opened) es.length).Fails (bs ++ rest)
  | [], _, valueless, _, _, _, _ => by cases valueless
  | (k, v) :: r, sound, valueless, written, deeper, held, rest => by
    obtain ⟨inner, front, mid, others, rfl, first, second, third, rfl⟩ :=
      writeEntries_cons_eq_ok written
    simp only [entriesSound, Bool.and_eq_true] at sound
    obtain ⟨⟨⟨leaf, soundKey⟩, soundValue⟩, soundRest⟩ := sound
    simp only [List.length_append] at held
    rw [List.append_assoc, List.append_assoc]
    -- a key is a leaf, so reading gets past it
    obtain ⟨key, one⟩ := toDatum_of_isKey leaf soundKey
    have passed := read_write k first one (show inner < opened by omega)
      (show front.length ≤ total by omega) (mid ++ (others ++ rest))
    cases two : toDatum v with
    | none =>
      exact .after passed ((read_fails v soundValue two second (by omega) (by omega) _).bind _)
    | some value =>
      have stored := read_write v second two (show inner < opened by omega)
        (show mid.length ≤ total by omega) (others ++ rest)
      cases readable : isReadableKey key with
      | false => exact fails_readEntries_key passed stored readable
      | true =>
        have later : toEntries r = none := by
          simp only [toEntries, one, two] at valueless
          cases others : toEntries r with
          | none => rfl
          | some ds => simp [others, readable] at valueless
        exact fails_readEntries_later passed stored
          (readEntries_fails r soundRest later third deeper (by omega) rest)

end

theorem decode_fails {w : Wire} {bs : Bytes} (sound : w.isSound = true)
    (valueless : toDatum w = none) (written : write writerLevels w = .ok bs) :
    ∃ fault, decode bs = .error fault := by
  obtain ⟨fault, run⟩ : (read bs.length readerLevels).Fails (bs ++ []) :=
    read_fails w sound valueless written (by decide) (Nat.le_refl _) []
  rw [List.append_nil] at run
  refine ⟨fault, ?_⟩
  rw [decode, run]

theorem toDatum_ofDatum {d : Datum} {w : Wire} (portable : d.isPortable = true)
    (tree : ofDatum d = .ok w) : toDatum w = some d.received :=
  ((ofDatum_conveys d portable).of_ok tree).value

/-- The tree of a key stands for a value, which a reader admits if the key is an untyped text. -/
theorem ofDatum_key {k : Datum} {w : Wire} (tree : ofDatum k = .ok w) (leaf : w.isKey = true) :
    toDatum w = some k.received ∧ isReadableKey k.received = k.keyText?.isSome := by
  cases k with
  | null => exact ⟨toDatum_ofDatum rfl tree, rfl⟩
  | flag b => exact ⟨toDatum_ofDatum rfl tree, rfl⟩
  | number n => exact ⟨toDatum_ofDatum rfl tree, rfl⟩
  | text t => exact ⟨toDatum_ofDatum rfl tree, by cases t <;> rfl⟩
  | struct s =>
    obtain ⟨fields, _, rfl⟩ := eq_ok_of_map tree
    cases leaf
  | list xs =>
    obtain ⟨ws, _, rfl⟩ := eq_ok_of_map tree
    cases leaf
  | tuple xs =>
    obtain ⟨ws, _, rfl⟩ := eq_ok_of_map tree
    cases leaf
  | map es =>
    obtain ⟨ws, _, rfl⟩ := eq_ok_of_map tree
    cases leaf
  | _ => cases tree

theorem leaf_sound {d : Datum} {w : Wire} (portable : d.isPortable = true)
    (keyless : d.hasTextKeys = true) (tree : ofDatum d = .ok w) :
    w.isSound = true ∧ toDatum w = if d.hasTextKeys then some d.received else none := by
  have value := toDatum_ofDatum portable tree
  rw [if_pos keyless]
  exact ⟨isSound_of_toDatum _ (by rw [value]; rfl), value⟩

mutual

/-- The tree of a value is sound, and stands for what a reader is to find if all keys are untyped
texts. -/
theorem ofDatum_sound : (d : Datum) → {w : Wire} → ofDatum d = .ok w →
    w.isSound = true ∧ toDatum w = if d.hasTextKeys then some d.received else none
  | .null, _, tree => leaf_sound rfl rfl tree
  | .flag _, _, tree => leaf_sound rfl rfl tree
  | .number _, _, tree => leaf_sound rfl rfl tree
  | .text _, _, tree => leaf_sound rfl rfl tree
  | .struct _, _, tree => leaf_sound rfl rfl tree
  | .list xs, _, tree => by
    obtain ⟨ws, trees, rfl⟩ := eq_ok_of_map tree
    obtain ⟨sound, values⟩ := ofData_sound xs trees
    refine ⟨sound, ?_⟩
    rw [toDatum, values, Datum.hasTextKeys, Datum.received]
    split <;> rfl
  | .tuple xs, _, tree => by
    obtain ⟨ws, trees, rfl⟩ := eq_ok_of_map tree
    obtain ⟨sound, values⟩ := ofData_sound xs trees
    refine ⟨sound, ?_⟩
    rw [toDatum, values, Datum.hasTextKeys, Datum.received]
    split <;> rfl
  | .map es, _, tree => by
    obtain ⟨ws, trees, rfl⟩ := eq_ok_of_map tree
    obtain ⟨sound, values⟩ := ofEntries_sound es trees
    refine ⟨sound, ?_⟩
    rw [toDatum, values, Datum.hasTextKeys, Datum.received]
    split <;> rfl

theorem ofData_sound : (xs : List Datum) → {ws : List Wire} → ofData xs = .ok ws →
    areSound ws = true ∧
      toData ws = if Datum.haveTextKeys xs then some (Datum.receivedAll xs) else none
  | [], _, trees => by cases trees; exact ⟨rfl, rfl⟩
  | x :: r, _, trees => by
    obtain ⟨w, ws, one, others, rfl⟩ := ofData_cons_eq_ok trees
    obtain ⟨sound, value⟩ := ofDatum_sound x one
    obtain ⟨sounds, values⟩ := ofData_sound r others
    constructor
    · rw [areSound, sound, sounds]
      rfl
    · rw [Datum.haveTextKeys, Datum.receivedAll, toData, value, values]
      cases x.hasTextKeys <;> cases Datum.haveTextKeys r <;> rfl

theorem ofEntries_sound : (es : List (Datum × Datum)) → {ws : List (Wire × Wire)} →
    ofEntries es = .ok ws → entriesSound ws = true ∧
      toEntries ws = if Datum.entriesHaveTextKeys es then some (Datum.receivedEntries es) else none
  | [], _, trees => by cases trees; exact ⟨rfl, rfl⟩
  | (k, v) :: r, _, trees => by
    obtain ⟨kw, vw, ws, key, stored, leaf, others, rfl⟩ := ofEntries_cons_eq_ok trees
    obtain ⟨soundKey, _⟩ := ofDatum_sound k key
    obtain ⟨soundValue, value⟩ := ofDatum_sound v stored
    obtain ⟨sounds, values⟩ := ofEntries_sound r others
    obtain ⟨known, readable⟩ := ofDatum_key key leaf
    constructor
    · rw [entriesSound, leaf, soundKey, soundValue, sounds]
      rfl
    · rw [Datum.entriesHaveTextKeys, Datum.receivedEntries, ← readable, toEntries, known, value,
        values]
      cases admitted : isReadableKey k.received <;> cases v.hasTextKeys <;>
        cases Datum.entriesHaveTextKeys r <;> simp [admitted]

end

variable {d : Datum} {bs : Bytes}

theorem written_of_encode (written : encode d = .ok bs) :
    ∃ w, ofDatum d = .ok w ∧ write writerLevels w = .ok bs := by
  obtain ⟨w, tree⟩ := ofDatum_of_encode written
  rw [encode, tree] at written
  exact ⟨w, tree, written⟩

/-- With untyped texts for keys, the bytes of a value are read. -/
theorem decode_of_textKeys (written : encode d = .ok bs) (texts : d.hasTextKeys = true) :
    decode bs = .ok d.received := by
  obtain ⟨w, tree, spelled⟩ := written_of_encode written
  have value := (ofDatum_sound d tree).2
  rw [if_pos texts] at value
  exact decode_write spelled value

/-- With any other key in it, at any depth, they are refused. -/
theorem decode_of_otherKeys (written : encode d = .ok bs) (other : ¬d.hasTextKeys = true) :
    ∃ fault, decode bs = .error fault := by
  obtain ⟨w, tree, spelled⟩ := written_of_encode written
  obtain ⟨sound, value⟩ := ofDatum_sound d tree
  rw [if_neg other] at value
  exact decode_fails sound value spelled

end Wire

end EventEnvelope
