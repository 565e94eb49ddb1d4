import EventEnvelope.Proofs.Wire.Head

/-! The value that a wire tree stands for, told from the tree alone. Main statement: whatever the
writer makes of a tree, the reader makes of it the tree's value, also with other bytes behind. -/

namespace EventEnvelope.Wire

mutual

/-- The value of a tree. Integers have to be native, extension codes positive bytes, and only plain
texts and byte strings serve as keys. -/
def toDatum : Wire → Option Datum
  | null => some .null
  | flag b => some (.flag b)
  | integer n => if isNative n then some (.number n) else none
  | text s => some (.plain s)
  | ext code bs => if code < 0x80 then (ofExt code bs).toOption else none
  | array xs => (toData xs).map .tuple
  | map es => (toEntries es).map fun es => .map (Datum.ofEntries es)

def toData : List Wire → Option (List Datum)
  | [] => some []
  | w :: r =>
    match toDatum w, toData r with
    | some d, some ds => some (d :: ds)
    | _, _ => none

def toEntries : List (Wire × Wire) → Option (List (Datum × Datum))
  | [] => some []
  | (k, v) :: r =>
    match toDatum k, toDatum v, toEntries r with
    | some key, some value, some es => if isReadableKey key then some ((key, value) :: es) else none
    | _, _, _ => none

end

section Sizes

theorem CountTags.head_ne_nil {t : CountTags} {n : Nat} {bs : Bytes} (h : t.head n = some bs) :
    bs ≠ [] := by
  rcases head_cases h with ⟨_, rfl⟩ | ⟨_, _, _, rfl⟩ | ⟨_, rfl⟩ | ⟨_, rfl⟩ <;> simp

theorem writeInteger_ne_nil (n : Int) : writeInteger n ≠ [] := by
  unfold writeInteger writeNatural writeNegative
  repeat' split
  all_goals simp [Bytes.ofInt, Bytes.ofNat]

/-- Every tree takes at least one byte. -/
theorem write_ne_nil {levels : Nat} {w : Wire} {bs : Bytes} (h : write levels w = .ok bs) :
    bs ≠ [] := by
  cases w with
  | null => cases h; simp
  | flag b => cases b <;> cases h <;> simp
  | integer n => cases h; exact writeInteger_ne_nil n
  | text s =>
    obtain ⟨_, front, _, count, rfl⟩ := writeText_eq_ok h
    simp [CountTags.head_ne_nil count]
  | ext code body =>
    obtain ⟨front, count, rfl⟩ := writeExt_eq_ok h
    simp
  | array xs =>
    obtain ⟨front, _, count, _, rfl⟩ := headed_eq_ok h
    simp [CountTags.head_ne_nil count]
  | map es =>
    obtain ⟨front, _, count, _, rfl⟩ := headed_eq_ok h
    simp [CountTags.head_ne_nil count]

/-- A part that is not the last needs a level below it. -/
theorem writeAll_cons_eq_ok {levels : Nat} {x : Wire} {r : List Wire} {bs : Bytes}
    (h : writeAll levels (x :: r) = .ok bs) :
    ∃ inner front back, levels = inner + 1 ∧ write inner x = .ok front ∧
      writeAll levels r = .ok back ∧ bs = front ++ back := by
  cases levels with
  | zero => simp [writeAll] at h
  | succ inner =>
    rw [writeAll] at h
    obtain ⟨front, back, parts⟩ := joined_eq_ok h
    exact ⟨inner, front, back, rfl, parts⟩

theorem writeEntries_cons_eq_ok {levels : Nat} {k v : Wire} {r : List (Wire × Wire)} {bs : Bytes}
    (h : writeEntries levels ((k, v) :: r) = .ok bs) :
    ∃ inner front mid back, levels = inner + 1 ∧ write inner k = .ok front ∧
      write inner v = .ok mid ∧ writeEntries levels r = .ok back ∧ bs = front ++ (mid ++ back) := by
  cases levels with
  | zero => simp [writeEntries] at h
  | succ inner =>
    rw [writeEntries] at h
    obtain ⟨front, _, first, rest, rfl⟩ := joined_eq_ok h
    obtain ⟨mid, back, second, others, rfl⟩ := joined_eq_ok rest
    exact ⟨inner, front, mid, back, rfl, first, second, others, rfl⟩

theorem length_le_of_writeAll {levels : Nat} {xs : List Wire} {bs : Bytes}
    (h : writeAll levels xs = .ok bs) : xs.length ≤ bs.length := by
  induction xs generalizing bs with
  | nil => simp
  | cons x r ih =>
    obtain ⟨inner, front, back, -, first, rest, rfl⟩ := writeAll_cons_eq_ok h
    have := List.length_pos_iff.mpr (write_ne_nil first)
    have := ih rest
    simp only [List.length_cons, List.length_append]
    omega

theorem length_le_of_writeEntries {levels : Nat} {es : List (Wire × Wire)} {bs : Bytes}
    (h : writeEntries levels es = .ok bs) : 2 * es.length ≤ bs.length := by
  induction es generalizing bs with
  | nil => simp
  | cons e r ih =>
    obtain ⟨inner, front, mid, back, -, first, second, rest, rfl⟩ := writeEntries_cons_eq_ok h
    have := List.length_pos_iff.mpr (write_ne_nil first)
    have := List.length_pos_iff.mpr (write_ne_nil second)
    have := ih rest
    simp only [List.length_cons, List.length_append]
    omega

end Sizes

theorem read_whole {total levels : Nat} {bs rest : Bytes} {d : Datum}
    (h : head bs = .ok (.whole d, rest)) : read total levels bs = .ok (d, rest) := by
  cases levels <;> exact Read.bind_ok h

theorem read_array {total inner count : Nat} {bs mid rest : Bytes} {ds : List Datum}
    (h : head bs = .ok (.array count, mid)) (holds : count ≤ total)
    (parts : readAll (read total inner) count mid = .ok (ds, rest)) :
    read total (inner + 1) bs = .ok (.tuple ds, rest) := by
  refine (Read.bind_ok h).trans ?_
  dsimp only
  rw [if_neg (by omega)]
  exact Read.bind_ok parts

theorem read_map {total inner count : Nat} {bs mid rest : Bytes} {es : List (Datum × Datum)}
    (h : head bs = .ok (.map count, mid)) (holds : 2 * count ≤ total)
    (parts : readEntries (read total inner) count mid = .ok (es, rest)) :
    read total (inner + 1) bs = .ok (.map (Datum.ofEntries es), rest) := by
  refine (Read.bind_ok h).trans ?_
  dsimp only
  rw [if_neg (by omega)]
  exact Read.bind_ok parts

theorem readAll_cons {value : Read Datum} {n : Nat} {bs mid rest : Bytes} {d : Datum}
    {ds : List Datum} (first : value bs = .ok (d, mid))
    (others : readAll value n mid = .ok (ds, rest)) :
    readAll value (n + 1) bs = .ok (d :: ds, rest) :=
  (Read.bind_ok first).trans (Read.bind_ok others)

theorem readEntries_cons {value : Read Datum} {n : Nat} {bs mid mid' rest : Bytes}
    {k v : Datum} {es : List (Datum × Datum)} (key : value bs = .ok (k, mid))
    (stored : value mid = .ok (v, mid')) (readable : isReadableKey k = true)
    (others : readEntries value n mid' = .ok (es, rest)) :
    readEntries value (n + 1) bs = .ok ((k, v) :: es, rest) := by
  refine (Read.bind_ok key).trans ((Read.bind_ok stored).trans ?_)
  rw [if_pos readable]
  exact Read.bind_ok others

theorem head_leaf {levels : Nat} {w : Wire} {bs : Bytes} {d : Datum}
    (written : write levels w = .ok bs) (value : toDatum w = some d)
    (leaf : (∀ xs, w ≠ array xs) ∧ ∀ es, w ≠ map es) (rest : Bytes) :
    head (bs ++ rest) = .ok (.whole d, rest) := by
  cases w with
  | null =>
    cases written
    cases value
    exact head_cons 0xc0 rest
  | flag b =>
    cases b with
    | false =>
      cases written
      cases value
      exact head_cons 0xc2 rest
    | true =>
      cases written
      cases value
      exact head_cons 0xc3 rest
  | integer n =>
    cases written
    simp only [toDatum] at value
    split at value
    · next native =>
      cases value
      exact head_integer native rest
    · contradiction
  | text s => cases value; exact head_text written rest
  | ext code body =>
    simp only [toDatum] at value
    split at value
    · next small =>
      cases known : ofExt code body with
      | error e => simp [known, Except.toOption] at value
      | ok d' =>
        rw [known] at value
        cases value
        exact head_ext small known written rest
    · contradiction
  | array xs => exact absurd rfl (leaf.1 xs)
  | map es => exact absurd rfl (leaf.2 es)

mutual

/-- What was written with so many levels is read with more of them. -/
theorem read_write {total levels opened : Nat} {bs : Bytes} {d : Datum} :
    (w : Wire) → write levels w = .ok bs → toDatum w = some d → levels < opened →
      bs.length ≤ total → (rest : Bytes) → read total opened (bs ++ rest) = .ok (d, rest)
  | array xs, written, value, deeper, held, rest => by
    obtain ⟨inner, rfl⟩ : ∃ inner, opened = inner + 1 := ⟨opened - 1, by omega⟩
    obtain ⟨front, body, count, parts, rfl⟩ := headed_eq_ok written
    obtain ⟨ds, values, rfl⟩ := Option.map_eq_some_iff.mp value
    -- every element takes a byte, so the reader does not find the count too large
    have short := length_le_of_writeAll parts
    simp only [List.length_append] at held
    rw [List.append_assoc]
    exact read_array (head_array count _) (by omega)
      (readAll_write xs parts values (by omega) (by omega) rest)
  | map es, written, value, deeper, held, rest => by
    obtain ⟨inner, rfl⟩ : ∃ inner, opened = inner + 1 := ⟨opened - 1, by omega⟩
    obtain ⟨front, body, count, parts, rfl⟩ := headed_eq_ok written
    obtain ⟨ds, values, rfl⟩ := Option.map_eq_some_iff.mp value
    have short := length_le_of_writeEntries parts
    simp only [List.length_append] at held
    rw [List.append_assoc]
    exact read_map (head_map count _) (by omega)
      (readEntries_write es parts values (by omega) (by omega) rest)
  | null, written, value, _, _, rest => read_whole (head_leaf written value (by simp) rest)
  | flag _, written, value, _, _, rest => read_whole (head_leaf written value (by simp) rest)
  | integer _, written, value, _, _, rest => read_whole (head_leaf written value (by simp) rest)
  | text _, written, value, _, _, rest => read_whole (head_leaf written value (by simp) rest)
  | ext _ _, written, value, _, _, rest => read_whole (head_leaf written value (by simp) rest)

theorem readAll_write {total levels opened : Nat} {bs : Bytes} {ds : List Datum} :
    (xs : List Wire) → writeAll levels xs = .ok bs → toData xs = some ds → levels ≤ opened →
      bs.length ≤ total → (rest : Bytes) →
      readAll (read total opened) xs.length (bs ++ rest) = .ok (ds, rest)
  | [], written, values, _, _, rest => by cases written; cases values; rfl
  | x :: r, written, values, deeper, held, rest => by
    obtain ⟨inner, front, others, rfl, first, second, rfl⟩ := writeAll_cons_eq_ok written
    simp only [toData] at values
    split at values
    · next d ds one rest' =>
      cases values
      simp only [List.length_append] at held
      rw [List.append_assoc]
      exact readAll_cons (read_write x first one (by omega) (by omega) _)
        (readAll_write r second rest' deeper (by omega) rest)
    · contradiction

theorem readEntries_write {total levels opened : Nat} {bs : Bytes} {ds : List (Datum × Datum)} :
    (es : List (Wire × Wire)) → writeEntries levels es = .ok bs → toEntries es = some ds →
      levels ≤ opened → bs.length ≤ total → (rest : Bytes) →
      readEntries (read total opened) es.length (bs ++ rest) = .ok (ds, rest)
  | [], written, values, _, _, rest => by cases written; cases values; rfl
  | (k, v) :: r, written, values, deeper, held, rest => by
    obtain ⟨inner, front, mid, others, rfl, first, second, third, rfl⟩ :=
      writeEntries_cons_eq_ok written
    simp only [toEntries] at values
    split at values
    · next key value es one two three =>
      split at values
      · next readable =>
        cases values
        simp only [List.length_append] at held
        rw [List.append_assoc, List.append_assoc]
        exact readEntries_cons (read_write k first one (by omega) (by omega) _)
          (read_write v second two (by omega) (by omega) _) readable
          (readEntries_write r third three deeper (by omega) rest)
      · contradiction
    · contradiction

end

theorem decode_write {w : Wire} {bs : Bytes} {d : Datum} (written : write writerLevels w = .ok bs)
    (value : toDatum w = some d) : decode bs = .ok d := by
  have spelled : read bs.length readerLevels (bs ++ []) = .ok (d, []) :=
    read_write w written value (by decide) (Nat.le_refl _) []
  rw [List.append_nil] at spelled
  unfold decode
  rw [spelled]

end EventEnvelope.Wire
