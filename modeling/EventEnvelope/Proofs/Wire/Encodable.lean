import EventEnvelope.Wire.Writer

/-! Values whose texts all have bytes. A surrogate has none wherever it stands. Main statement: a
value without surrogates is never refused for its texts, though it may be too large, or of a kind
that has no wire form. -/

namespace EventEnvelope

def Value.isEncodable : Value → Bool
  | flag _ | number _ => true
  | symbol s => s.text.isProper
  | address a => a.text.isProper

namespace Datum

mutual

/-- Each text has bytes as it travels. -/
def isEncodable : Datum → Bool
  | text t => t.carried.isProper
  | struct s => s.entries.all fun e => e.2.isEncodable
  | list xs => areEncodable xs
  | tuple xs => areEncodable xs
  | map es => areEntriesEncodable es
  | _ => true

def areEncodable : List Datum → Bool
  | [] => true
  | x :: r => isEncodable x && areEncodable r

def areEntriesEncodable : List (Datum × Datum) → Bool
  | [] => true
  | (k, v) :: r => isEncodable k && isEncodable v && areEntriesEncodable r

end

end Datum

namespace Wire

mutual

def isEncodable : Wire → Bool
  | text s => s.isProper
  | array xs => areEncodable xs
  | map es => areEntriesEncodable es
  | _ => true

def areEncodable : List Wire → Bool
  | [] => true
  | x :: r => isEncodable x && areEncodable r

def areEntriesEncodable : List (Wire × Wire) → Bool
  | [] => true
  | (k, v) :: r => isEncodable k && isEncodable v && areEntriesEncodable r

end

section Bytes

variable {first rest : Except Failure Bytes} {head : Option Bytes} {e : Failure}

theorem joined_eq_error (h : joined first rest = .error e) :
    first = .error e ∨ rest = .error e := by
  cases first with
  | error e' => cases h; exact .inl rfl
  | ok bs =>
    cases rest with
    | error e' => cases h; exact .inr rfl
    | ok cs => cases h

theorem headed_eq_error (h : headed head rest = .error e) :
    e = .badValue ∨ rest = .error e := by
  refine (joined_eq_error h).imp_left fun failed => ?_
  cases head with
  | none => cases failed; rfl
  | some bs => cases failed

mutual

/-- A tree has no bytes for want of room, or for a text that has none. -/
theorem write_eq_error {levels : Nat} : (w : Wire) → write levels w = .error e →
    e = .badValue ∨ w.isEncodable = false ∧ e = .unencodable
  | null, h | flag true, h | flag false, h | integer _, h => by cases h
  | text (.proper s), h => (headed_eq_error h).imp_right nofun
  | text (.broken s u r), h => by cases h; exact .inr ⟨rfl, rfl⟩
  | ext _ _, h => (headed_eq_error h).imp_right nofun
  | array xs, h => (headed_eq_error h).elim .inl (writeAll_eq_error xs)
  | map es, h => (headed_eq_error h).elim .inl (writeEntries_eq_error es)

theorem writeAll_eq_error {levels : Nat} : (xs : List Wire) → writeAll levels xs = .error e →
    e = .badValue ∨ areEncodable xs = false ∧ e = .unencodable
  | x :: r, h => by
    cases levels with
    | zero => cases h; exact .inl rfl
    | succ inner =>
      rcases joined_eq_error h with first | others
      · refine (write_eq_error x first).imp_right (And.imp_left fun broken => ?_)
        rw [areEncodable, broken, Bool.false_and]
      · refine (writeAll_eq_error r others).imp_right (And.imp_left fun broken => ?_)
        rw [areEncodable, broken, Bool.and_false]

theorem writeEntries_eq_error {levels : Nat} : (es : List (Wire × Wire)) →
    writeEntries levels es = .error e →
      e = .badValue ∨ areEntriesEncodable es = false ∧ e = .unencodable
  | (k, v) :: r, h => by
    cases levels with
    | zero => cases h; exact .inl rfl
    | succ inner =>
      rcases joined_eq_error h with first | h
      · refine (write_eq_error k first).imp_right (And.imp_left fun broken => ?_)
        rw [areEntriesEncodable, broken, Bool.false_and, Bool.false_and]
      rcases joined_eq_error h with second | others
      · refine (write_eq_error v second).imp_right (And.imp_left fun broken => ?_)
        rw [areEntriesEncodable, broken, Bool.and_false, Bool.false_and]
      · refine (writeEntries_eq_error r others).imp_right (And.imp_left fun broken => ?_)
        rw [areEntriesEncodable, broken, Bool.and_false]

end

end Bytes

/-- What was made is as it should be, or nothing was made for another reason than a text. -/
inductive Spelled {α : Type} (good : α → Prop) : Except Failure α → Prop
  | made {a : α} (h : good a) : Spelled good (.ok a)
  | failed {e : Failure} (h : e ≠ .unencodable) : Spelled good (.error e)

theorem Spelled.map {α β : Type} {good : α → Prop} {good' : β → Prop} {r : Except Failure α}
    {f : α → β} (h : Spelled good r) (more : ∀ a, good a → good' (f a)) :
    Spelled good' (r.map f) := by
  cases h with
  | made holds => exact .made (more _ holds)
  | failed other => exact .failed other

theorem spelled_ofTyped (code : Nat) {s : CodeText} (h : s.isProper = true) :
    Spelled (isEncodable · = true) (ofTyped code s) := by
  cases s with
  | proper s => exact .made rfl
  | broken s u rest => cases h

theorem spelled_ofInt (n : Int) : (ofInt n).isEncodable = true := by
  unfold ofInt
  split <;> rfl

theorem spelled_ofText {t : Text} (h : t.carried.isProper = true) :
    Spelled (isEncodable · = true) (ofText t) := by
  cases t with
  | address a => exact spelled_ofTyped addressCode h
  | symbol s => exact spelled_ofTyped symbolCode h
  | _ => exact .made h

theorem spelled_ofValue {v : Value} (h : v.isEncodable = true) :
    Spelled (isEncodable · = true) (ofValue v) := by
  cases v with
  | flag b => exact .made rfl
  | number n => exact .made (spelled_ofInt n)
  | symbol s => exact spelled_ofTyped symbolCode h
  | address a => exact spelled_ofTyped addressCode h

theorem spelled_ofFields {es : List (Field × Value)}
    (h : ∀ e ∈ es, e.2.isEncodable = true) :
    Spelled (areEntriesEncodable · = true) (ofFields es) := by
  induction es with
  | nil => exact .made rfl
  | cons e r ih =>
    obtain ⟨f, v⟩ := e
    rw [List.forall_mem_cons] at h
    have first := spelled_ofValue h.1
    rw [ofFields]
    generalize ofValue v = tree at first ⊢
    cases first with
    | failed other => exact .failed other
    | made value =>
      refine (ih h.2).map fun fields others => ?_
      rw [areEntriesEncodable, value, others]
      rfl

theorem spelled_ofStruct {s : LegacyStruct} (h : (Datum.struct s).isEncodable = true) :
    Spelled (isEncodable · = true) (ofStruct s) := by
  rw [Datum.isEncodable, List.all_eq_true] at h
  refine (spelled_ofFields h).map fun fields encodable => ?_
  simp only [isEncodable, areEntriesEncodable, encodable]
  rfl

mutual

theorem spelled_ofDatum :
    (d : Datum) → d.isEncodable = true → Spelled (isEncodable · = true) (ofDatum d)
  | .null, _ | .flag _, _ => .made rfl
  | .number n, _ => .made (spelled_ofInt n)
  | .text _, h => spelled_ofText h
  | .struct _, h => spelled_ofStruct h
  | .list xs, h => (spelled_ofData xs h).map fun _ encodable => encodable
  | .tuple xs, h => (spelled_ofData xs h).map fun _ encodable => encodable
  | .map es, h => (spelled_ofEntries es h).map fun _ encodable => encodable
  | .real _, _ | .bytes _, _ | .set _, _ | .ext _ _, _ | .timestamp _ _, _ => .failed nofun

theorem spelled_ofData :
    (xs : List Datum) → Datum.areEncodable xs = true →
      Spelled (areEncodable · = true) (ofData xs)
  | [], _ => .made rfl
  | x :: r, h => by
    rw [Datum.areEncodable, Bool.and_eq_true] at h
    have first := spelled_ofDatum x h.1
    rw [ofData]
    generalize ofDatum x = tree at first ⊢
    cases first with
    | failed other => exact .failed other
    | made value =>
      refine (spelled_ofData r h.2).map fun ws others => ?_
      rw [areEncodable, value, others]
      rfl

theorem spelled_ofEntries :
    (es : List (Datum × Datum)) → Datum.areEntriesEncodable es = true →
      Spelled (areEntriesEncodable · = true) (ofEntries es)
  | [], _ => .made rfl
  | (k, v) :: r, h => by
    rw [Datum.areEntriesEncodable, Bool.and_eq_true, Bool.and_eq_true] at h
    have first := spelled_ofDatum k h.1.1
    have second := spelled_ofDatum v h.1.2
    rw [ofEntries]
    generalize ofDatum k = keyTree at first ⊢
    generalize ofDatum v = tree at second ⊢
    cases first with
    | failed other => exact .failed other
    | made key =>
      cases second with
      | failed other => exact .failed other
      | made value =>
        dsimp only
        split
        · refine (spelled_ofEntries r h.2).map fun ws others => ?_
          rw [areEntriesEncodable, key, value, others]
          rfl
        · exact .failed nofun

end

/-- Only a surrogate makes a value be refused for a text. -/
theorem encode_ne_unencodable {d : Datum} (h : d.isEncodable = true) :
    encode d ≠ .error .unencodable := by
  have spelled := spelled_ofDatum d h
  unfold encode
  generalize ofDatum d = tree at spelled ⊢
  cases spelled with
  | failed other => exact fun same => other (Except.error.inj same)
  | made encodable =>
    intro refused
    rcases write_eq_error _ refused with ⟨⟨⟩⟩ | ⟨broken, _⟩
    cases encodable.symm.trans broken

end Wire

end EventEnvelope
