import EventEnvelope.Proofs.ArgumentAdmission
import EventEnvelope.Proofs.TypedEnvelope

/-!
Interning, under a limit that the caller gives or the configured one. Main statement: exactly the
words within the limit are taken, and what is interned spells the same word, except that a member of
a topic group is checked by its identifier and interned under its full name, and a text of a class
that a caller defined is interned as the class shows it.
-/

namespace EventEnvelope

namespace Text

/-- The characters of a word, by their ranges. -/
def IsWordChar (c : Char) : Prop :=
  ('A' ≤ c ∧ c ≤ 'Z') ∨ ('a' ≤ c ∧ c ≤ 'z') ∨ ('0' ≤ c ∧ c ≤ '9') ∨ c = '_'

structure IsWord (limit : Int) (s : CodeText) : Prop where
  nonempty : s ≠ ""
  short : s.length ≤ limit
  alphabet : ∀ p ∈ s.points, ∃ c, p = .char c ∧ IsWordChar c

theorem isWordChar_iff (c : Char) : IsWordChar c ↔ c.isAlphanum = true ∨ c = '_' := by
  have upper : c.isUpper = true ↔ 'A' ≤ c ∧ c ≤ 'Z' := decide_eq_true_iff
  have lower : c.isLower = true ↔ 'a' ≤ c ∧ c ≤ 'z' :=
    Bool.and_eq_true_iff.trans (and_congr decide_eq_true_iff decide_eq_true_iff)
  have digit : c.isDigit = true ↔ '0' ≤ c ∧ c ≤ '9' :=
    Bool.and_eq_true_iff.trans (and_congr decide_eq_true_iff decide_eq_true_iff)
  have alphanum : c.isAlphanum = true ↔
      (c.isUpper = true ∨ c.isLower = true) ∨ c.isDigit = true :=
    Bool.or_eq_true_iff.trans (or_congr_left Bool.or_eq_true_iff)
  rw [alphanum, upper, lower, digit, or_assoc, or_assoc]
  rfl

theorem isSymbolic_iff (p : CodePoint) : p.IsSymbolic ↔ ∃ c, p = .char c ∧ IsWordChar c := by
  cases p with
  | char c => simp [CodePoint.IsSymbolic, isWordChar_iff]
  | surrogate u => simp [CodePoint.IsSymbolic]

theorem isWord_iff {limit : Int} {s : CodeText} : IsWord limit s ↔ s ≠ "" ∧ s.length ≤ limit ∧
    ∀ p ∈ s.points, p.IsSymbolic := by
  simp only [isSymbolic_iff]
  exact ⟨fun h => ⟨h.nonempty, h.short, h.alphabet⟩, fun h => ⟨h.1, h.2.1, h.2.2⟩⟩

theorem isWord_iff_isSymbol {limit : Int} {s : CodeText} :
    IsWord limit s ↔ isSymbol s = true ∧ s.length ≤ limit := by
  rw [isWord_iff, isSymbol_iff, and_assoc]
  exact and_congr_right fun _ => and_comm

instance (limit : Int) (s : CodeText) : Decidable (IsWord limit s) :=
  decidable_of_iff _ isWord_iff_isSymbol.symm

theorem shown_of_own {t : Text} (ungrouped : ∀ g, t ≠ .group g) (own : ∀ f, t ≠ .foreign f) :
    t.shown = t.content := by
  cases t with
  | group g => exact absurd rfl (ungrouped g)
  | foreign f => exact absurd rfl (own f)
  | _ => rfl

theorem content_ne_shown_group (g : TopicGroup) : (group g).content ≠ (group g).shown := by
  cases g <;> decide

/-- The full name of a group's member holds a dot. -/
theorem not_isWord_shown_group (g : TopicGroup) (limit : Int) : ¬IsWord limit (group g).shown := by
  intro word
  have symbolic := (isWord_iff_isSymbol.mp word).1
  cases g <;> exact absurd symbolic (by decide)

end Text

theorem Admission.symbolOf_eq_ok_iff_isWord {limit : Int} {t : Text} {x : Symbol} :
    symbolOf limit t = .ok x ↔ x = ⟨t.shown⟩ ∧ Text.IsWord limit t.content := by
  rw [Text.isWord_iff]
  exact symbolOf_eq_ok_iff

/-- The limit that interning holds a text against. -/
inductive Surroundings.InternLimit (s : Surroundings) : Option Int → Int → Prop
  | given (limit : Int) : s.InternLimit (some limit) limit
  | configured {limit : Nat} (inForce : s.symbolLimit? = some limit) : s.InternLimit none limit

namespace Build

variable {s : Surroundings} {given : Option Int} {limit : Int} {t : Text}

/-- Interning under the given limit, or else under the configured one. -/
def intern (d : Datum) : Option Int → Build Symbol
  | some limit => admitted (Admission.symbol limit d)
  | none => symbol d

theorem admitted_returns_iff {α : Type} {r : Except EncodingFault α} {a : α} :
    (admitted r s).1 = .ok a ↔ r = .ok a := by
  constructor
  · intro answer
    exact (admitted_eq_ok (Prod.ext answer rfl)).1
  · rintro rfl
    rfl

theorem symbolLimit_eq_ok {limit : Nat} (inForce : s.symbolLimit? = some limit) :
    ∃ s', symbolLimit true s = (.ok (limit : Int), s') := by
  cases settles_limit s with
  | returned run _ kept =>
    obtain ⟨⟨n, rfl, same⟩, _⟩ := kept
    cases inForce.symm.trans same
    exact ⟨_, run⟩
  | refused _ fails _ => exact absurd ⟨limit, inForce⟩ fails

theorem intern_symbol (x : Symbol) (given : Option Int) (s : Surroundings) :
    (intern (.text (.symbol x)) given s).1 = .ok x := by
  cases given <;> rfl

theorem intern_eq_ok_iff {x : Symbol} (free : ∀ y, t ≠ .symbol y)
    (inForce : s.InternLimit given limit) :
    (intern (.text t) given s).1 = .ok x ↔ x = ⟨t.shown⟩ ∧ Text.IsWord limit t.content := by
  have interns (n : Int) : Admission.symbol n (.text t) = Admission.symbolOf n t := by
    cases t with
    | symbol x => exact absurd rfl (free x)
    | _ => rfl
  rw [← Admission.symbolOf_eq_ok_iff_isWord, ← interns]
  cases inForce with
  | given => exact admitted_returns_iff
  | @configured limit inForce =>
    have asks : isFreeText (.text t) = true := by
      cases t with
      | symbol x => exact absurd rfl (free x)
      | _ => rfl
    obtain ⟨s', asked⟩ := symbolLimit_eq_ok inForce
    have step : intern (.text t) none s = admitted (Admission.symbol limit (.text t)) s' := by
      change symbol (.text t) s = _
      unfold symbol
      rw [asks, bind_apply, asked]
    rw [step]
    exact admitted_returns_iff

/-- A text is interned exactly if it is a symbol already or a word within the limit. What comes out
is the text as it is shown. That is the same word, unless a member of a topic group went in, which
comes out under its full name and so as a word under no limit, or a text of a caller's own class. -/
theorem intern_returns_iff (inForce : s.InternLimit given limit) (t : Text) :
    ((∃ x, (intern (.text t) given s).1 = .ok x) ↔
      (∃ x, t = .symbol x) ∨ Text.IsWord limit t.content) ∧
    ∀ x, (intern (.text t) given s).1 = .ok x → (∀ y, t ≠ .symbol y) →
      x.text = t.shown ∧
      ((∀ g, t ≠ .group g) → (∀ f, t ≠ .foreign f) →
        x.text = t.content ∧ Text.IsWord limit x.text) ∧
      ∀ g, t = .group g → x.text = .proper ("TopicGroup." ++ g.name) ∧ x.text ≠ t.content ∧
        ∀ n, ¬Text.IsWord n x.text := by
  constructor
  · by_cases typed : ∃ x, t = .symbol x
    · obtain ⟨x, rfl⟩ := typed
      exact ⟨fun _ => .inl ⟨x, rfl⟩, fun _ => ⟨x, intern_symbol x given s⟩⟩
    · have free := not_exists.mp typed
      simp only [intern_eq_ok_iff free inForce, exists_eq_left, typed, false_or]
  · intro x answer free
    obtain ⟨rfl, word⟩ := (intern_eq_ok_iff free inForce).mp answer
    refine ⟨rfl, ?_, ?_⟩
    · intro ungrouped own
      simp only [Text.shown_of_own ungrouped own]
      exact ⟨trivial, word⟩
    · rintro g rfl
      exact ⟨rfl, (Text.content_ne_shown_group g).symm, Text.not_isWord_shown_group g⟩

/-- An address of as many characters as the limit allows, and a text under the configured limit. -/
theorem intern_returns_iff_words :
    (∃ x, (intern (.address ⟨"GABC_9"⟩) (some 6) .ledger).1 = .ok x) ∧
      ¬(∃ x, (intern (.address ⟨"GABC_9"⟩) (some 5) .ledger).1 = .ok x) ∧
      ∃ x, (intern (.plain "bonus") none .ledger).1 = .ok x ∧ x.text = "bonus" := by
  have limited : Surroundings.ledger.symbolLimit? = some 32 := by rfl
  have bonus : (intern (.plain "bonus") none .ledger).1 = .ok ⟨"bonus"⟩ := by rfl
  refine ⟨?_, ?_, ⟨"bonus"⟩, bonus, ?_⟩
  · exact (intern_returns_iff (.given 6) (.address ⟨"GABC_9"⟩)).1.mpr (.inr (by decide))
  · intro returned
    obtain ⟨_, typed⟩ | word := (intern_returns_iff (.given 5) (.address ⟨"GABC_9"⟩)).1.mp returned
    · cases typed
    · exact absurd word.short (by decide)
  · have answered := (intern_returns_iff (.configured limited) (.plain "bonus")).2 _ bonus (by simp)
    exact (answered.2.1 (by simp) (by simp)).1

/-- A member of a topic group passes every check with its identifier, and its full name is interned
all the same. -/
theorem intern_misspells_group :
    Text.IsWord 7 (Text.group .staking).content ∧
      (intern (.text (.group .staking)) (some 7) .ledger).1 = .ok ⟨"TopicGroup.STAKING"⟩ ∧
      ¬Text.IsWord 7 "TopicGroup.STAKING" := by
  exact ⟨by decide, by rfl, Text.not_isWord_shown_group .staking 7⟩

end Build

end EventEnvelope
