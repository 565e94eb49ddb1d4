import EventEnvelope.Proofs.Json.Text

/-! Trees in JSON. Main statements: a tree without doubles is read back from what the writer makes
of it, unless one of its texts holds a pair of surrogates, and no text that was read holds one. -/

namespace EventEnvelope.Json

mutual

/-- All numbers of a tree are integers, those in repeated members too. -/
def isExact : Json → Bool
  | real _ => false
  | array xs => areExact xs
  | object ms => areMembersExact ms
  | _ => true

def areExact : List Json → Bool
  | [] => true
  | j :: r => isExact j && areExact r

def areMembersExact : List (CodeText × Json) → Bool
  | [] => true
  | (_, j) :: r => isExact j && areMembersExact r

end

mutual

/-- A tree of integers whose texts and names hold no pair of surrogates. -/
def isLegible : Json → Bool
  | real _ => false
  | text s => s.isUnpaired
  | array xs => areLegible xs
  | object ms => areMembersLegible ms
  | _ => true

def areLegible : List Json → Bool
  | [] => true
  | j :: r => isLegible j && areLegible r

def areMembersLegible : List (CodeText × Json) → Bool
  | [] => true
  | (k, j) :: r => k.isUnpaired && isLegible j && areMembersLegible r

end

theorem endsNumber_cons (c : Char) (h : c.isDigit = false ∧ c ≠ '.' ∧ c ≠ 'e' ∧ c ≠ 'E')
    (rest : List Char) : EndsNumber (c :: rest) := by
  intro d hd
  cases hd
  exact h

theorem skip_of_head {c : Char} (h : isSpace c = false) (cs : List Char) :
    skip (c :: cs) = c :: cs := by
  rw [skip, List.dropWhile_cons_of_neg (by simp [h])]

/-- No blank, and no end of a container. -/
def opens (c : Char) : Bool := !isSpace c && c ≠ ']' && c ≠ '\x7d'

theorem skip_of_opens {c : Char} (h : opens c = true) (cs : List Char) :
    skip (c :: cs) = c :: cs := by
  simp only [opens, Bool.and_eq_true, Bool.not_eq_true'] at h
  exact skip_of_head h.1.1 cs

theorem opens_of_isDigit {c : Char} (digit : c.isDigit = true) :
    opens c = true ∧ c ≠ '[' ∧ c ≠ '\x7b' := by
  have apart (d : Char) (other : d.isDigit = false) : c ≠ d := ne_of_isDigit digit other
  simp [opens, isSpace, apart]

/-- Trees that are neither containers nor doubles. -/
def isScalar : Json → Bool
  | real _ | array _ | object _ => false
  | _ => true

theorem scalar_head {j : Json} (h : j.isScalar = true) :
    ∃ c r, write j = c :: r ∧ opens c = true ∧ c ≠ '[' ∧ c ≠ '\x7b' := by
  cases j with
  | null => exact ⟨'n', _, rfl, by decide⟩
  | flag b => cases b with
    | false => exact ⟨'f', _, rfl, by decide⟩
    | true => exact ⟨'t', _, rfl, by decide⟩
  | integer n =>
    obtain ⟨c, r, digits, digit, _⟩ := toDigits_head n.natAbs
    rw [write, Datum.numberText, String.toList_ofList, digits]
    split
    · exact ⟨'-', _, rfl, by decide⟩
    · exact ⟨c, r, rfl, opens_of_isDigit digit⟩
  | text s => exact ⟨'\x22', _, rfl, by decide⟩
  | _ => cases h

theorem write_head {j : Json} (legible : j.isLegible = true) :
    ∃ c r, write j = c :: r ∧ opens c = true := by
  by_cases plain : j.isScalar = true
  · obtain ⟨c, r, written, opening, _⟩ := scalar_head plain
    exact ⟨c, r, written, opening⟩
  · cases j with
    | real x => cases legible
    | array xs => exact ⟨'[', _, rfl, by decide⟩
    | object ms => exact ⟨'\x7b', _, rfl, by decide⟩
    | _ => exact absurd rfl plain

theorem writeElements_head {j : Json} (legible : j.isLegible = true) (r : List Json) :
    ∃ c cs, writeElements (j :: r) = c :: cs ∧ opens c = true := by
  obtain ⟨c, cs, written, opening⟩ := write_head legible
  cases r with
  | nil => exact ⟨c, cs, written, opening⟩
  | cons k r => exact ⟨c, _, by rw [writeElements, written, List.cons_append]; simp, opening⟩

theorem writeMembers_head (m : CodeText × Json) (r : List (CodeText × Json)) :
    ∃ cs, writeMembers (m :: r) = '\x22' :: cs := by
  cases r with
  | nil => exact ⟨_, rfl⟩
  | cons k r => exact ⟨_, rfl⟩

theorem scalar_write {j : Json} (h : j.isScalar = true) (legible : j.isLegible = true)
    {rest : List Char} (ends : EndsNumber rest) : scalar (write j ++ rest) = some (j, rest) := by
  cases j with
  | null => rfl
  | flag b => cases b <;> rfl
  | integer n => exact scalar_numberText n ends
  | text s => exact scalar_writeText legible rest
  | _ => cases h

theorem value_scalar {j : Json} (h : j.isScalar = true) (legible : j.isLegible = true) {n : Nat}
    {rest : List Char} (ends : EndsNumber rest) :
    value (n + 1) (write j ++ rest) = some (j, rest) := by
  obtain ⟨c, r, written, _, array, object⟩ := scalar_head h
  rw [← scalar_write h legible ends, written, List.cons_append, value]
  · rintro rest h
    cases h
    exact array rfl
  · rintro rest h
    cases h
    exact object rfl

theorem value_array {n : Nat} {cs rest : List Char} {js : List Json}
    (opening : ∃ c r, cs = c :: r ∧ opens c = true) (parts : elements n cs = some (js, rest)) :
    value (n + 1) ('[' :: cs) = some (array js, rest) := by
  obtain ⟨c, r, rfl, opening⟩ := opening
  rw [value, skip_of_opens opening]
  split
  · next closed => cases closed; cases opening
  · rw [parts]
    rfl

theorem value_object {n : Nat} {cs rest : List Char} {ms : List (CodeText × Json)}
    (opening : ∃ r, cs = '\x22' :: r) (parts : members n cs = some (ms, rest)) :
    value (n + 1) ('\x7b' :: cs) = some (object ms, rest) := by
  obtain ⟨r, rfl⟩ := opening
  rw [value, skip_of_opens (by decide)]
  exact congrArg (Option.map _) parts

theorem elements_last {n : Nat} {cs rest : List Char} {j : Json}
    (one : value n cs = some (j, ']' :: rest)) : elements (n + 1) cs = some ([j], rest) := by
  rw [elements, one]
  dsimp only
  rw [skip_of_head (by decide)]
  rfl

theorem elements_more {n : Nat} {cs cs' rest : List Char} {j : Json} {js : List Json}
    (one : value n cs = some (j, ',' :: cs')) (opening : ∃ c r, cs' = c :: r ∧ opens c = true)
    (more : elements n cs' = some (js, rest)) : elements (n + 1) cs = some (j :: js, rest) := by
  obtain ⟨c, r, rfl, opening⟩ := opening
  rw [elements, one]
  dsimp only
  rw [skip_of_head (by decide)]
  change (elements n (skip (c :: r))).map _ = _
  rw [skip_of_opens opening, more]
  rfl

theorem members_last {n : Nat} {s : CodeText} {cs rest : List Char} {j : Json}
    (unpaired : s.isUnpaired = true) (opening : ∃ c r, cs = c :: r ∧ opens c = true)
    (one : value n cs = some (j, '\x7d' :: rest)) :
    members (n + 1) (writeText s ++ ':' :: cs) = some ([(s, j)], rest) := by
  obtain ⟨c, r, rfl, opening⟩ := opening
  rw [members, memberName_writeText unpaired, skip_of_opens opening]
  dsimp only
  rw [one]
  dsimp only
  rw [skip_of_head (by decide)]
  rfl

theorem members_more {n : Nat} {s : CodeText} {cs cs' rest : List Char} {j : Json}
    {ms : List (CodeText × Json)} (unpaired : s.isUnpaired = true)
    (opening : ∃ c r, cs = c :: r ∧ opens c = true)
    (one : value n cs = some (j, ',' :: cs')) (quoted : ∃ r, cs' = '\x22' :: r)
    (more : members n cs' = some (ms, rest)) :
    members (n + 1) (writeText s ++ ':' :: cs) = some ((s, j) :: ms, rest) := by
  obtain ⟨c, r, rfl, opening⟩ := opening
  obtain ⟨r', rfl⟩ := quoted
  rw [members, memberName_writeText unpaired, skip_of_opens opening]
  dsimp only
  rw [one]
  dsimp only
  rw [skip_of_head (by decide)]
  change (members n (skip ('\x22' :: r'))).map _ = _
  rw [skip_of_head (by decide), more]
  rfl

-- The reader spends a unit on each value and one on each element or member; two for each character
-- written are enough for both.
mutual

/-- A tree is read back in front of what cannot be taken for a part of it. -/
theorem value_write : (j : Json) → j.isLegible = true → (fuel : Nat) → (rest : List Char) →
    2 * (write j).length < fuel → EndsNumber rest → value fuel (write j ++ rest) = some (j, rest)
  | array [], _, n + 1, rest, _, _ => rfl
  | array (j :: r), legible, n + 1, rest, bound, _ => by
    simp only [write, List.length_cons, List.length_append, List.length_nil] at bound
    simp only [isLegible] at legible
    have parts := elements_write j r legible n rest (by omega)
    simp only [areLegible, Bool.and_eq_true] at legible
    obtain ⟨c, cs, written, opening⟩ := writeElements_head legible.1 r
    have opened : ∃ c cs, writeElements (j :: r) ++ ']' :: rest = c :: cs ∧ opens c = true :=
      ⟨c, _, by rw [written, List.cons_append], opening⟩
    simpa only [write, List.cons_append, List.append_assoc, List.nil_append]
      using value_array opened parts
  | object [], _, n + 1, rest, _, _ => rfl
  | object (m :: r), legible, n + 1, rest, bound, _ => by
    simp only [write, List.length_cons, List.length_append, List.length_nil] at bound
    simp only [isLegible] at legible
    have parts := members_write m r legible n rest (by omega)
    obtain ⟨cs, written⟩ := writeMembers_head m r
    have opened : ∃ cs, writeMembers (m :: r) ++ '\x7d' :: rest = '\x22' :: cs :=
      ⟨_, by rw [written, List.cons_append]⟩
    simpa only [write, List.cons_append, List.append_assoc, List.nil_append]
      using value_object opened parts
  | null, legible, _ + 1, _, _, ends => value_scalar rfl legible ends
  | flag _, legible, _ + 1, _, _, ends => value_scalar rfl legible ends
  | integer _, legible, _ + 1, _, _, ends => value_scalar rfl legible ends
  | text _, legible, _ + 1, _, _, ends => value_scalar rfl legible ends

theorem elements_write : (j : Json) → (r : List Json) → areLegible (j :: r) = true →
    (fuel : Nat) → (rest : List Char) → 2 * (writeElements (j :: r)).length + 1 < fuel →
    elements fuel (writeElements (j :: r) ++ ']' :: rest) = some (j :: r, rest)
  | j, [], legible, n + 1, rest, bound => by
    simp only [areLegible, Bool.and_true] at legible
    simp only [writeElements] at bound ⊢
    exact elements_last
      (value_write j legible n _ (by omega) (endsNumber_cons ']' (by decide) rest))
  | j, k :: r, legible, n + 1, rest, bound => by
    rw [areLegible, Bool.and_eq_true] at legible
    simp only [writeElements, List.length_append, List.length_cons] at bound
    simp only [writeElements, List.append_assoc, List.cons_append]
    have one := value_write j legible.1 n _ (by omega)
      (endsNumber_cons ',' (by decide) (writeElements (k :: r) ++ ']' :: rest))
    have more := elements_write k r legible.2 n rest (by omega)
    have others := legible.2
    simp only [areLegible, Bool.and_eq_true] at others
    obtain ⟨c, cs, written, opening⟩ := writeElements_head others.1 r
    exact elements_more one ⟨c, _, by rw [written, List.cons_append], opening⟩ more

theorem members_write : (m : CodeText × Json) → (r : List (CodeText × Json)) →
    areMembersLegible (m :: r) = true → (fuel : Nat) → (rest : List Char) →
    2 * (writeMembers (m :: r)).length + 1 < fuel →
    members fuel (writeMembers (m :: r) ++ '\x7d' :: rest) = some (m :: r, rest)
  | (s, j), [], legible, n + 1, rest, bound => by
    simp only [areMembersLegible, Bool.and_true, Bool.and_eq_true] at legible
    simp only [writeMembers, List.length_append, List.length_cons] at bound
    simp only [writeMembers, List.append_assoc, List.cons_append]
    have one := value_write j legible.2 n _ (by omega) (endsNumber_cons '\x7d' (by decide) rest)
    obtain ⟨c, cs, written, opening⟩ := write_head legible.2
    exact members_last legible.1 ⟨c, _, by rw [written, List.cons_append], opening⟩ one
  | (s, j), m :: r, legible, n + 1, rest, bound => by
    rw [areMembersLegible, Bool.and_eq_true, Bool.and_eq_true] at legible
    obtain ⟨⟨unpaired, held⟩, others⟩ := legible
    simp only [writeMembers, List.length_append, List.length_cons] at bound
    simp only [writeMembers, List.append_assoc, List.cons_append]
    have one := value_write j held n _ (by omega)
      (endsNumber_cons ',' (by decide) (writeMembers (m :: r) ++ '\x7d' :: rest))
    have more := members_write m r others n rest (by omega)
    obtain ⟨c, cs, written, opening⟩ := write_head held
    obtain ⟨cs', quoted⟩ := writeMembers_head m r
    exact members_more unpaired ⟨c, _, by rw [written, List.cons_append], opening⟩ one
      ⟨_, by rw [quoted, List.cons_append]⟩ more

end

/-- Blanks in front of what the writer makes of a tree change nothing. -/
theorem parse?_blanks {j : Json} (legible : j.isLegible = true) (blanks : List Char)
    (spaces : ∀ c ∈ blanks, isSpace c = true) :
    parse? (String.ofList (blanks ++ write j)) = some j := by
  obtain ⟨c, cs, written, opening⟩ := write_head legible
  have skipped : skip (blanks ++ write j) = write j := by
    rw [skip, List.dropWhile_append_of_pos spaces, ← skip, written, skip_of_opens opening]
  have enough : 2 * (write j).length < callBound (blanks ++ write j) := by
    rw [callBound, List.length_append]
    omega
  have read := value_write j legible (callBound (blanks ++ write j)) [] enough
    (fun c hc => by cases hc)
  rw [List.append_nil] at read
  unfold parse?
  rw [String.toList_ofList]
  dsimp only
  rw [skipped, read]
  rfl

/-! What was read is legible again, except that doubles are told in more than one way. -/

section Read

variable {cs rest : List Char} {j : Json}

theorem legible_of_number (h : number cs = some (j, rest)) (exact : j.isExact = true) :
    j.isLegible = true := by
  have unsigned {negative : Bool} {cs : List Char} (h : unsigned negative cs = some (j, rest)) :
      j.isLegible = true := by
    unfold Json.unsigned at h
    split at h
    · cases h
    · dsimp only at h
      split at h
      · cases h
        cases exact
      · split at h
        · cases h
          rfl
        · cases h
          cases exact
  unfold number at h
  split at h
  · exact unsigned h
  · exact unsigned h

theorem legible_of_scalar (h : scalar cs = some (j, rest)) (exact : j.isExact = true) :
    j.isLegible = true := by
  unfold scalar at h
  split at h
  case h_1 body =>
    obtain ⟨⟨s, _⟩, read, same⟩ := Option.map_eq_some_iff.mp h
    cases same
    exact isUnpaired_of_textBody read
  case h_8 => exact legible_of_number h exact
  all_goals
    cases h
    first | rfl | cases exact

theorem isUnpaired_of_memberName {k : CodeText} (h : memberName cs = some (k, rest)) :
    k.isUnpaired = true := by
  unfold memberName at h
  split at h
  · split at h
    · cases h
    · next s after read =>
      split at h
      · cases h
        exact isUnpaired_of_textBody read
      · cases h
  · cases h

end Read

mutual

theorem legible_of_value : (fuel : Nat) → {cs rest : List Char} → {j : Json} →
    value fuel cs = some (j, rest) → j.isExact = true → j.isLegible = true
  | 0, _, _, _, h, _ => by cases h
  | n + 1, cs, rest, j, h, exact => by
    unfold value at h
    split at h
    · cases h
    · next inside same =>
      cases same
      split at h
      · cases h
        rfl
      · obtain ⟨⟨xs, _⟩, read, same⟩ := Option.map_eq_some_iff.mp h
        cases same
        exact legible_of_elements n read exact
    · next inside same =>
      cases same
      split at h
      · cases h
        rfl
      · obtain ⟨⟨ms, _⟩, read, same⟩ := Option.map_eq_some_iff.mp h
        cases same
        exact legible_of_members n read exact
    · exact legible_of_scalar h exact

theorem legible_of_elements : (fuel : Nat) → {cs rest : List Char} → {js : List Json} →
    elements fuel cs = some (js, rest) → areExact js = true → areLegible js = true
  | 0, _, _, _, h, _ => by cases h
  | n + 1, cs, rest, js, h, exact => by
    unfold elements at h
    split at h
    · cases h
    · next j after read =>
      split at h
      · cases h
        rw [areExact, Bool.and_eq_true] at exact
        rw [areLegible, legible_of_value n read exact.1]
        rfl
      · obtain ⟨⟨js', _⟩, read', same⟩ := Option.map_eq_some_iff.mp h
        cases same
        rw [areExact, Bool.and_eq_true] at exact
        rw [areLegible, legible_of_value n read exact.1, legible_of_elements n read' exact.2]
        rfl
      · cases h

theorem legible_of_members : (fuel : Nat) → {cs rest : List Char} → {ms : List (CodeText × Json)} →
    members fuel cs = some (ms, rest) → areMembersExact ms = true → areMembersLegible ms = true
  | 0, _, _, _, h, _ => by cases h
  | n + 1, cs, rest, ms, h, exact => by
    unfold members at h
    split at h
    · cases h
    · next k behind named =>
      have name := isUnpaired_of_memberName named
      split at h
      · cases h
      · next j after read =>
        split at h
        · cases h
          rw [areMembersExact, Bool.and_eq_true] at exact
          rw [areMembersLegible, name, legible_of_value n read exact.1]
          rfl
        · obtain ⟨⟨ms', _⟩, read', same⟩ := Option.map_eq_some_iff.mp h
          cases same
          rw [areMembersExact, Bool.and_eq_true] at exact
          rw [areMembersLegible, name, legible_of_value n read exact.1,
            legible_of_members n read' exact.2]
          rfl
        · cases h

end

/-- A tree without doubles that a text spells can be written and read again. -/
theorem isLegible_of_parse? {s : String} {j : Json} (h : parse? s = some j)
    (exact : j.isExact = true) : j.isLegible = true := by
  unfold parse? at h
  dsimp only at h
  split at h
  · next read =>
    split at h
    · cases h
      exact legible_of_value _ read exact
    · cases h
  · cases h

theorem parse?_render {j : Json} (legible : j.isLegible = true) : parse? j.render = some j :=
  parse?_blanks legible [] (by simp)

end EventEnvelope.Json
