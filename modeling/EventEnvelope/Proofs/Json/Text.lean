import EventEnvelope.Json.Reader
import EventEnvelope.Json.Writer

/-! Texts and integers in JSON. Each character is read back from the escape that the writer chose
for it, also where it takes a pair of surrogates. A surrogate is read back unless it stands next to
one that makes up a pair with it: such a pair is read as one character. An integer is read back
where no more digits, fraction or exponent follow. -/

namespace EventEnvelope

namespace Quoted

/-- The digits of a number, from the last one on. -/
theorem hex_succ {width : Nat} (wide : 0 < width) (n : Nat) :
    hex (width + 1) n = hex width (n / 16) ++ [Nat.digitChar (n % 16)] := by
  unfold hex
  rw [Nat.toDigits_eq_if (by decide)]
  split
  · next small =>
    obtain ⟨width, rfl⟩ : ∃ w, width = w + 1 := ⟨width - 1, by omega⟩
    rw [Nat.div_eq_of_lt small, Nat.mod_eq_of_lt small, Nat.toDigits_zero]
    simp [List.replicate_succ']
  · next large =>
    simp

theorem hex_four {n : Nat} (h : n < 0x10000) :
    hex 4 n = [Nat.digitChar (n / 0x1000), Nat.digitChar (n / 0x100 % 16),
      Nat.digitChar (n / 16 % 16), Nat.digitChar (n % 16)] := by
  have first : hex 1 (n / 16 / 16 / 16) = [Nat.digitChar (n / 0x1000)] := by
    rw [hex, Nat.div_div_eq_div_mul, Nat.div_div_eq_div_mul,
      Nat.toDigits_of_lt_base (by omega)]
    rfl
  rw [hex_succ (by decide), hex_succ (by decide), hex_succ (by decide), first,
    Nat.div_div_eq_div_mul]
  rfl

end Quoted

namespace Json

theorem hexDigit?_digitChar {n : Nat} (h : n < 16) : hexDigit? (Nat.digitChar n) = some n := by
  revert h n
  decide

theorem unit?_hex {n : Nat} (h : n < 0x10000) :
    unit? (Nat.digitChar (n / 0x1000)) (Nat.digitChar (n / 0x100 % 16))
      (Nat.digitChar (n / 16 % 16)) (Nat.digitChar (n % 16)) = some n := by
  unfold unit?
  rw [hexDigit?_digitChar (by omega), hexDigit?_digitChar (by omega),
    hexDigit?_digitChar (by omega), hexDigit?_digitChar (by omega)]
  simp
  omega

theorem spelling_unit {n : Nat} (h : n < 0x10000) (cs : List Char) :
    spelling (unitEscape n ++ cs) = (spelling cs).extend (pointOfUnit n) := by
  rw [unitEscape, Quoted.hex_four h]
  simp only [List.cons_append, List.nil_append]
  rw [spelling, unit?_hex h]

theorem spelling_short {c x : Char} (known : shortEscape? c = some x) (cs : List Char) :
    spelling ('\x5c' :: c :: cs) = (spelling cs).extend (.char x) := by
  rw [spelling, known]
  rintro a b c' d rest rfl
  cases known

theorem spelling_plain {c : Char} (shown : 0x20 ≤ c.toNat) (mark : c ≠ '\x22')
    (escape : c ≠ '\x5c') (cs : List Char) :
    spelling (c :: cs) = (spelling cs).extend (.char c) := by
  rw [spelling, if_neg (by omega)]
  all_goals simp_all

theorem toNat_lt (c : Char) : c.toNat < 0x110000 := by
  have valid : c.toNat < 0xd800 ∨ (0xdfff < c.toNat ∧ c.toNat < 0x110000) := c.valid
  omega

theorem pointOfUnit_char (c : Char) : pointOfUnit c.toNat = .char c := by
  have valid : c.toNat < 0xd800 ∨ (0xdfff < c.toNat ∧ c.toNat < 0x110000) := c.valid
  rw [pointOfUnit, dif_neg (by omega), Char.ofNat_toNat]

theorem pointOfUnit_surrogate (u : Surrogate) : pointOfUnit u.toNat = .surrogate u := by
  have bound : u.offset.val < 0x800 := u.offset.isLt
  rw [pointOfUnit, dif_pos (by unfold Surrogate.toNat; omega)]
  simp [Surrogate.toNat]

/-- The leading surrogate of a character beyond the basic plane. -/
def leadingOf (c : Char) (beyond : 0x10000 ≤ c.toNat) : Surrogate :=
  ⟨⟨(c.toNat - 0x10000) / 0x400, by have := toNat_lt c; omega⟩⟩

/-- The trailing surrogate of a character beyond the basic plane. -/
def trailingOf (c : Char) : Surrogate := ⟨⟨0x400 + (c.toNat - 0x10000) % 0x400, by omega⟩⟩

theorem isLeading_leadingOf {c : Char} (beyond : 0x10000 ≤ c.toNat) :
    (leadingOf c beyond).isLeading = true := by
  have bound := toNat_lt c
  exact decide_eq_true (by dsimp only [leadingOf]; omega)

theorem isLeading_trailingOf (c : Char) : (trailingOf c).isLeading = false :=
  decide_eq_false (by dsimp only [trailingOf]; omega)

theorem paired_units {c : Char} (beyond : 0x10000 ≤ c.toNat) :
    paired (leadingOf c beyond) (trailingOf c) = c := by
  have whole : 0x10000 + (c.toNat - 0x10000) / 0x400 * 0x400
      + (0x400 + (c.toNat - 0x10000) % 0x400 - 0x400) = c.toNat := by omega
  rw [paired, leadingOf, trailingOf]
  dsimp only
  rw [whole, Char.ofNat_toNat]

theorem numberedEscape_beyond {c : Char} (beyond : 0x10000 ≤ c.toNat) :
    numberedEscape c.toNat
      = unitEscape (leadingOf c beyond).toNat ++ unitEscape (trailingOf c).toNat := by
  have shifted : 0xdc00 + (c.toNat - 0x10000) % 0x400
      = 0xd800 + (0x400 + (c.toNat - 0x10000) % 0x400) := by omega
  rw [numberedEscape, if_neg (by omega), shifted]
  rfl

theorem toNat_surrogate_lt (u : Surrogate) : u.toNat < 0x10000 := by
  have bound : u.offset.val < 0x800 := u.offset.isLt
  unfold Surrogate.toNat
  omega

/-- No leading surrogate stands right before a trailing one. -/
def areUnpaired : List CodePoint → Bool
  | .surrogate u :: .surrogate v :: r =>
    !(u.isLeading && !v.isLeading) && areUnpaired (.surrogate v :: r)
  | _ :: r => areUnpaired r
  | [] => true

theorem areUnpaired_cons {p : CodePoint} {ps : List CodePoint}
    (h : areUnpaired (p :: ps) = true) : inFront p ps = p :: ps ∧ areUnpaired ps = true := by
  unfold areUnpaired at h
  split at h
  · next u v r same =>
    cases same
    rw [Bool.and_eq_true, Bool.not_eq_true'] at h
    exact ⟨by rw [inFront, h.1]; rfl, h.2⟩
  · next q r alone same =>
    cases same
    refine ⟨?_, h⟩
    unfold inFront
    split
    · next u v r' => exact absurd rfl (alone u v r' rfl)
    · rfl
  · next same => cases same

/-- A surrogate in front either makes up a pair, which is read as a character, or stays alone. -/
theorem areUnpaired_inFront (p : CodePoint) {ps : List CodePoint} (h : areUnpaired ps = true) :
    areUnpaired (inFront p ps) = true := by
  unfold inFront
  split
  · next u v r =>
    split
    · exact (areUnpaired_cons h).2
    · next alone =>
      rw [areUnpaired, h, Bool.and_true, Bool.not_eq_true']
      exact eq_false_of_ne_true alone
  · next alone =>
    unfold areUnpaired
    split
    · next u v r same =>
      cases same
      exact absurd rfl (alone u v r rfl)
    · next same => cases same; exact h
    · rfl

section Spelled

variable {cs rest : List Char} {ps : List CodePoint}

theorem spelling_point {n : Nat} {p : CodePoint} (point : pointOfUnit n = p) (small : n < 0x10000)
    (h : spelling cs = some (ps, rest)) (alone : inFront p ps = p :: ps) :
    spelling (unitEscape n ++ cs) = some (p :: ps, rest) := by
  rw [spelling_unit small, h, point]
  exact congrArg (fun qs => some (qs, rest)) alone

theorem spelling_pair {u v : Surrogate} (leading : u.isLeading = true)
    (trailing : v.isLeading = false) (h : spelling cs = some (ps, rest)) :
    spelling (unitEscape u.toNat ++ (unitEscape v.toNat ++ cs))
      = some (.char (paired u v) :: ps, rest) := by
  have alone : inFront (.surrogate v) ps = .surrogate v :: ps := by
    unfold inFront
    split
    · next same =>
      cases same
      simp [trailing]
    · rfl
  rw [spelling_unit (toNat_surrogate_lt u), pointOfUnit_surrogate,
    spelling_point (pointOfUnit_surrogate v) (toNat_surrogate_lt v) h alone]
  simp [Parsed.extend, inFront, leading, trailing]

theorem spelling_numberedEscape (c : Char) (h : spelling cs = some (ps, rest)) :
    spelling (numberedEscape c.toNat ++ cs) = some (.char c :: ps, rest) := by
  by_cases basic : c.toNat < 0x10000
  · rw [numberedEscape, if_pos basic]
    exact spelling_point (pointOfUnit_char c) basic h rfl
  · have beyond := Nat.le_of_not_lt basic
    rw [numberedEscape_beyond beyond, List.append_assoc,
      spelling_pair (isLeading_leadingOf beyond) (isLeading_trailingOf c) h, paired_units beyond]

theorem extend_char (c : Char) (h : spelling cs = some (ps, rest)) :
    (spelling cs).extend (.char c) = some (.char c :: ps, rest) := by
  rw [h]
  rfl

theorem extend_eq_some {p : CodePoint} {x : Parsed (List CodePoint)}
    (h : x.extend p = some (ps, rest)) : ∃ qs, x = some (qs, rest) ∧ inFront p qs = ps := by
  cases x with
  | none => cases h
  | some found =>
    cases h
    exact ⟨found.1, rfl, rfl⟩

/-- Each character is read back from what the writer makes of it. -/
theorem spelling_writeChar (c : Char) (h : spelling cs = some (ps, rest)) :
    spelling (writeChar c ++ cs) = some (.char c :: ps, rest) := by
  unfold writeChar
  split
  · next mark =>
    rw [Bool.or_eq_true, decide_eq_true_eq, decide_eq_true_eq] at mark
    rcases mark with rfl | rfl <;> exact (spelling_short rfl cs).trans (extend_char _ h)
  · next mark =>
    rw [Bool.or_eq_true, decide_eq_true_eq, decide_eq_true_eq, not_or] at mark
    split
    · next newline => subst newline; exact (spelling_short rfl cs).trans (extend_char _ h)
    split
    · next carriage => subst carriage; exact (spelling_short rfl cs).trans (extend_char _ h)
    split
    · next tab => subst tab; exact (spelling_short rfl cs).trans (extend_char _ h)
    split
    · next feed => subst feed; exact (spelling_short rfl cs).trans (extend_char _ h)
    split
    · next back => subst back; exact (spelling_short rfl cs).trans (extend_char _ h)
    split
    · next shown =>
      rw [Bool.and_eq_true, decide_eq_true_eq, decide_eq_true_eq] at shown
      exact (spelling_plain shown.1 mark.1 mark.2 cs).trans (extend_char c h)
    · exact spelling_numberedEscape c h

theorem spelling_writePoint (p : CodePoint) (h : spelling cs = some (ps, rest))
    (alone : inFront p ps = p :: ps) :
    spelling (writePoint p ++ cs) = some (p :: ps, rest) := by
  cases p with
  | char c => exact spelling_writeChar c h
  | surrogate u => exact spelling_point (pointOfUnit_surrogate u) (toNat_surrogate_lt u) h alone

theorem spelling_flatMap (ps : List CodePoint) (unpaired : areUnpaired ps = true)
    (rest : List Char) :
    spelling (ps.flatMap writePoint ++ '\x22' :: rest) = some (ps, rest) := by
  induction ps with
  | nil => rfl
  | cons p ps ih =>
    have apart := areUnpaired_cons unpaired
    rw [List.flatMap_cons, List.append_assoc]
    exact spelling_writePoint p (ih apart.2) apart.1

end Spelled

/-- Whatever a text is read from, it holds no pair. -/
theorem areUnpaired_spelling {cs rest : List Char} {ps : List CodePoint}
    (h : spelling cs = some (ps, rest)) : areUnpaired ps = true := by
  fun_induction spelling cs generalizing ps with
  | case2 rest' => cases h; rfl
  | case3 a b c d rest' n unit ih =>
    obtain ⟨qs, read, rfl⟩ := extend_eq_some h
    exact areUnpaired_inFront _ (ih read)
  | case5 c rest' _ x known ih =>
    obtain ⟨qs, read, rfl⟩ := extend_eq_some h
    exact areUnpaired_inFront _ (ih read)
  | case8 c rest' quotes _ escape shown ih =>
    obtain ⟨qs, read, rfl⟩ := extend_eq_some h
    exact areUnpaired_inFront _ (ih read)
  | _ => cases h

end Json

/-- A text without a leading surrogate right before a trailing one. -/
def CodeText.isUnpaired (s : CodeText) : Bool := Json.areUnpaired s.points

theorem CodeText.isUnpaired_proper (s : String) : (proper s).isUnpaired = true := by
  have chars (cs : List Char) : Json.areUnpaired (cs.map .char) = true := by
    induction cs with
    | nil => rfl
    | cons c cs ih => exact ih
  exact chars s.toList

theorem CodeText.isUnpaired_single (p : CodePoint) : (ofPoints [p]).isUnpaired = true := by
  rw [isUnpaired, points_ofPoints]
  cases p <;> rfl

namespace Json

theorem textBody_writeText {s : CodeText} (unpaired : s.isUnpaired = true) (rest : List Char) :
    textBody (s.points.flatMap writePoint ++ '\x22' :: rest) = some (s, rest) := by
  rw [textBody, spelling_flatMap _ unpaired]
  simp

theorem isUnpaired_of_textBody {s : CodeText} {cs rest : List Char}
    (h : textBody cs = some (s, rest)) : s.isUnpaired = true := by
  obtain ⟨⟨ps, _⟩, read, same⟩ := Option.map_eq_some_iff.mp h
  cases same
  rw [CodeText.isUnpaired, CodeText.points_ofPoints]
  exact areUnpaired_spelling read

theorem scalar_writeText {s : CodeText} (unpaired : s.isUnpaired = true) (rest : List Char) :
    scalar (writeText s ++ rest) = some (text s, rest) := by
  simp only [writeText, List.cons_append, List.append_assoc, List.nil_append]
  rw [scalar, textBody_writeText unpaired]
  rfl

theorem memberName_writeText {s : CodeText} (unpaired : s.isUnpaired = true) (rest : List Char) :
    memberName (writeText s ++ ':' :: rest) = some (s, skip rest) := by
  simp only [writeText, List.cons_append, List.append_assoc, List.nil_append]
  rw [memberName, textBody_writeText unpaired]
  simp [skip, isSpace]

/-- What may stand behind a number without being taken for a part of it. -/
def EndsNumber (rest : List Char) : Prop :=
  ∀ c ∈ rest.head?, c.isDigit = false ∧ c ≠ '.' ∧ c ≠ 'e' ∧ c ≠ 'E'

section Numbers

variable {rest : List Char}

theorem spanDigits_append {digits : List Char} (all : ∀ c ∈ digits, c.isDigit = true)
    (ends : EndsNumber rest) : spanDigits (digits ++ rest) = (digits, rest) := by
  unfold spanDigits
  rw [List.takeWhile_append_of_pos all, List.dropWhile_append_of_pos all]
  cases rest with
  | nil => simp
  | cons c r =>
    have other : ¬c.isDigit = true := by simp [(ends c rfl).1]
    rw [List.takeWhile_cons_of_neg other, List.dropWhile_cons_of_neg other, List.append_nil]

theorem toDigits_head (n : Nat) :
    ∃ c r, Nat.toDigits 10 n = c :: r ∧ c.isDigit = true ∧ (c = '0' → n = 0) := by
  induction n using Nat.base_induction 10 (by decide) with
  | single m small =>
    refine ⟨Nat.digitChar m, [], Nat.toDigits_of_lt_base small, ?_, Nat.digitChar_eq_zero.mp⟩
    simpa using small
  | digit m k small positive ih =>
    obtain ⟨c, r, digits, digit, zero⟩ := ih
    refine ⟨c, r ++ Nat.toDigits 10 k, ?_, digit, fun h => absurd (zero h) (by omega)⟩
    rw [← Nat.toDigits_append_toDigits (by decide) positive small, digits, List.cons_append]

theorem whole_toDigits (n : Nat) (ends : EndsNumber rest) :
    whole (Nat.toDigits 10 n ++ rest) = some (Nat.toDigits 10 n, rest) := by
  obtain ⟨c, r, digits, digit, zero⟩ := toDigits_head n
  have all : ∀ d ∈ c :: r, d.isDigit = true := by
    rw [← digits]
    exact fun d hd => Nat.isDigit_of_mem_toDigits (by decide) (by decide) hd
  by_cases first : c = '0'
  · rw [zero first, Nat.toDigits_zero]
    rfl
  · have span := spanDigits_append all ends
    rw [digits, List.cons_append] at *
    rw [whole, span]
    simpa using first

theorem fraction_eq_nil (ends : EndsNumber rest) : fraction rest = ([], rest) := by
  cases rest with
  | nil => rfl
  | cons c r =>
    rw [fraction]
    simpa using (ends c rfl).2.1

theorem exponent?_eq_none (ends : EndsNumber rest) : exponent? rest = none := by
  cases rest with
  | nil => rfl
  | cons c r =>
    unfold exponent?
    exact if_neg (by simp [(ends c rfl).2.2])

theorem unsigned_toDigits (negative : Bool) (n : Nat) (ends : EndsNumber rest) :
    unsigned negative (Nat.toDigits 10 n ++ rest)
      = some (integer (if negative then -(n : Int) else n), rest) := by
  unfold unsigned
  rw [whole_toDigits n ends]
  simp [fraction_eq_nil ends, exponent?_eq_none ends]

theorem ne_of_isDigit {c d : Char} (digit : c.isDigit = true) (other : d.isDigit = false) :
    c ≠ d := by
  rintro rfl
  rw [digit] at other
  cases other

theorem scalar_digit {c : Char} (digit : c.isDigit = true) (cs : List Char) :
    scalar (c :: cs) = unsigned false (c :: cs) := by
  have apart (d : Char) (other : d.isDigit = false) : c ≠ d := ne_of_isDigit digit other
  rw [scalar, number]
  all_goals simp [apart]

theorem scalar_minus {c : Char} (digit : c.isDigit = true) (cs : List Char) :
    scalar ('-' :: c :: cs) = unsigned true (c :: cs) := by
  have apart : c ≠ 'I' := ne_of_isDigit digit rfl
  rw [scalar, number]
  all_goals simp [apart]

theorem scalar_numberText (n : Int) (ends : EndsNumber rest) :
    scalar ((Datum.numberText n).toList ++ rest) = some (integer n, rest) := by
  obtain ⟨c, r, digits, digit, _⟩ := toDigits_head n.natAbs
  have read (negative : Bool) := unsigned_toDigits negative n.natAbs ends
  rw [Datum.numberText, String.toList_ofList]
  rw [digits] at read ⊢
  split
  · next negative =>
    refine (scalar_minus digit (r ++ rest)).trans ((read true).trans ?_)
    rw [if_pos rfl, Int.ofNat_natAbs_of_nonpos (Int.le_of_lt negative), Int.neg_neg]
  · next natural =>
    refine (scalar_digit digit (r ++ rest)).trans ((read false).trans ?_)
    rw [if_neg Bool.false_ne_true, Int.natAbs_of_nonneg (Int.not_lt.mp natural)]

end Numbers

end Json

end EventEnvelope
