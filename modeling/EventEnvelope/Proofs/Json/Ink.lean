import EventEnvelope.Proofs.Json.Text
import Mathlib.Algebra.Order.BigOperators.Group.List
import Mathlib.Algebra.Order.Ring.Nat
import Mathlib.Data.List.Perm.Subperm

/-! What a JSON text takes to write. The space is the one character that may stand anywhere and
stand for itself, so all others are counted. Main statement: the reader finds no more in a text than
the text has ink for, where each text in the tree costs its two marks and each code point of it that
needs an escape costs two. -/

namespace EventEnvelope.Json

/-- A character counts as ink unless it is the space. -/
def mark (c : Char) : Nat := if c = ' ' then 0 else 1

def ink (cs : List Char) : Nat := (cs.map mark).sum

/-- Characters that may stand for themselves within a text. -/
def isPlain (c : Char) : Bool := c ≠ '\x22' && c ≠ '\x5c' && 0x20 ≤ c.toNat

/-- The least ink that a character takes within a text. -/
def price (c : Char) : Nat := if isPlain c then mark c else 2

/-- A surrogate always takes an escape. -/
def pointPrice : CodePoint → Nat
  | .char c => price c
  | .surrogate _ => 2

def textPrice (s : CodeText) : Nat := (s.points.map pointPrice).sum + 2

/-- What a value takes, containers left out. -/
def leafPrice : Json → Nat
  | text s => textPrice s
  | _ => 0

/-- A member takes a colon behind the name, and a comma or a brace behind the value. -/
def memberPrice (m : CodeText × Json) : Nat := textPrice m.1 + leafPrice m.2 + 2

def membersPrice (ms : List (CodeText × Json)) : Nat := (ms.map memberPrice).sum

/-- What a value takes at least; an object takes the brace that opens it and its members. -/
def valuePrice : Json → Nat
  | object ms => 1 + membersPrice ms
  | j => leafPrice j

@[simp] theorem ink_nil : ink [] = 0 := rfl

@[simp] theorem ink_cons (c : Char) (cs : List Char) : ink (c :: cs) = mark c + ink cs := by
  simp [ink]

theorem ink_cons_of_ne {c : Char} (marked : c ≠ ' ') (cs : List Char) :
    ink (c :: cs) = 1 + ink cs := by
  rw [ink_cons, mark, if_neg marked]

@[simp] theorem ink_append (cs cs' : List Char) : ink (cs ++ cs') = ink cs + ink cs' := by
  simp [ink]

theorem mark_le_price (c : Char) : mark c ≤ price c := by
  unfold price mark
  split <;> split <;> omega

theorem price_le (c : Char) : price c ≤ 2 := by
  unfold price mark
  split
  · split <;> omega
  · omega

/-- Only plain characters are as cheap within a text as outside. -/
theorem isPlain_of_price_le {c : Char} (h : price c ≤ mark c) : isPlain c = true := by
  unfold price mark at h
  split at h
  · assumption
  · split at h <;> omega

theorem leafPrice_le_valuePrice (j : Json) : leafPrice j ≤ valuePrice j := by
  cases j with
  | object ms => exact Nat.zero_le _
  | _ => exact Nat.le_refl _

theorem ink_le_of_suffix {rest cs : List Char} (h : rest <:+ cs) : ink rest ≤ ink cs := by
  obtain ⟨front, rfl⟩ := h
  rw [ink_append]
  omega

theorem skip_suffix (cs : List Char) : skip cs <:+ cs := List.dropWhile_suffix _

theorem ink_skip_le (cs : List Char) : ink (skip cs) ≤ ink cs := ink_le_of_suffix (skip_suffix cs)

section Texts

variable {cs rest : List Char}

/-- Two surrogates that become one character have paid for it. -/
theorem inFront_price (p : CodePoint) (ps : List CodePoint) :
    ((inFront p ps).map pointPrice).sum ≤ pointPrice p + (ps.map pointPrice).sum := by
  unfold inFront
  split
  · next u v r =>
    split
    · have limit := price_le (paired u v)
      simp only [List.map_cons, List.sum_cons, pointPrice]
      omega
    · exact Nat.le_refl _
  · exact Nat.le_refl _

theorem pointPrice_le (p : CodePoint) : pointPrice p ≤ 2 := by
  cases p with
  | char c => exact price_le c
  | surrogate u => exact Nat.le_refl _

theorem mark_of_shortEscape? {c x : Char} (h : shortEscape? c = some x) : mark c = 1 := by
  unfold mark
  split
  · next blank =>
    subst blank
    cases h
  · rfl

theorem spelling_ink {ps : List CodePoint} (h : spelling cs = some (ps, rest)) :
    (ps.map pointPrice).sum + 1 + ink rest ≤ ink cs := by
  fun_induction spelling cs generalizing ps with
  | case1 => cases h
  | case2 rest' =>
    cases h
    simp [mark]
  -- A numbered escape adds one character at most: its backslash and its letter pay for that.
  | case3 a b c d rest' n unit ih =>
    obtain ⟨qs, read, rfl⟩ := extend_eq_some h
    have bound := ih read
    have dear := inFront_price (pointOfUnit n) qs
    have limit := pointPrice_le (pointOfUnit n)
    simp only [ink_cons, mark, Char.reduceEq, if_false]
    omega
  | case4 => cases h
  -- The letter of a short escape is never the space.
  | case5 c rest' _ x known ih =>
    obtain ⟨qs, read, rfl⟩ := extend_eq_some h
    have bound := ih read
    have dear := inFront_price (.char x) qs
    have limit := pointPrice_le (.char x)
    simp only [ink_cons, mark_of_shortEscape? known]
    simp only [mark, Char.reduceEq, if_false]
    omega
  | case6 => cases h
  | case7 => cases h
  | case8 c rest' quotes _ escape shown ih =>
    obtain ⟨qs, read, rfl⟩ := extend_eq_some h
    have bound := ih read
    have dear := inFront_price (.char c) qs
    have unescaped : c ≠ '\x5c' := by
      rintro rfl
      cases rest' with
      | nil => cases read
      | cons d r => exact escape d r rfl rfl
    have plain : isPlain c = true := by
      simp only [isPlain, ne_eq, decide_not, Bool.and_eq_true, Bool.not_eq_true',
        decide_eq_false_iff_not, decide_eq_true_eq]
      exact ⟨⟨quotes, unescaped⟩, Nat.le_of_not_lt shown⟩
    rw [pointPrice, price, if_pos plain] at dear
    rw [ink_cons]
    omega

theorem textBody_ink {s : CodeText} (h : textBody cs = some (s, rest)) :
    textPrice s + ink rest ≤ 1 + ink cs := by
  obtain ⟨⟨ps, _⟩, read, same⟩ := Option.map_eq_some_iff.mp h
  cases same
  have bound := spelling_ink read
  rw [textPrice, CodeText.points_ofPoints]
  omega

theorem memberName_ink {k : CodeText} (h : memberName cs = some (k, rest)) :
    textPrice k + 1 + ink rest ≤ ink cs := by
  unfold memberName at h
  split at h
  · split at h
    · cases h
    · next s after read =>
      split at h
      · next after' colon =>
        cases h
        have body := textBody_ink read
        have colonBehind := ink_skip_le after
        have blanks := ink_skip_le after'
        rw [colon, ink_cons_of_ne (by decide)] at colonBehind
        rw [ink_cons_of_ne (by decide)]
        omega
      · cases h
  · cases h

end Texts

/-! A number takes ink, but what is counted here is only that none is left over. -/

section Numbers

variable {cs rest : List Char}

theorem spanDigits_suffix (cs : List Char) : (spanDigits cs).2 <:+ cs := List.dropWhile_suffix _

theorem whole_suffix {ds : List Char} (h : whole cs = some (ds, rest)) : rest <:+ cs := by
  unfold whole at h
  split at h
  · cases h
    exact List.suffix_cons _ _
  · split at h
    · cases h
    · cases h
      exact spanDigits_suffix cs

theorem fraction_suffix (cs : List Char) : (fraction cs).2 <:+ cs := by
  unfold fraction
  split
  · next rest =>
    split
    · exact List.suffix_refl _
    · exact (spanDigits_suffix rest).trans (List.suffix_cons _ _)
  · exact List.suffix_refl _

theorem exponentDigits_suffix {negative : Bool} {e : Int}
    (h : exponentDigits negative cs = some (e, rest)) : rest <:+ cs := by
  have suffix := spanDigits_suffix cs
  unfold exponentDigits at h
  split at h
  · cases h
  · next spanned =>
    rw [spanned] at suffix
    cases h
    exact suffix

theorem exponent?_suffix {e : Int} (h : exponent? cs = some (e, rest)) : rest <:+ cs := by
  unfold exponent? at h
  split at h
  · split at h
    · split at h
      · exact (exponentDigits_suffix h).trans ((List.suffix_cons _ _).trans (List.suffix_cons _ _))
      · exact (exponentDigits_suffix h).trans ((List.suffix_cons _ _).trans (List.suffix_cons _ _))
      · exact (exponentDigits_suffix h).trans (List.suffix_cons _ _)
    · cases h
  · cases h

theorem unsigned_suffix {negative : Bool} {j : Json}
    (h : unsigned negative cs = some (j, rest)) : valuePrice j = 0 ∧ rest <:+ cs := by
  unfold unsigned at h
  split at h
  · cases h
  · next ds after read =>
    have fractional := (fraction_suffix after).trans (whole_suffix read)
    dsimp only at h
    split at h
    · next scientific =>
      cases h
      exact ⟨rfl, (exponent?_suffix scientific).trans fractional⟩
    · split at h <;> cases h <;> exact ⟨rfl, fractional⟩

theorem number_suffix {j : Json} (h : number cs = some (j, rest)) :
    valuePrice j = 0 ∧ rest <:+ cs := by
  unfold number at h
  split at h
  · have read := unsigned_suffix h
    exact ⟨read.1, read.2.trans (List.suffix_cons _ _)⟩
  · exact unsigned_suffix h

end Numbers

theorem scalar_ink {cs rest : List Char} {j : Json} (h : scalar cs = some (j, rest)) :
    valuePrice j + ink rest ≤ ink cs := by
  unfold scalar at h
  split at h
  case h_1 body =>
    obtain ⟨⟨s, _⟩, read, same⟩ := Option.map_eq_some_iff.mp h
    cases same
    have bound := textBody_ink read
    rw [valuePrice, leafPrice, ink_cons_of_ne (by decide)]
    · omega
    · nofun
  case h_8 =>
    have read := number_suffix h
    have bound := ink_le_of_suffix read.2
    omega
  -- The words of the language cost nothing.
  all_goals
    cases h
    simp only [valuePrice, leafPrice, ink_cons]
    omega

mutual

theorem value_ink : (fuel : Nat) → {cs rest : List Char} → {j : Json} →
    value fuel cs = some (j, rest) → valuePrice j + ink rest ≤ ink cs
  | 0, _, _, _, h => by cases h
  | n + 1, cs, rest, j, h => by
    unfold value at h
    split at h
    · cases h
    · next inside same =>
      cases same
      have blanks := ink_skip_le inside
      split at h
      · next closed =>
        cases h
        rw [closed] at blanks
        simp only [valuePrice, leafPrice, ink_cons] at blanks ⊢
        omega
      · obtain ⟨⟨xs, _⟩, read, same⟩ := Option.map_eq_some_iff.mp h
        cases same
        have parts := elements_ink n read
        simp only [valuePrice, leafPrice, ink_cons]
        omega
    · next inside same =>
      cases same
      have blanks := ink_skip_le inside
      split at h
      · next closed =>
        cases h
        rw [closed, ink_cons] at blanks
        rw [valuePrice, membersPrice, List.map_nil, List.sum_nil, ink_cons_of_ne (by decide)]
        omega
      · obtain ⟨⟨ms, _⟩, read, same⟩ := Option.map_eq_some_iff.mp h
        cases same
        have parts := members_ink n read
        rw [valuePrice, ink_cons_of_ne (by decide)]
        omega
    · exact scalar_ink h

theorem elements_ink : (fuel : Nat) → {cs rest : List Char} → {js : List Json} →
    elements fuel cs = some (js, rest) → ink rest ≤ ink cs
  | 0, _, _, _, h => by cases h
  | n + 1, cs, rest, js, h => by
    unfold elements at h
    split at h
    · cases h
    · next j after read =>
      have first := value_ink n read
      have blanks := ink_skip_le after
      split at h
      · next closed =>
        cases h
        rw [closed, ink_cons] at blanks
        omega
      · next more comma =>
        obtain ⟨⟨js', _⟩, read', same⟩ := Option.map_eq_some_iff.mp h
        cases same
        have others := elements_ink n read'
        have blanks' := ink_skip_le more
        rw [comma, ink_cons] at blanks
        omega
      · cases h

theorem members_ink : (fuel : Nat) → {cs rest : List Char} → {ms : List (CodeText × Json)} →
    members fuel cs = some (ms, rest) → membersPrice ms + ink rest ≤ ink cs
  | 0, _, _, _, h => by cases h
  | n + 1, cs, rest, ms, h => by
    unfold members at h
    split at h
    · cases h
    · next k behind named =>
      have name := memberName_ink named
      split at h
      · cases h
      · next j after read =>
        have held := value_ink n read
        have leaf := leafPrice_le_valuePrice j
        have blanks := ink_skip_le after
        split at h
        · next closed =>
          cases h
          rw [closed, ink_cons_of_ne (by decide)] at blanks
          simp only [membersPrice, memberPrice, List.map_cons, List.map_nil, List.sum_cons,
            List.sum_nil]
          omega
        · next more comma =>
          obtain ⟨⟨ms', _⟩, read', same⟩ := Option.map_eq_some_iff.mp h
          cases same
          have others := members_ink n read'
          have blanks' := ink_skip_le more
          rw [comma, ink_cons_of_ne (by decide)] at blanks
          simp only [membersPrice, memberPrice, List.map_cons, List.sum_cons] at others ⊢
          omega
        · cases h

end

/-- An object that a text spells takes no more ink than the text has. -/
theorem object_ink {s : String} {ms : List (CodeText × Json)} (h : parse? s = some (object ms)) :
    1 + membersPrice ms ≤ ink s.toList := by
  unfold parse? at h
  dsimp only at h
  split at h
  · next read =>
    split at h
    · cases h
      have bound := value_ink _ read
      have blanks := ink_skip_le s.toList
      rw [valuePrice] at bound
      omega
    · cases h
  · cases h

/-- Different members of an object are paid for each by itself. -/
theorem membersPrice_le_of_subset {picked ms : List (CodeText × Json)} (distinct : picked.Nodup)
    (listed : picked ⊆ ms) : membersPrice picked ≤ membersPrice ms := by
  obtain ⟨_, perm, sublist⟩ := List.subperm_of_subset distinct listed
  unfold membersPrice
  rw [← (perm.map memberPrice).sum_eq]
  exact (sublist.map memberPrice).sum_le_sum fun _ _ => Nat.zero_le _

end EventEnvelope.Json
