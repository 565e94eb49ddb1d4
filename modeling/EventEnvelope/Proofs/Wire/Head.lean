import EventEnvelope.Wire.Reader
import EventEnvelope.Wire.Writer

/-! The first bytes of a value, written and read back. Every form the writer chooses for a count, an
integer, a text or an extension announces to the reader what was written, whatever follows. -/

namespace EventEnvelope

namespace Bytes

/-- Two's complement reads back every number that the width can hold with its sign. -/
theorem toInt_ofInt {width : Nat} {n : Int} (low : -(capacity width : Int) ≤ 2 * n)
    (high : 2 * n < capacity width) : toInt (ofInt width n) = n := by
  have positive : (0 : Int) < capacity width := by
    have : 0 < capacity width := Nat.pow_pos (by decide)
    omega
  have spelled : (ofInt width n).toNat = (n % capacity width).toNat := by
    rw [ofInt, toNat_ofNat, Nat.mod_eq_of_lt]
    have := Int.emod_lt_of_pos n positive
    omega
  rw [toInt, spelled, ofInt, length_ofNat]
  by_cases sign : 0 ≤ n
  · have same : n % capacity width = n := Int.emod_eq_of_lt sign (by omega)
    rw [same, if_pos (by omega)]
    omega
  · have shifted : n % capacity width = n + capacity width := by
      rw [← Int.add_emod_right, Int.emod_eq_of_lt (by omega) (by omega)]
    rw [shifted, if_neg (by omega)]
    omega

theorem lt_pow_bitLength (n : Nat) : n < Nat.pow 2 (bitLength n) := by
  unfold bitLength
  split
  · next zero => simp [zero]
  · exact Nat.lt_log2_self

theorem capacity_eq_pow (width : Nat) : capacity width = Nat.pow 2 (8 * width) :=
  (Nat.pow_mul 2 8 width).symm

/-- The width chosen for an integer leaves room for its sign. -/
theorem two_mul_natAbs_lt (n : Int) : 2 * n.natAbs < capacity (signedWidth n) := by
  have digits := lt_pow_bitLength n.natAbs
  have room : bitLength n.natAbs + 1 ≤ 8 * signedWidth n := by
    unfold signedWidth
    omega
  calc 2 * n.natAbs < 2 * Nat.pow 2 (bitLength n.natAbs) := by omega
    _ = Nat.pow 2 (bitLength n.natAbs + 1) := Nat.mul_comm _ _
    _ ≤ Nat.pow 2 (8 * signedWidth n) := Nat.pow_le_pow_right (by decide) room
    _ = capacity (signedWidth n) := (capacity_eq_pow _).symm

theorem toInt_signedWidth (n : Int) : toInt (ofInt (signedWidth n) n) = n := by
  have := two_mul_natAbs_lt n
  exact toInt_ofInt (by omega) (by omega)

end Bytes

namespace Wire

namespace Read

variable {α β : Type}

theorem bind_ok {x : Read α} {f : α → Read β} {bs rest : Bytes} {a : α}
    (h : x bs = .ok (a, rest)) : (x >>= f) bs = f a rest := by
  change (x bs).bind _ = _
  rw [h]
  rfl

theorem bind_error {x : Read α} {f : α → Read β} {bs : Bytes} {fault : DecodeFault}
    (h : x bs = .error fault) : (x >>= f) bs = .error fault := by
  change (x bs).bind _ = _
  rw [h]
  rfl

end Read

section Parts

variable {first rest : Except Failure Bytes} {head : Option Bytes} {bs : Bytes}

theorem isOk_joined : (joined first rest).isOk = (first.isOk && rest.isOk) := by
  cases first <;> cases rest <;> rfl

theorem isOk_headed : (headed head rest).isOk = (head.isSome && rest.isOk) := by
  cases head <;> cases rest <;> rfl

theorem joined_eq_ok (h : joined first rest = .ok bs) :
    ∃ front back, first = .ok front ∧ rest = .ok back ∧ bs = front ++ back := by
  unfold joined at h
  split at h
  · next front back =>
    cases h
    exact ⟨front, back, rfl, rfl, rfl⟩
  · contradiction
  · contradiction

theorem headed_eq_ok (h : headed head rest = .ok bs) :
    ∃ front back, head = some front ∧ rest = .ok back ∧ bs = front ++ back := by
  obtain ⟨front, back, first, rest, parts⟩ := joined_eq_ok h
  split at first
  · cases first
    exact ⟨front, back, rfl, rest, parts⟩
  · contradiction

theorem writeText_eq_ok {s : CodeText} (h : writeText s = .ok bs) :
    ∃ t front, s = .proper t ∧ textTags.head (Utf8.encode t).length = some front ∧
      bs = front ++ Utf8.encode t := by
  cases s with
  | proper t =>
    obtain ⟨front, _, count, same, parts⟩ := headed_eq_ok h
    cases same
    exact ⟨t, front, rfl, count, parts⟩
  | broken s u rest => cases h

theorem writeExt_eq_ok {code : Nat} {body : Bytes} (h : writeExt code body = .ok bs) :
    ∃ front, extHead body.length = some front ∧ bs = front ++ byte code :: body := by
  obtain ⟨front, _, count, same, parts⟩ := headed_eq_ok h
  cases same
  exact ⟨front, count, parts⟩

end Parts

theorem take_append {front : Bytes} {n : Nat} (length : front.length = n) (rest : Bytes) :
    take n (front ++ rest) = .ok (front, rest) := by
  subst length
  simp [take]

theorem natural_append {width n : Nat} (fits : n < Bytes.capacity width) (rest : Bytes) :
    natural width (Bytes.ofNat width n ++ rest) = .ok (n, rest) := by
  unfold natural
  rw [Read.bind_ok (take_append (Bytes.length_ofNat width n) rest), Bytes.toNat_ofNat,
    Nat.mod_eq_of_lt fits]
  rfl

theorem signed_append {width : Nat} {n : Int} (low : -(Bytes.capacity width : Int) ≤ 2 * n)
    (high : 2 * n < Bytes.capacity width) (rest : Bytes) :
    signed width (Bytes.ofInt width n ++ rest) = .ok (n, rest) := by
  unfold signed
  have length : (Bytes.ofInt width n).length = width := Bytes.length_ofNat width _
  rw [Read.bind_ok (take_append length rest), Bytes.toInt_ofInt low high]
  rfl

theorem toNat_byte {n : Nat} (h : n < 0x100) : (byte n).toNat = n := by
  rw [byte, UInt8.toNat_ofNat']
  exact Nat.mod_eq_of_lt h

theorem head_cons (b : UInt8) (rest : Bytes) : head (b :: rest) = headOf b.toNat rest := by
  have one : take 1 (b :: rest) = .ok ([b], rest) := @take_append [b] 1 rfl rest
  have tag : natural 1 (b :: rest) = .ok (b.toNat, rest) := by
    unfold natural
    rw [Read.bind_ok one]
    simp [Bytes.toNat, Bytes.capacity]
    rfl
  exact Read.bind_ok tag

/-- A tag below 256 is the one that is read. -/
theorem head_byte {tag : Nat} (h : tag < 0x100) (rest : Bytes) :
    head (byte tag :: rest) = headOf tag rest := by
  rw [head_cons, toNat_byte h]

theorem CountTags.head_cases {t : CountTags} {n : Nat} {bs : Bytes} (h : t.head n = some bs) :
    (n < t.smallLimit ∧ bs = [byte (t.small + n)]) ∨
    (∃ one, t.one = some one ∧ n < 0x100 ∧ bs = byte one :: Bytes.ofNat 1 n) ∨
    (n < 0x10000 ∧ bs = byte t.two :: Bytes.ofNat 2 n) ∨
    (n < 0x100000000 ∧ bs = byte t.four :: Bytes.ofNat 4 n) := by
  unfold CountTags.head at h
  by_cases small : n < t.smallLimit
  · rw [if_pos small] at h
    exact .inl ⟨small, (Option.some.inj h).symm⟩
  · rw [if_neg small] at h
    split at h
    · next one hone below =>
      have fits : n < 0x100 := of_decide_eq_true below
      refine .inr (.inl ⟨one, hone, fits, ?_⟩)
      rw [← Option.some.inj h]
      simp [Bytes.ofNat, Bytes.capacity, byte, Nat.mod_eq_of_lt fits]
    · split at h
      · next two => exact .inr (.inr (.inl ⟨two, (Option.some.inj h).symm⟩))
      · split at h
        · next four => exact .inr (.inr (.inr ⟨four, (Option.some.inj h).symm⟩))
        · contradiction

theorem sized_append {body : Nat → Read Head} {width n : Nat} (fits : n < Bytes.capacity width)
    (rest : Bytes) : sized body width (Bytes.ofNat width n ++ rest) = body n rest :=
  Read.bind_ok (natural_append fits rest)

/-- Each tag of a count makes the reader go on with the same body. -/
structure CountTags.Announces (t : CountTags) (body : Nat → Read Head) : Prop where
  small : ∀ n < t.smallLimit, t.small + n < 0x100 ∧ headOf (t.small + n) = body n
  one : ∀ one ∈ t.one, one < 0x100 ∧ headOf one = sized body 1
  two : t.two < 0x100 ∧ headOf t.two = sized body 2
  four : t.four < 0x100 ∧ headOf t.four = sized body 4

theorem CountTags.Announces.head_append {t : CountTags} {body : Nat → Read Head}
    (h : t.Announces body) {n : Nat} {bs : Bytes} (written : t.head n = some bs) (rest : Bytes) :
    Wire.head (bs ++ rest) = body n rest := by
  rcases head_cases written with
    ⟨small, rfl⟩ | ⟨one, listed, fits, rfl⟩ | ⟨fits, rfl⟩ | ⟨fits, rfl⟩
  · obtain ⟨tag, announced⟩ := h.small n small
    rw [List.singleton_append, head_byte tag, announced]
  · obtain ⟨tag, announced⟩ := h.one one listed
    rw [List.cons_append, head_byte tag, announced, sized_append fits]
  · obtain ⟨tag, announced⟩ := h.two
    rw [List.cons_append, head_byte tag, announced, sized_append fits]
  · obtain ⟨tag, announced⟩ := h.four
    rw [List.cons_append, head_byte tag, announced, sized_append fits]

theorem announces_array : arrayTags.Announces fun n => return .array n where
  small n h := by
    change n < 16 at h
    change 0x90 + n < 0x100 ∧ headOf (0x90 + n) = _
    unfold headOf
    rw [if_neg (by omega), if_neg (by omega), if_pos (by omega), Nat.add_sub_cancel_left]
    exact ⟨by omega, rfl⟩
  one _ h := by cases h
  two := ⟨by decide, rfl⟩
  four := ⟨by decide, rfl⟩

theorem announces_map : mapTags.Announces fun n => return .map n where
  small n h := by
    change n < 16 at h
    change 0x80 + n < 0x100 ∧ headOf (0x80 + n) = _
    unfold headOf
    rw [if_neg (by omega), if_pos (by omega), Nat.add_sub_cancel_left]
    exact ⟨by omega, rfl⟩
  one _ h := by cases h
  two := ⟨by decide, rfl⟩
  four := ⟨by decide, rfl⟩

theorem announces_text : textTags.Announces textBody where
  small n h := by
    change n < 32 at h
    change 0xa0 + n < 0x100 ∧ headOf (0xa0 + n) = _
    unfold headOf
    rw [if_neg (by omega), if_neg (by omega), if_neg (by omega), if_pos (by omega),
      Nat.add_sub_cancel_left]
    exact ⟨by omega, rfl⟩
  one _ h := by cases h; exact ⟨by decide, rfl⟩
  two := ⟨by decide, rfl⟩
  four := ⟨by decide, rfl⟩

theorem head_array {n : Nat} {bs : Bytes} (written : arrayTags.head n = some bs) (rest : Bytes) :
    head (bs ++ rest) = .ok (.array n, rest) :=
  announces_array.head_append written rest

theorem head_map {n : Nat} {bs : Bytes} (written : mapTags.head n = some bs) (rest : Bytes) :
    head (bs ++ rest) = .ok (.map n, rest) :=
  announces_map.head_append written rest

theorem unsignedHead_append {width n : Nat} (fits : n < Bytes.capacity width) (rest : Bytes) :
    unsignedHead width (Bytes.ofNat width n ++ rest) = .ok (.whole (.number n), rest) :=
  Read.bind_ok (natural_append fits rest)

theorem signedHead_append {width : Nat} {n : Int} (low : -(Bytes.capacity width : Int) ≤ 2 * n)
    (high : 2 * n < Bytes.capacity width) (rest : Bytes) :
    signedHead width (Bytes.ofInt width n ++ rest) = .ok (.whole (.number n), rest) :=
  Read.bind_ok (signed_append low high rest)

theorem head_natural {n : Nat} (h : n < 0x10000000000000000) (rest : Bytes) :
    head (writeNatural n ++ rest) = .ok (.whole (.number n), rest) := by
  unfold writeNatural
  by_cases one : n < 0x80
  · rw [if_pos one, List.singleton_append, head_byte (by omega)]
    unfold headOf
    rw [if_pos one]
    rfl
  rw [if_neg one]
  by_cases two : n < 0x100
  · rw [if_pos two, List.cons_append, head_cons]
    exact @unsignedHead_append 1 _ two rest
  rw [if_neg two]
  by_cases three : n < 0x10000
  · rw [if_pos three, List.cons_append, head_cons]
    exact @unsignedHead_append 2 _ three rest
  rw [if_neg three]
  by_cases five : n < 0x100000000
  · rw [if_pos five, List.cons_append, head_cons]
    exact @unsignedHead_append 4 _ five rest
  rw [if_neg five, List.cons_append, head_cons]
  exact @unsignedHead_append 8 _ h rest

theorem head_negative {n : Int} (low : -0x8000000000000000 ≤ n) (negative : n < 0)
    (rest : Bytes) : head (writeNegative n ++ rest) = .ok (.whole (.number n), rest) := by
  unfold writeNegative
  by_cases one : -0x20 ≤ n
  · -- the tag itself is the number, shifted by the range of a byte
    have spelled : Bytes.ofInt 1 n = [byte (n + 0x100).toNat] := by
      have shifted : n % Bytes.capacity 1 = n + 0x100 := by
        change n % 256 = _
        omega
      rw [Bytes.ofInt, shifted]
      have small : (n + 256).toNat < 256 := by omega
      simp [Bytes.ofNat, Bytes.capacity, byte, Nat.mod_eq_of_lt small]
    have back : (((n + 0x100).toNat : Nat) : Int) - 0x100 = n := by omega
    rw [if_pos one, spelled, List.singleton_append, head_byte (by omega)]
    unfold headOf
    rw [if_neg (by omega), if_neg (by omega), if_neg (by omega), if_neg (by omega),
      if_pos (by omega), back]
    rfl
  rw [if_neg one]
  by_cases two : -0x80 ≤ n
  · rw [if_pos two, List.cons_append, head_cons]
    exact @signedHead_append 1 _ (by change -256 ≤ _; omega) (by change _ < (256 : Int); omega) rest
  rw [if_neg two]
  by_cases three : -0x8000 ≤ n
  · rw [if_pos three, List.cons_append, head_cons]
    exact @signedHead_append 2 _ (by change -65536 ≤ _; omega)
      (by change _ < (65536 : Int); omega) rest
  rw [if_neg three]
  by_cases five : -0x80000000 ≤ n
  · rw [if_pos five, List.cons_append, head_cons]
    exact @signedHead_append 4 _ (by change -4294967296 ≤ _; omega)
      (by change _ < (4294967296 : Int); omega) rest
  rw [if_neg five, List.cons_append, head_cons]
  exact @signedHead_append 8 _ (by change -18446744073709551616 ≤ _; omega)
    (by change _ < (18446744073709551616 : Int); omega) rest

theorem head_integer {n : Int} (native : isNative n = true) (rest : Bytes) :
    head (writeInteger n ++ rest) = .ok (.whole (.number n), rest) := by
  simp only [isNative, Bool.and_eq_true, decide_eq_true_eq] at native
  unfold writeInteger
  by_cases sign : 0 ≤ n
  · have same : ((n.toNat : Nat) : Int) = n := Int.toNat_of_nonneg sign
    rw [if_pos sign, head_natural (by omega), same]
  · rw [if_neg sign]
    exact head_negative native.1 (by omega) rest

theorem textBody_encode (s : String) (rest : Bytes) :
    textBody (Utf8.encode s).length (Utf8.encode s ++ rest) = .ok (.whole (.plain s), rest) := by
  unfold textBody
  rw [Read.bind_ok (take_append rfl rest), Utf8.decode?_encode]
  rfl

theorem head_text {s : CodeText} {bs : Bytes} (written : writeText s = .ok bs) (rest : Bytes) :
    head (bs ++ rest) = .ok (.whole (.plain s), rest) := by
  obtain ⟨t, front, rfl, count, rfl⟩ := writeText_eq_ok written
  rw [List.append_assoc, announces_text.head_append count]
  exact textBody_encode t rest

/-- An extension body of the right length is the value of the extension. -/
theorem extBody_append {code : Nat} {bs : Bytes} {d : Datum} (small : code < 0x80)
    (value : ofExt code bs = .ok d) (rest : Bytes) :
    extBody bs.length (byte code :: (bs ++ rest)) = .ok (.whole d, rest) := by
  have tag : signed 1 (byte code :: (bs ++ rest)) = .ok ((code : Int), bs ++ rest) := by
    have spelled : [byte code] = Bytes.ofInt 1 code := by
      have fits : (code : Int) % Bytes.capacity 1 = code :=
        Int.emod_eq_of_lt (by omega) (by change (code : Int) < 256; omega)
      rw [Bytes.ofInt, fits]
      simp [Bytes.ofNat, Bytes.capacity, byte, Nat.mod_eq_of_lt (show code < 256 by omega)]
    rw [← List.singleton_append, spelled]
    exact signed_append (by change -256 ≤ _; omega) (by change _ < (256 : Int); omega) _
  have known : extValue code bs = .ok d := by
    unfold extValue
    rw [if_neg (by change ¬ (code : Int) = -1; omega)]
    exact value
  unfold extBody
  rw [Read.bind_ok tag, Read.bind_ok (take_append rfl rest), known]
  rfl

theorem head_ext {code : Nat} {body bs : Bytes} {d : Datum} (small : code < 0x80)
    (value : ofExt code body = .ok d) (written : writeExt code body = .ok bs) (rest : Bytes) :
    head (bs ++ rest) = .ok (.whole d, rest) := by
  obtain ⟨front, count, rfl⟩ := writeExt_eq_ok written
  have ended := extBody_append small value rest
  rw [List.append_assoc, List.cons_append]
  generalize body.length = n at count ended
  unfold extHead at count
  split at count
  · next tag fixed =>
    cases count
    unfold fixedExtTag? at fixed
    split at fixed <;> cases fixed <;> exact ended
  · split at count
    · next fits =>
      cases count
      exact (@sized_append _ 1 _ fits _).trans ended
    · split at count
      · next fits =>
        cases count
        exact (@sized_append _ 2 _ fits _).trans ended
      · split at count
        · next fits =>
          cases count
          exact (@sized_append _ 4 _ fits _).trans ended
        · contradiction

end Wire

end EventEnvelope
