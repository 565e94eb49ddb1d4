import EventEnvelope.Proofs.Wire.Head
import Mathlib.Algebra.Group.Int.Defs

/-! How many bytes an integer beyond 64 bits takes. Its width leaves room for a sign beside all the
digits of the absolute value, and the least number of a width needs no such room. Main statement:
the bytes are the shortest that spell the integer, except for these numbers, where one sign byte
stands in front of the shortest; either way they are read back as the integer. -/

namespace EventEnvelope

namespace Bytes

/-- So many bytes can spell the number together with its sign. -/
def HasRoom (width : Nat) (n : Int) : Prop :=
  -(capacity width : Int) ≤ 2 * n ∧ 2 * n < capacity width

/-- The bytes spell the number, and all others that do are longer. -/
structure IsShortest (bs : Bytes) (n : Int) : Prop where
  spells : bs.toInt = n
  others : ∀ cs : Bytes, cs.toInt = n → cs ≠ bs → bs.length < cs.length

theorem capacity_le {v w : Nat} (h : v ≤ w) : capacity v ≤ capacity w :=
  Nat.pow_le_pow_right (by decide) h

theorem hasRoom_toInt (bs : Bytes) : HasRoom bs.length bs.toInt := by
  have := toNat_lt bs
  unfold HasRoom toInt
  split <;> omega

theorem HasRoom.mono {v w : Nat} {n : Int} (h : HasRoom v n) (le : v ≤ w) : HasRoom w n := by
  obtain ⟨low, high⟩ := h
  have := capacity_le le
  exact ⟨by omega, by omega⟩

theorem eq_of_toNat {bs cs : Bytes} (length : bs.length = cs.length) (h : bs.toNat = cs.toNat) :
    bs = cs := by
  induction bs generalizing cs with
  | nil => exact (List.length_eq_zero_iff.mp length.symm).symm
  | cons b r ih =>
    cases cs with
    | nil => contradiction
    | cons c s =>
      have length : r.length = s.length := Nat.succ.inj length
      have hr := toNat_lt r
      have hs := toNat_lt s
      have positive : 0 < capacity s.length := Nat.pow_pos (by decide)
      rw [toNat, toNat, length, Nat.mul_comm, Nat.mul_comm c.toNat] at h
      rw [length] at hr
      -- the first byte is the quotient by the weight of the others, and they are the remainder
      have rest := congrArg (· % capacity s.length) h
      have first := congrArg (· / capacity s.length) h
      simp only [Nat.mul_add_mod, Nat.mod_eq_of_lt hr, Nat.mod_eq_of_lt hs] at rest
      simp only [Nat.mul_add_div positive, Nat.div_eq_of_lt hr, Nat.div_eq_of_lt hs,
        Nat.add_zero] at first
      rw [UInt8.toNat_inj.mp first, ih length rest]

theorem eq_of_toInt {bs cs : Bytes} (length : bs.length = cs.length) (h : bs.toInt = cs.toInt) :
    bs = cs := by
  have hb := toNat_lt bs
  have hc := toNat_lt cs
  refine eq_of_toNat length ?_
  unfold toInt at h
  rw [length] at hb h
  split at h <;> split at h <;> omega

@[simp] theorem length_ofInt (width : Nat) (n : Int) : (ofInt width n).length = width :=
  length_ofNat width _

theorem HasRoom.spells {w : Nat} {n : Int} (room : HasRoom w n) : (ofInt w n).toInt = n :=
  toInt_ofInt room.1 room.2

/-- Spelled with room, a number is spelled the shortest way unless one byte less has room too. -/
theorem isShortest_ofInt_iff {w : Nat} {n : Int} (room : HasRoom (w + 1) n) :
    (ofInt (w + 1) n).IsShortest n ↔ ¬ HasRoom w n := by
  constructor
  · intro shortest narrow
    have shorter : ofInt w n ≠ ofInt (w + 1) n := by
      intro same
      have := congrArg List.length same
      simp at this
    have := shortest.others _ narrow.spells shorter
    simp only [length_ofInt] at this
    omega
  · intro full
    refine ⟨room.spells, fun cs same other => ?_⟩
    have enough : HasRoom cs.length n := same ▸ hasRoom_toInt cs
    have wide : w < cs.length := Nat.lt_of_not_le fun narrow => full (enough.mono narrow)
    have differ : cs.length ≠ w + 1 := by
      intro equal
      exact other (eq_of_toInt (by simp [equal]) (same.trans room.spells.symm))
    rw [length_ofInt]
    omega

theorem toInt_sign_cons {bs : Bytes} (negative : bs.toInt < 0) : toInt (0xff :: bs) = bs.toInt := by
  have bound := toNat_lt bs
  have value : toNat (0xff :: bs) = 0xff * capacity bs.length + bs.toNat := rfl
  unfold toInt at negative ⊢
  rw [value, List.length_cons, capacity_succ]
  split at negative
  · omega
  · rw [if_neg (by omega), if_neg (by assumption)]
    omega

theorem HasRoom.ofInt_succ {w : Nat} {n : Int} (room : HasRoom w n) (negative : n < 0) :
    ofInt (w + 1) n = 0xff :: ofInt w n := by
  refine eq_of_toInt (by simp) ?_
  rw [toInt_sign_cons (room.spells.symm ▸ negative), room.spells]
  exact (room.mono (Nat.le_succ w)).spells

theorem hasRoom_signedWidth (n : Int) : HasRoom (signedWidth n) n := by
  have := two_mul_natAbs_lt n
  exact ⟨by omega, by omega⟩

/-- The digits of a number fill all the bytes of its width but one. -/
theorem exists_signedWidth {n : Int} (nonzero : n ≠ 0) :
    ∃ w, signedWidth n = w + 1 ∧ capacity w ≤ 2 * n.natAbs := by
  have magnitude : n.natAbs ≠ 0 := Int.natAbs_ne_zero.mpr nonzero
  have digits : bitLength n.natAbs = n.natAbs.log2 + 1 := if_neg magnitude
  refine ⟨bitLength n.natAbs / 8, ?_, ?_⟩
  · unfold signedWidth
    omega
  · calc capacity (bitLength n.natAbs / 8)
        = Nat.pow 2 (8 * (bitLength n.natAbs / 8)) := capacity_eq_pow _
      _ ≤ Nat.pow 2 (n.natAbs.log2 + 1) := Nat.pow_le_pow_right (by decide) (by omega)
      _ = 2 * Nat.pow 2 n.natAbs.log2 := Nat.mul_comm _ _
      _ ≤ 2 * n.natAbs := Nat.mul_le_mul_left 2 (Nat.log2_self_le magnitude)

theorem capacity_succ_eq (k : Nat) : (capacity (k + 1) : Int) = 2 * 2 ^ (8 * k + 7) := by
  rw [capacity_eq_pow]
  change ((2 ^ (8 * k + 7 + 1) : Nat) : Int) = _
  rw [Nat.pow_succ, Nat.mul_comm]
  push_cast
  rfl

/-- The least number that `k + 1` bytes can spell is given a byte more. -/
theorem signedWidth_least (k : Nat) : signedWidth (-2 ^ (8 * k + 7)) = k + 2 := by
  have magnitude : (-2 ^ (8 * k + 7) : Int).natAbs = 2 ^ (8 * k + 7) := by
    rw [Int.natAbs_neg, Int.natAbs_pow]
    rfl
  have nonzero : 2 ^ (8 * k + 7) ≠ 0 := Nat.ne_of_gt (Nat.two_pow_pos _)
  rw [signedWidth, magnitude, bitLength, if_neg nonzero, Nat.log2_two_pow]
  omega

theorem hasRoom_least (k : Nat) : HasRoom (k + 1) (-2 ^ (8 * k + 7)) := by
  have positive : (0 : Int) < 2 ^ (8 * k + 7) := Int.pow_pos (by decide)
  rw [HasRoom, capacity_succ_eq]
  exact ⟨by omega, by omega⟩

theorem isShortest_signedWidth_iff {n : Int} (nonzero : n ≠ 0) :
    (ofInt (signedWidth n) n).IsShortest n ↔ ∀ k : Nat, n ≠ -2 ^ (8 * k + 7) := by
  obtain ⟨w, width, digits⟩ := exists_signedWidth nonzero
  have room := hasRoom_signedWidth n
  rw [width] at room ⊢
  rw [isShortest_ofInt_iff room]
  constructor
  · rintro full k rfl
    rw [signedWidth_least] at width
    exact full (Nat.succ.inj width ▸ hasRoom_least k)
  · rintro apart ⟨low, high⟩
    -- the digits fill the narrower width, and only its least number has room there all the same
    have least : 2 * n = -(capacity w : Int) := by omega
    cases w with
    | zero =>
      have : capacity 0 = 1 := rfl
      omega
    | succ k =>
      rw [capacity_succ_eq] at least
      exact apart k (by omega)

theorem isShortest_least (k : Nat) :
    (ofInt (k + 1) (-2 ^ (8 * k + 7))).IsShortest (-2 ^ (8 * k + 7)) := by
  rw [isShortest_ofInt_iff (hasRoom_least k)]
  rintro ⟨low, -⟩
  have power := capacity_succ_eq k
  have positive : 0 < capacity k := Nat.pow_pos (by decide)
  rw [capacity_succ] at power
  omega

end Bytes

namespace Wire

theorem ofExt_integer (bs : Bytes) : ofExt integerCode bs = .ok (.number bs.toInt) := rfl

/-- An integer beyond 64 bits is carried as an extension and read back as itself. Its bytes are the
shortest that spell it, except for the least number of a width: there one sign byte stands in front
of the shortest. -/
theorem ofDatum_beyond (n : Int) (beyond : n < -2 ^ 63 ∨ 2 ^ 64 - 1 < n) :
    ∃ bs : Bytes, ofDatum (.number n) = .ok (.ext integerCode bs) ∧
      ofExt integerCode bs = .ok (.number n) ∧
      (bs.IsShortest n ↔ ∀ k : Nat, n ≠ -2 ^ (8 * k + 7)) ∧
      ∀ k : Nat, n = -2 ^ (8 * k + 7) → ∃ cs : Bytes, cs.IsShortest n ∧ bs = 0xff :: cs := by
  have foreign : isNative n = false := by
    simp only [isNative, Bool.and_eq_false_iff, decide_eq_false_iff_not]
    omega
  refine ⟨Bytes.ofInt (Bytes.signedWidth n) n, ?_, ?_, ?_, ?_⟩
  · rw [ofDatum, ofInt, foreign]
    rfl
  · rw [ofExt_integer, Bytes.toInt_signedWidth]
  · exact Bytes.isShortest_signedWidth_iff (by omega)
  · rintro k rfl
    have negative : (-2 ^ (8 * k + 7) : Int) < 0 := Int.neg_neg_of_pos (Int.pow_pos (by decide))
    refine ⟨_, Bytes.isShortest_least k, ?_⟩
    rw [Bytes.signedWidth_least]
    exact (Bytes.hasRoom_least k).ofInt_succ negative

/-- The first integer above the words, and the least that a signed word of 128 bits holds. -/
theorem ofDatum_beyond_edges :
    (2 ^ 64 - 1 < (2 ^ 64 : Int) ∧ ∃ bs : Bytes,
      ofDatum (.number (2 ^ 64)) = .ok (.ext integerCode bs) ∧ bs.IsShortest (2 ^ 64)) ∧
    (-2 ^ 127 < (-2 ^ 63 : Int) ∧ ∃ cs : Bytes, cs.IsShortest (-2 ^ 127) ∧
      ofDatum (.number (-2 ^ 127)) = .ok (.ext integerCode (0xff :: cs))) := by
  have above : 2 ^ 64 - 1 < (2 ^ 64 : Int) := by decide
  have below : -2 ^ 127 < (-2 ^ 63 : Int) := by decide
  obtain ⟨bs, written, -, shortest, -⟩ := ofDatum_beyond (2 ^ 64) (.inr above)
  obtain ⟨bs', written', -, -, longer⟩ := ofDatum_beyond (-2 ^ 127) (.inl below)
  obtain ⟨cs, shortest', rfl⟩ := longer 15 rfl
  have positive (k : Nat) : (0 : Int) < 2 ^ (8 * k + 7) := Int.pow_pos (by decide)
  have apart (k : Nat) : (2 ^ 64 : Int) ≠ -2 ^ (8 * k + 7) := by
    have := positive k
    omega
  exact ⟨⟨above, bs, written, shortest.mpr apart⟩, below, cs, shortest', written'⟩

/-- The least integer of a signed word of 128 bits is given seventeen bytes, though sixteen spell
it. -/
theorem ofDatum_least_padded :
    let bs : Bytes := 0xff :: 0x80 :: List.replicate 15 0
    ofDatum (.number (-2 ^ 127)) = .ok (.ext integerCode bs) ∧ ¬ bs.IsShortest (-2 ^ 127) := by
  intro bs
  have sixteen : Bytes.toInt (0x80 :: List.replicate 15 0) = -2 ^ 127 := by decide
  refine ⟨rfl, fun shortest => ?_⟩
  have longer : 17 < 16 := shortest.others _ sixteen (by decide)
  contradiction

end Wire

end EventEnvelope
