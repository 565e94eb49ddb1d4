import EventEnvelope.Proofs.Wire.Head

/-! Where a value ends in a message. A reader takes no notice of what stands behind the bytes it
needs, and says of a message that ends too early that it is malformed. Main statement: of the bytes
that hold a value, no shorter front and no extension holds any. -/

namespace EventEnvelope.Wire

variable {α β : Type}

/-- What `x` makes of a message, `y` makes of the message with more behind it, and leaves the rest
alone. Only a message that `x` finds malformed may have ended too early. -/
def Read.Continues (x y : Read α) : Prop :=
  ∀ bs more, x bs = .error .malformed ∨ y (bs ++ more) = (x bs).map fun r => (r.1, r.2 ++ more)

namespace Read

theorem continues_pure (a : α) : Continues (pure a) (pure a) := fun _ _ => .inr rfl

theorem continues_refuse (fault : DecodeFault) :
    Continues (refuse fault : Read α) (refuse fault) := fun _ _ => .inr rfl

theorem Continues.bind {x y : Read α} {f g : α → Read β} (first : x.Continues y)
    (rest : ∀ a, (f a).Continues (g a)) : Continues (x >>= f) (y >>= g) := by
  intro bs more
  rcases first bs more with early | same
  · exact .inl (bind_error early)
  · cases read : x bs with
    | error fault =>
      rw [read] at same
      exact .inr (by rw [bind_error read, bind_error same]; rfl)
    | ok r =>
      rw [read] at same
      rw [bind_ok read, bind_ok same]
      exact rest r.1 r.2 more

end Read

theorem take_continues (n : Nat) : (take n).Continues (take n) := by
  intro bs more
  by_cases long : n ≤ bs.length
  · have front : bs.take n ++ bs.drop n = bs := List.take_append_drop n bs
    have length : (bs.take n).length = n := by simp [long]
    have read := take_append length (bs.drop n)
    have read' := take_append length (bs.drop n ++ more)
    rw [← List.append_assoc, front] at read'
    rw [front] at read
    exact .inr (by rw [read, read']; rfl)
  · have short : ¬(bs.take n).length = n := by
      rw [List.length_take]
      omega
    exact .inl (by simp only [take, List.splitAt_eq, if_neg short])

theorem natural_continues (width : Nat) : (natural width).Continues (natural width) :=
  (take_continues width).bind fun _ => Read.continues_pure _

theorem signed_continues (width : Nat) : (signed width).Continues (signed width) :=
  (take_continues width).bind fun _ => Read.continues_pure _

theorem textBody_continues (length : Nat) : (textBody length).Continues (textBody length) := by
  refine (take_continues length).bind fun bs => ?_
  cases Utf8.decode? bs with
  | some s => exact Read.continues_pure _
  | none => exact Read.continues_refuse _

theorem bytesBody_continues (length : Nat) : (bytesBody length).Continues (bytesBody length) :=
  (take_continues length).bind fun _ => Read.continues_pure _

theorem extBody_continues (length : Nat) : (extBody length).Continues (extBody length) := by
  refine (signed_continues 1).bind fun code => (take_continues length).bind fun body => ?_
  cases extValue code body with
  | ok d => exact Read.continues_pure _
  | error fault => exact Read.continues_refuse _

theorem sized_continues {body : Nat → Read Head} (h : ∀ n, (body n).Continues (body n))
    (width : Nat) : (sized body width).Continues (sized body width) :=
  (natural_continues width).bind h

theorem counted_continues (announced : Nat → Head) (width : Nat) :
    (counted announced width).Continues (counted announced width) :=
  (natural_continues width).bind fun _ => Read.continues_pure _

theorem numberHead_continues (width : Nat) :
    (unsignedHead width).Continues (unsignedHead width) ∧
      (signedHead width).Continues (signedHead width) :=
  ⟨(natural_continues width).bind fun _ => Read.continues_pure _,
    (signed_continues width).bind fun _ => Read.continues_pure _⟩

theorem real_continues : single.Continues single ∧ double.Continues double :=
  ⟨(natural_continues 4).bind fun _ => Read.continues_pure _,
    (natural_continues 8).bind fun _ => Read.continues_pure _⟩

theorem headOf_continues (tag : Nat) : (headOf tag).Continues (headOf tag) := by
  unfold headOf
  repeat' split
  -- one goal for each tag, told apart by the reader that the tag calls
  all_goals with_reducible first
    | exact Read.continues_pure _
    | exact textBody_continues _
    | exact extBody_continues _
    | exact sized_continues textBody_continues _
    | exact sized_continues bytesBody_continues _
    | exact sized_continues extBody_continues _
    | exact counted_continues _ _
    | exact (numberHead_continues _).1
    | exact (numberHead_continues _).2
    | exact real_continues.1
    | exact real_continues.2
    | exact Read.continues_refuse _

theorem head_continues : head.Continues head :=
  (natural_continues 1).bind headOf_continues

section Parts

variable {value value' : Read Datum}

theorem readAll_continues (h : value.Continues value') (n : Nat) :
    (readAll value n).Continues (readAll value' n) := by
  induction n with
  | zero => exact Read.continues_pure _
  | succ n ih => exact h.bind fun d => ih.bind fun ds => Read.continues_pure _

theorem readEntries_continues (h : value.Continues value') (n : Nat) :
    (readEntries value n).Continues (readEntries value' n) := by
  induction n with
  | zero => exact Read.continues_pure _
  | succ n ih =>
    refine h.bind fun k => h.bind fun v => ?_
    by_cases readable : isReadableKey k = true
    · simp only [if_pos readable]
      exact ih.bind fun es => Read.continues_pure _
    · simp only [if_neg readable]
      exact Read.continues_refuse _

end Parts

/-- A longer message allows larger counts, and no other byte is judged by its length. -/
theorem read_continues {total total' : Nat} (longer : total ≤ total') (levels : Nat) :
    (read total levels).Continues (read total' levels) := by
  induction levels with
  | zero =>
    refine head_continues.bind fun h => ?_
    cases h with
    | whole d => exact Read.continues_pure _
    | array count => exact Read.continues_refuse _
    | map count => exact Read.continues_refuse _
  | succ inner ih =>
    refine head_continues.bind fun h => ?_
    cases h with
    | whole d => exact Read.continues_pure _
    | array count =>
      by_cases large : total < count
      · exact fun bs more => .inl (by simp only [if_pos large]; rfl)
      · have fits : ¬total' < count := by omega
        simp only [if_neg large, if_neg fits]
        exact (readAll_continues ih count).bind fun ds => Read.continues_pure _
    | map count =>
      by_cases large : total / 2 < count
      · exact fun bs more => .inl (by simp only [if_pos large]; rfl)
      · have fits : ¬total' / 2 < count := by omega
        simp only [if_neg large, if_neg fits]
        exact (readEntries_continues ih count).bind fun es => Read.continues_pure _

theorem read_of_decode {bs : Bytes} {d : Datum} (h : decode bs = .ok d) :
    read bs.length readerLevels bs = .ok (d, []) := by
  unfold decode at h
  split at h
  · contradiction
  · next d' read =>
    cases h
    exact read
  · contradiction

/-- A message that holds a value holds none once bytes are missing at its end. -/
theorem decode_front {front rest : Bytes} {d : Datum} (h : decode (front ++ rest) = .ok d)
    (cut : rest ≠ []) : decode front = .error .malformed := by
  have whole := read_of_decode h
  have longer : front.length ≤ (front ++ rest).length := by simp
  rcases read_continues longer readerLevels front rest with early | same
  · simp only [decode, early]
  · rw [whole] at same
    cases read : read front.length readerLevels front with
    | error fault =>
      rw [read] at same
      cases same
    | ok r =>
      -- what the whole message leaves over would have to be nothing and yet end in the rest
      rw [read] at same
      have left : r.2 ++ rest = [] := by
        injection same with same
        exact (congrArg Prod.snd same).symm
      exact absurd (List.append_eq_nil_iff.mp left).2 cut

/-- Nothing may stand behind the value of a message. -/
theorem decode_extended {bs more : Bytes} {d : Datum} (h : decode bs = .ok d)
    (added : more ≠ []) : decode (bs ++ more) = .error .trailingBytes := by
  have whole := read_of_decode h
  have longer : bs.length ≤ (bs ++ more).length := by simp
  rcases read_continues longer readerLevels bs more with early | same
  · rw [whole] at early
    cases early
  · rw [whole] at same
    obtain ⟨b, bs', rfl⟩ := List.exists_cons_of_ne_nil added
    simp only [decode, same]
    rfl

end EventEnvelope.Wire
