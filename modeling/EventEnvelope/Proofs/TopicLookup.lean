import EventEnvelope.Proofs.Rebuilding
import EventEnvelope.Proofs.TypedEnvelope

/-! Looking up a topic by a text. The upper-case form that decides about names is the one of all
scripts, so ten letters outside ASCII stand for ASCII letters. Main statement: a text is looked up
as a topic exactly when it is the identifier, or the semantic name in any case of the ASCII letters
once those ten are spelled out; every other value is an unknown topic, and no text has two topics.
-/

namespace EventEnvelope

namespace Text

/-- The letters outside ASCII that have an ASCII upper-case form, each with ASCII letters of the
same upper-case form. -/
def foreignLetters : List (Char × List Char) :=
  [('ß', ['s', 's']), ('ı', ['i']), ('ſ', ['s']), ('ﬀ', ['f', 'f']), ('ﬁ', ['f', 'i']),
    ('ﬂ', ['f', 'l']), ('ﬃ', ['f', 'f', 'i']), ('ﬄ', ['f', 'f', 'l']), ('ﬅ', ['s', 't']),
    ('ﬆ', ['s', 't'])]

def spelled (c : Char) : List Char := (foreignLetters.lookup c).getD [c]

/-- The characters of a text, the foreign letters spelled out. -/
def spelledOut (s : String) : List Char := s.toList.flatMap spelled

/-- The text has none of the ten foreign letters. -/
def IsNative (s : String) : Prop := ∀ c ∈ s.toList, foreignLetters.lookup c = none

theorem spelled_of_lookup {c : Char} (native : foreignLetters.lookup c = none) :
    spelled c = [c] := by
  rw [spelled, native, Option.getD_none]

theorem spelledOut_of_isNative {s : String} (h : IsNative s) : spelledOut s = s.toList := by
  rw [spelledOut, List.flatMap_congr fun c hc => spelled_of_lookup (h c hc),
    List.flatMap_singleton']

theorem lookup_of_isAscii {c : Char} (h : c.toNat < 128) : foreignLetters.lookup c = none := by
  have apart : ∀ e ∈ foreignLetters, ¬ e.1.toNat < 128 := by decide
  rw [List.lookup_eq_none_iff]
  intro e he
  rw [bne_iff_ne]
  rintro rfl
  exact apart e he h

theorem isNative_of_isAscii {s : String} (h : s.toList.all (·.toNat < 128) = true) : IsNative s :=
  fun c hc => lookup_of_isAscii (of_decide_eq_true (List.all_eq_true.mp h c hc))

theorem asciiUpper?_of_lookup {c : Char} (outside : ¬ c.toNat < 128)
    (native : foreignLetters.lookup c = none) : asciiUpper? c = none := by
  have apart : ∀ e ∈ foreignLetters, c.toNat ≠ e.1.toNat := by
    intro e he same
    have other := List.lookup_eq_none_iff.mp native e he
    exact bne_iff_ne.mp other (Char.toNat_inj.mp same)
  simp only [foreignLetters, List.forall_mem_cons] at apart
  rw [asciiUpper?, if_neg outside]
  split <;> simp_all

theorem asciiUpper?_of_foreign {c : Char} {cs : List Char}
    (foreign : foreignLetters.lookup c = some cs) : asciiUpper? c = some (cs.map Char.toUpper) := by
  have table : ∀ e ∈ foreignLetters, asciiUpper? e.1 = some (e.2.map Char.toUpper) := by decide
  obtain ⟨before, after, parts, -⟩ := List.lookup_eq_some_iff.mp foreign
  exact table (c, cs) (parts ▸ by simp)

/-- A character has an upper-case form in ASCII exactly when its spelling is in ASCII. -/
theorem asciiUpper?_eq_some_iff {c : Char} {us : List Char} (ascii : ∀ u ∈ us, u.toNat < 128) :
    asciiUpper? c = some us ↔ (spelled c).map Char.toUpper = us := by
  cases foreign : foreignLetters.lookup c with
  | some cs =>
    rw [asciiUpper?_of_foreign foreign, spelled, foreign, Option.getD_some, Option.some_inj]
  | none =>
    rw [spelled_of_lookup foreign]
    by_cases inside : c.toNat < 128
    · rw [asciiUpper?, if_pos inside, Option.some_inj, List.map_singleton]
    -- The character stands for itself, and its own upper case is not in ASCII.
    · rw [asciiUpper?_of_lookup inside foreign]
      constructor
      · rintro ⟨⟩
      · rintro rfl
        exact absurd (isAscii_of_toUpper (ascii _ List.mem_cons_self)) inside

theorem upper?_cons_eq_some_iff {c : Char} {cs us : List Char} :
    upper? (c :: cs) = some us ↔
      ∃ us₁ us₂, asciiUpper? c = some us₁ ∧ upper? cs = some us₂ ∧ us₁ ++ us₂ = us := by
  simp [upper?, Option.bind_eq_some_iff]

theorem upper?_eq_some_iff {cs us : List Char} (ascii : ∀ u ∈ us, u.toNat < 128) :
    upper? cs = some us ↔ (cs.flatMap spelled).map Char.toUpper = us := by
  induction cs generalizing us with
  | nil => exact Option.some_inj
  | cons c cs ih =>
    rw [upper?_cons_eq_some_iff, List.flatMap_cons, List.map_append]
    constructor
    · rintro ⟨us₁, us₂, first, rest, rfl⟩
      rw [List.forall_mem_append] at ascii
      rw [(asciiUpper?_eq_some_iff ascii.1).mp first, (ih ascii.2).mp rest]
    · rintro rfl
      rw [List.forall_mem_append] at ascii
      exact ⟨_, _, (asciiUpper?_eq_some_iff ascii.1).mpr rfl, (ih ascii.2).mpr rfl, rfl⟩

end Text

namespace Topic

/-- What a value is looked up by: the identifier, or the semantic name in any case of the ASCII
letters, where foreign letters stand for what they are spelled out to. -/
inductive AnswersTo (t : Topic) : Datum → Prop
  | identifier {d : Datum} (text : d.proper? = some t.id) : t.AnswersTo d
  | name {d : Datum} {s : String} (text : d.proper? = some s)
      (upper : (Text.spelledOut s).map Char.toUpper = t.name.toList) : t.AnswersTo d

theorem isAscii_id (t : Topic) : t.id.toList.all (·.toNat < 128) = true := by
  cases t <;> decide +kernel

theorem ofName?_eq_some_iff {s : String} {t : Topic} : ofName? s = some t ↔ s = t.name := by
  constructor
  · intro found
    have named := List.find?_some found
    exact (eq_of_beq named).symm
  · rintro rfl
    exact t.ofName?_name

theorem ofId?_eq_some_iff {s : String} {t : Topic} : ofId? s = some t ↔ s = t.id := by
  constructor
  · intro found
    have identified := List.find?_some found
    exact (eq_of_beq identified).symm
  · rintro rfl
    exact t.ofId?_id

/-- The second reading: what the registry says about a text as a name. -/
theorem upper?_bind_ofName?_eq_some_iff {s : String} {t : Topic} :
    ((Text.upper? s.toList).bind fun cs => ofName? (String.ofList cs)) = some t ↔
      (Text.spelledOut s).map Char.toUpper = t.name.toList := by
  have ascii : ∀ u ∈ t.name.toList, u.toNat < 128 := by simpa using t.isAscii_name
  rw [Option.bind_eq_some_iff, Text.spelledOut, ← Text.upper?_eq_some_iff ascii]
  constructor
  · rintro ⟨us, upper, found⟩
    rw [upper, ← ofName?_eq_some_iff.mp found, String.toList_ofList]
  · intro upper
    exact ⟨_, upper, by rw [String.ofList_toList, t.ofName?_name]⟩

theorem eq_of_upper_spelledOut {s : String} {t t' : Topic} (identifier : s = t.id)
    (name : (Text.spelledOut s).map Char.toUpper = t'.name.toList) : t = t' := by
  subst identifier
  rw [Text.spelledOut_of_isNative (Text.isNative_of_isAscii t.isAscii_id)] at name
  exact eq_of_upper_id t' t name

theorem resolve?_eq_some_iff {s : String} {t : Topic} :
    resolve? s = some t ↔ s = t.id ∨ (Text.spelledOut s).map Char.toUpper = t.name.toList := by
  rw [resolve?]
  cases found : ofId? s with
  | some t' =>
    have identifier := ofId?_eq_some_iff.mp found
    have same : t' = t ↔ s = t.id := by rw [identifier, id_inj]
    rw [Option.some_inj, same, or_iff_left_of_imp]
    intro name
    rw [← same]
    exact eq_of_upper_spelledOut identifier name
  | none =>
    have unidentified : s ≠ t.id := by
      intro identifier
      cases found.symm.trans (ofId?_eq_some_iff.mpr identifier)
    rw [upper?_bind_ofName?_eq_some_iff, or_iff_right unidentified]

theorem answersTo_iff_topic? {t : Topic} {d : Datum} : t.AnswersTo d ↔ d.topic? = some t := by
  rw [Datum.topic?, Option.bind_eq_some_iff]
  constructor
  · rintro (text | ⟨text, upper⟩)
    · exact ⟨_, text, resolve?_eq_some_iff.mpr (.inl rfl)⟩
    · exact ⟨_, text, resolve?_eq_some_iff.mpr (.inr upper)⟩
  · rintro ⟨s, text, found⟩
    obtain rfl | upper := resolve?_eq_some_iff.mp found
    · exact .identifier text
    · exact .name text upper

theorem answersTo_iff_names {t : Topic} {d : Datum}
    (native : ∀ s, d.proper? = some s → Text.IsNative s) : t.AnswersTo d ↔ t.Names d := by
  constructor
  · rintro (text | ⟨text, upper⟩)
    · exact .identifier text
    · exact .name text (Text.spelledOut_of_isNative (native _ text) ▸ upper)
  · rintro (text | ⟨text, upper⟩)
    · exact .identifier text
    · exact .name text (Text.spelledOut_of_isNative (native _ text) ▸ upper)

end Topic

theorem Build.topic_eq_ok_iff {d : Datum} {s : Surroundings} {t : Topic} :
    Build.topic d s = (.ok t, s) ↔ d.topic? = some t := by
  rw [Build.topic_eq]
  cases d.topic? with
  | none => exact iff_of_false (fun h => nomatch congrArg Prod.fst h) nofun
  | some found =>
    have same : ((.ok found, s) : Except Failure Topic × Surroundings) = (.ok t, s) ↔ found = t :=
      ⟨fun h => Except.ok.inj (congrArg Prod.fst h), fun h => h ▸ rfl⟩
    exact same.trans Option.some_inj.symm

/-- Looking a value up gives the topic that answers to it. Without foreign letters that is the one
with this identifier, or with this name in any case of the ASCII letters. All else is an unknown
topic, and no value has two topics. -/
theorem Build.topic_eq_ok_iff_answersTo (d : Datum) (s : Surroundings) :
    (∀ t : Topic, Build.topic d s = (.ok t, s) ↔ t.AnswersTo d) ∧
    ((∀ text, d.proper? = some text → Text.IsNative text) →
      ∀ t : Topic, Build.topic d s = (.ok t, s) ↔ t.Names d) ∧
    ((∀ t : Topic, ¬ t.AnswersTo d) → Build.topic d s = (.error (.unknownTopic d), s)) ∧
    ∀ t t' : Topic, t.AnswersTo d → t'.AnswersTo d → t = t' := by
  have settled (t : Topic) : Build.topic d s = (.ok t, s) ↔ t.AnswersTo d := by
    rw [Topic.answersTo_iff_topic?, Build.topic_eq_ok_iff]
  refine ⟨settled, ?_, ?_, ?_⟩
  · intro native t
    rw [settled, Topic.answersTo_iff_names native]
  · intro unanswered
    have unknown : d.topic? = none := by
      rw [Option.eq_none_iff_forall_ne_some]
      exact fun t found => unanswered t (Topic.answersTo_iff_topic?.mpr found)
    rw [Build.topic_eq, unknown]
    rfl
  · intro t t' h h'
    rw [Topic.answersTo_iff_topic?] at h h'
    exact Option.some.inj (h.symm.trans h')

/-- A semantic name is found in mixed case, an identifier only as it is written. -/
theorem Build.topic_in_mixed_case :
    Build.topic (.plain "Trade_Executed") .ledger = (.ok .tradeExecuted, .ledger) ∧
    Build.topic (.plain "UNPAUSE") .ledger
      = (.error (.unknownTopic (.plain "UNPAUSE")), .ledger) := by
  constructor
  · refine ((topic_eq_ok_iff_answersTo _ _).2.1 ?_ _).mpr (.name rfl (by decide))
    rintro _ ⟨⟩
    exact Text.isNative_of_isAscii (by decide)
  · refine (topic_eq_ok_iff_answersTo _ _).2.2.1 ?_
    rintro t (text | ⟨⟨⟩, upper⟩)
    · revert text
      cases t <;> decide
    · revert upper
      cases t <;> decide

/-- The dotless letter stands for the dotted one in a name. -/
theorem Build.topic_dotless :
    Build.topic (.plain "mınt") .ledger = (.ok .mint, .ledger) ∧
    ¬ Topic.mint.Names (.plain "mınt") := by
  constructor
  · rw [topic_eq_ok_iff, ← Topic.answersTo_iff_topic?]
    exact .name rfl (by decide)
  · rintro (text | ⟨⟨⟩, upper⟩)
    · revert text
      decide
    · revert upper
      decide

end EventEnvelope
