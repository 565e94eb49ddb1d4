import EventEnvelope.Proofs.Effects

/-! Which arguments a parameter takes. A computation settles a condition when it returns exactly if
the condition holds and fails with what becomes an encoding fault otherwise. Main statement: making
an argument typed settles whether the argument is of the kind that its parameter asks for. -/

namespace EventEnvelope

/-- A letter or a digit of ASCII, or the underscore. -/
def CodePoint.IsSymbolic : CodePoint → Prop
  | char c => c.isAlphanum = true ∨ c = '_'
  | surrogate _ => False

instance : (p : CodePoint) → Decidable p.IsSymbolic
  | .char c => inferInstanceAs (Decidable (c.isAlphanum = true ∨ c = '_'))
  | .surrogate _ => inferInstanceAs (Decidable False)

namespace Datum

/-- An address, or another text that is neither empty nor a symbol. -/
def IsIdentity : Datum → Prop
  | text (.address _) => True
  | text (.symbol _) => False
  | text t => t.content ≠ ""
  | _ => False

/-- An integer that fits a signed or an unsigned word of 128 bits. -/
def IsAmount : Datum → Prop
  | number n => -0x80000000000000000000000000000000 ≤ n ∧ n < 0x100000000000000000000000000000000
  | _ => False

def IsFlag : Datum → Prop
  | flag _ => True
  | _ => False

/-- A symbol, or another text that can become one under the limit. -/
def IsWord (limit? : Option Nat) : Datum → Prop
  | text (.symbol _) => True
  | text t => t.content ≠ "" ∧ (∃ limit, limit? = some limit ∧ t.content.length ≤ limit) ∧
      ∀ p ∈ t.content.points, p.IsSymbolic
  | _ => False

end Datum

/-- What a parameter takes, by the kind of its values. -/
def Field.Takes (limit? : Option Nat) (f : Field) (d : Datum) : Prop :=
  match f.role with
  | .identity => d.IsIdentity
  | .number => d.IsAmount
  | .flag => d.IsFlag
  | .text => d.IsWord limit?

namespace Surroundings

/-- The length limit of symbols, if the settings can be read. -/
def symbolLimit? (s : Surroundings) : Option Nat :=
  match s.config.settings.1 with
  | .ok r => some r.symbolMaxLength
  | .error _ => none

/-- Nothing that decides about arguments has changed from one state to the other. -/
structure Undisturbed (s s' : Surroundings) : Prop where
  identity : s'.identity = s.identity
  version : s'.version = s.version
  symbolLimit : s'.symbolLimit? = s.symbolLimit?
  reading : s'.clock s'.ticks = s.clock s.ticks

namespace Undisturbed

theorem refl (s : Surroundings) : s.Undisturbed s := ⟨rfl, rfl, rfl, rfl⟩

theorem trans {s s' s'' : Surroundings} (h : s.Undisturbed s') (h' : s'.Undisturbed s'') :
    s.Undisturbed s'' :=
  ⟨h'.identity.trans h.identity, h'.version.trans h.version, h'.symbolLimit.trans h.symbolLimit,
    h'.reading.trans h.reading⟩

end Undisturbed

end Surroundings

namespace Build

variable {α β : Type}

/-- The computation returns exactly when the condition holds, and then as promised; else it fails
with what is passed on as an encoding fault. -/
inductive Settles (x : Build α) (s : Surroundings) (condition : Prop)
    (promised : α → Surroundings → Prop) : Prop
  | returned {a : α} {s' : Surroundings} (run : x s = (.ok a, s')) (holds : condition)
      (kept : promised a s')
  | refused {e : Failure} {s' : Surroundings} (run : x s = (.error e, s')) (fails : ¬condition)
      (encodable : ∀ topic, ∃ fault, e.asEncoding topic = .encoding fault)

namespace Settles

variable {x : Build α} {f : α → Build β} {s : Surroundings} {P Q : Prop}
  {promised : α → Surroundings → Prop} {promised' : β → Surroundings → Prop}

theorem bind (first : x.Settles s P promised)
    (rest : ∀ a s', P → promised a s' → (f a).Settles s' Q promised') :
    Settles (x >>= f) s (P ∧ Q) promised' := by
  cases first with
  | @returned a s' run holds kept =>
    have step : (x >>= f) s = f a s' := by rw [bind_apply, run]
    cases rest a s' holds kept with
    | returned run' holds' kept' => exact .returned (step.trans run') ⟨holds, holds'⟩ kept'
    | refused run' fails encodable =>
      exact .refused (step.trans run') (fun h => fails h.2) encodable
  | refused run fails encodable =>
    have step := bind_apply x f s
    rw [run] at step
    exact .refused step (fun h => fails h.1) encodable

theorem congr (h : x.Settles s P promised) (same : P ↔ Q) : x.Settles s Q promised := by
  cases h with
  | returned run holds kept => exact .returned run (same.mp holds) kept
  | refused run fails encodable => exact .refused run (fun h => fails (same.mpr h)) encodable

theorem imp {weaker : α → Surroundings → Prop} (h : x.Settles s P promised)
    (more : ∀ a s', P → promised a s' → weaker a s') : x.Settles s P weaker := by
  cases h with
  | returned run holds kept => exact .returned run holds (more _ _ holds kept)
  | refused run fails encodable => exact .refused run fails encodable

end Settles

theorem settles_pure {promised : α → Surroundings → Prop} {s : Surroundings} {a : α}
    (kept : promised a s) : Settles (pure a) s True promised :=
  .returned rfl trivial kept

theorem settles_admitted (r : Except EncodingFault α) (s : Surroundings) :
    Settles (admitted r) s (∃ a, r = .ok a) fun a s' => r = .ok a ∧ s' = s := by
  cases r with
  | ok a => exact .returned rfl ⟨a, rfl⟩ ⟨rfl, rfl⟩
  | error fault => exact .refused rfl (by simp) fun _ => ⟨fault, rfl⟩

end Build

theorem Config.settings_fst (c : Config) : c.settings.2.settings.1 = c.settings.1 := by
  unfold settings
  cases cached : c.cached with
  | some r => simp [cached]
  | none => cases read : Settings.ofEnvironment c.environment <;> simp [cached, read]

namespace Text

theorem isSymbolText_iff (s : String) :
    isSymbolText s = true ↔ s ≠ "" ∧ ∀ c ∈ s.toList, c.isAlphanum = true ∨ c = '_' := by
  simp [isSymbolText, isSymbolChar]

theorem isSymbol_iff (s : CodeText) :
    isSymbol s = true ↔ s ≠ "" ∧ ∀ p ∈ s.points, p.IsSymbolic := by
  cases s with
  | proper s => simp [isSymbol, CodeText.proper?, CodeText.points, CodePoint.IsSymbolic,
      isSymbolText_iff]
  | broken s u rest =>
    refine iff_of_false Bool.false_ne_true fun h => ?_
    exact h.2 (.surrogate u) (List.mem_append_right _ List.mem_cons_self)

end Text

namespace Admission

/-- The checks look at the content of the text; what is interned is the text as it is shown. -/
theorem symbolOf_eq_ok_iff {limit : Int} {t : Text} {x : Symbol} :
    symbolOf limit t = .ok x ↔ x = ⟨t.shown⟩ ∧ t.content ≠ "" ∧ t.content.length ≤ limit ∧
      ∀ p ∈ t.content.points, p.IsSymbolic := by
  have spelled := Text.isSymbol_iff t.content
  simp only [symbolOf, CodeText.isEmpty_iff]
  split
  · next empty => simp [empty]
  · next nonempty =>
    split
    · next beyond =>
      have long : ¬t.content.length ≤ limit := by omega
      simp [long]
    · next short =>
      have within : t.content.length ≤ limit := by omega
      split
      · next known =>
        have same : x = ⟨t.shown⟩ ↔ Except.ok (ε := EncodingFault) ⟨t.shown⟩ = .ok x := by
          rw [Except.ok.injEq, eq_comm]
        exact same.symm.trans
          (and_iff_left ⟨nonempty, within, (spelled.mp known).2⟩).symm
      · next foreign =>
        constructor
        · intro h
          cases h
        · rintro ⟨_, _, _, symbolic⟩
          exact absurd (spelled.mpr ⟨nonempty, symbolic⟩) foreign

theorem symbolOf_ok_iff (limit : Nat) (t : Text) : (∃ x, symbolOf limit t = .ok x) ↔
    t.content ≠ "" ∧ t.content.length ≤ limit ∧ ∀ p ∈ t.content.points, p.IsSymbolic := by
  simp only [symbolOf_eq_ok_iff, exists_eq_left, Int.ofNat_le]

theorem symbolOf_eq_ok {limit : Int} {t : Text} {x : Symbol} (h : symbolOf limit t = .ok x) :
    x = ⟨t.shown⟩ :=
  (symbolOf_eq_ok_iff.mp h).1

theorem address_ok_iff (d : Datum) : (∃ a, address d = .ok a) ↔ d.IsIdentity := by
  cases d with
  | text t =>
    cases t with
    | address a => simp [address, Datum.IsIdentity]
    | symbol s => simp [address, Datum.IsIdentity]
    | _ =>
      simp only [address, Datum.IsIdentity, CodeText.isEmpty_iff]
      split <;> simp_all
  | _ => simp [address, Datum.IsIdentity]

theorem integer_ok_iff (d : Datum) : (∃ n, integer d = .ok n) ↔ d.IsAmount := by
  cases d with
  | number n =>
    have bounds : Value.inRange n = true ↔ (Datum.number n).IsAmount := by
      simp [Value.inRange, Datum.IsAmount]
    simp only [integer, ← bounds]
    split <;> simp_all
  | _ => simp [integer, Datum.IsAmount]

theorem flag_ok_iff (d : Datum) : (∃ b, flag d = .ok b) ↔ d.IsFlag := by
  cases d <;> simp [flag, Datum.IsFlag]

end Admission

namespace Value

def role : Value → Role
  | flag _ => .flag
  | number _ => .number
  | symbol _ => .text
  | address _ => .identity

end Value

/-- The value that stands for an argument: of the field's kind, and an integer only as the caller
gave it or in place of one left out. -/
structure Field.IsGiven (f : Field) (d : Datum) (v : Value) : Prop where
  role : v.role = f.role
  number : ∀ n, v = .number n → d = .number n ∨ d = .null ∧ n = 0

theorem Field.IsGiven.eq_number {f : Field} {v : Value} {n : Int} (h : f.IsGiven (.number n) v)
    (role : f.role = .number) : v = .number n := by
  cases v with
  | number m =>
    rcases h.number m rfl with same | ⟨absent, _⟩
    · cases same
      rfl
    · cases absent
  | _ => cases h.role.trans role

namespace Build

variable {s : Surroundings}

theorem settles_settings (s : Surroundings) :
    settings.Settles s (∃ limit, s.symbolLimit? = some limit) fun r s' =>
      s.symbolLimit? = some r.symbolMaxLength ∧ s.Undisturbed s' := by
  have kept := s.config.settings_fst
  rcases read : s.config.settings with ⟨r, c⟩
  rw [read] at kept
  have run : settings s = (r.mapError .invalid, { s with config := c }) := by
    unfold settings
    rw [read]
    cases r <;> rfl
  have undisturbed : s.Undisturbed { s with config := c } := by
    refine ⟨rfl, rfl, ?_, rfl⟩
    simp only [Surroundings.symbolLimit?, kept, read]
  cases r with
  | ok settings =>
    have limit : s.symbolLimit? = some settings.symbolMaxLength := by
      simp only [Surroundings.symbolLimit?, read]
    exact .returned run ⟨_, limit⟩ ⟨limit, undisturbed⟩
  | error faults =>
    refine .refused run ?_ fun topic => ⟨.record topic faults, rfl⟩
    simp [Surroundings.symbolLimit?, read]

theorem settles_limit (s : Surroundings) :
    (symbolLimit true).Settles s (∃ limit, s.symbolLimit? = some limit) fun n s' =>
      (∃ limit : Nat, n = limit ∧ s.symbolLimit? = some limit) ∧ s.Undisturbed s' := by
  refine ((settles_settings s).bind fun r s' _ kept => settles_pure ?_).congr (and_iff_left trivial)
  exact ⟨⟨r.symbolMaxLength, rfl, kept.1⟩, kept.2⟩

theorem settles_interned (t : Text) (s : Surroundings) :
    Settles (symbolLimit true >>= fun limit => admitted (Admission.symbolOf limit t)) s
      (t.content ≠ "" ∧ (∃ limit, s.symbolLimit? = some limit ∧ t.content.length ≤ limit) ∧
        ∀ p ∈ t.content.points, p.IsSymbolic)
      fun _ s' => s.Undisturbed s' := by
  refine ((settles_limit s).bind ?_).congr (and_iff_right_of_imp ?_)
  · rintro _ s' _ ⟨⟨limit, rfl, inForce⟩, undisturbed⟩
    have decided := (settles_admitted (Admission.symbolOf limit t) s').congr
      (Admission.symbolOf_ok_iff limit t)
    refine (decided.congr ?_).imp fun _ _ _ kept => kept.2 ▸ undisturbed
    simp [inForce]
  · rintro ⟨_, ⟨limit, inForce, _⟩, _⟩
    exact ⟨limit, inForce⟩

/-- A symbol is taken without a look at the settings. -/
theorem settles_symbol (d : Datum) (s : Surroundings) :
    (symbol d).Settles s (d.IsWord s.symbolLimit?) fun _ s' => s.Undisturbed s' := by
  cases d with
  | text t =>
    cases t with
    | symbol x => exact .returned rfl trivial (.refl s)
    | _ => exact settles_interned _ s
  | _ => exact .refused rfl id fun _ => ⟨_, rfl⟩

/-- Making an argument typed settles whether the parameter takes it. -/
theorem settles_typed (f : Field) (d : Datum) (s : Surroundings) :
    (typed f d).Settles s (f.Takes s.symbolLimit? d) fun v s' =>
      f.IsGiven d v ∧ s.Undisturbed s' := by
  have wrapped {α : Type} {x : Build α} {P : Prop} {wrap : α → Value}
      (taken : x.Settles s P fun a s' => f.IsGiven d (wrap a) ∧ s.Undisturbed s') :
      Settles (x >>= fun a => pure (wrap a)) s P fun v s' => f.IsGiven d v ∧ s.Undisturbed s' :=
    (taken.bind fun a s' _ kept => settles_pure kept).congr (and_iff_left trivial)
  unfold typed Field.Takes
  cases role : f.role with
  | identity =>
    refine wrapped (((settles_admitted _ s).congr (Admission.address_ok_iff d)).imp ?_)
    rintro a _ _ ⟨_, rfl⟩
    exact ⟨⟨role.symm, by simp⟩, .refl _⟩
  | number =>
    refine wrapped (((settles_admitted _ s).congr (Admission.integer_ok_iff d)).imp ?_)
    rintro n _ _ ⟨read, rfl⟩
    have own : d = .number n := by
      cases d with
      | number m =>
        simp only [Admission.integer] at read
        split at read <;> cases read
        rfl
      | _ => cases read
    exact ⟨⟨role.symm, fun m same => by cases same; exact .inl own⟩, .refl _⟩
  | flag =>
    refine wrapped (((settles_admitted _ s).congr (Admission.flag_ok_iff d)).imp ?_)
    rintro b _ _ ⟨_, rfl⟩
    exact ⟨⟨role.symm, by simp⟩, .refl _⟩
  | text =>
    refine wrapped ((settles_symbol d s).imp ?_)
    intro x _ _ undisturbed
    exact ⟨⟨role.symm, by simp⟩, undisturbed⟩

theorem settles_report (level : Level) (source : LogSource) (text : CodeText) (s : Surroundings) :
    (report level source text).Settles s True fun _ s' => s.Undisturbed s' :=
  .returned rfl trivial ⟨rfl, rfl, rfl, rfl⟩

end Build

namespace Assignment

variable {a : Assignment} {args : CallerArguments} {fs gs : List Field} {f : Field} {v : Value}

/-- Each of the fields has the value that stands for its argument. -/
def Fills (a : Assignment) (args : CallerArguments) (fs : List Field) : Prop :=
  ∀ f ∈ fs, ∃ v, a f = some v ∧ f.IsGiven (args f) v

theorem Fills.set (h : a.Fills args fs) (given : f.IsGiven (args f) v) :
    (a.set f v).Fills args (f :: fs) := by
  intro g hg
  by_cases same : g = f
  · subst same
    exact ⟨v, if_pos rfl, given⟩
  · obtain ⟨u, present, given⟩ := h g (List.mem_of_ne_of_mem same hg)
    exact ⟨u, (if_neg same).trans present, given⟩

theorem Fills.subset (h : a.Fills args fs) (sub : ∀ f ∈ gs, f ∈ fs) : a.Fills args gs :=
  fun f hf => h f (sub f hf)

end Assignment

namespace Layout

variable {l : Layout} {args : CallerArguments}

theorem isAbsent_iff {f : Field} :
    l.isAbsent args f = true ↔ f ∈ l.optional ∧ args f = .null := by
  unfold isAbsent
  cases args f <;> simp

/-- Every listed parameter was left out where it may be, or takes its argument. -/
def Accepts (l : Layout) (args : CallerArguments) (limit? : Option Nat) (fs : List Field) : Prop :=
  ∀ f ∈ fs, l.isAbsent args f = true ∨ f.Takes limit? (args f)

theorem accepts_cons {limit? : Option Nat} {f : Field} {fs : List Field} :
    l.Accepts args limit? (f :: fs) ↔
      (l.isAbsent args f = true ∨ f.Takes limit? (args f)) ∧ l.Accepts args limit? fs :=
  List.forall_mem_cons

/-- The listed parameters that were given an argument. -/
def given (l : Layout) (args : CallerArguments) (fs : List Field) : List Field :=
  fs.filter fun f => !l.isAbsent args f

section Steps

variable {P : Assignment → Prop} {s s₁ : Surroundings} {f : Field} {fs : List Field}

/-- What is settled later on is settled by the surroundings at the start. -/
theorem settles_onward {x : Build Assignment} (undisturbed : s.Undisturbed s₁)
    (h : x.Settles s₁ (l.Accepts args s₁.symbolLimit? fs) fun a s' => s₁.Undisturbed s' ∧ P a) :
    x.Settles s₁ (l.Accepts args s.symbolLimit? fs) fun a s' => s.Undisturbed s' ∧ P a := by
  refine (h.congr (by rw [undisturbed.symbolLimit])).imp ?_
  rintro a s' _ ⟨undisturbed', holds⟩
  exact ⟨undisturbed.trans undisturbed', holds⟩

theorem settles_given {rest : Assignment → Build Assignment} {a : Assignment} {done : List Field}
    (present : ¬l.isAbsent args f = true) (filled : a.Fills args done)
    (others : ∀ a s, a.Fills args (f :: done) →
      (rest a).Settles s (l.Accepts args s.symbolLimit? fs) fun a s' => s.Undisturbed s' ∧ P a) :
    Build.Settles (Build.typed f (args f) >>= fun v => rest (a.set f v)) s
      (l.Accepts args s.symbolLimit? (f :: fs)) fun a s' => s.Undisturbed s' ∧ P a := by
  refine ((Build.settles_typed f (args f) s).bind ?_).congr
    (by rw [accepts_cons, or_iff_right present])
  rintro v s₁ _ ⟨taken, undisturbed⟩
  exact settles_onward undisturbed (others _ s₁ (filled.set taken))

end Steps

theorem settles_check (l : Layout) (args : CallerArguments) (fs : List Field) {a : Assignment}
    {done : List Field} (filled : a.Fills args done) (s : Surroundings) :
    (l.check args fs a).Settles s (l.Accepts args s.symbolLimit? fs) fun a' s' =>
      s.Undisturbed s' ∧ a'.Fills args (l.given args fs ++ done) := by
  induction fs generalizing a done s with
  | nil => exact .returned rfl (by simp [Accepts]) ⟨.refl s, filled⟩
  | cons f fs ih =>
    rw [check]
    split
    · next absent =>
      have same : l.given args (f :: fs) = l.given args fs := by simp [given, absent]
      rw [same]
      exact (ih filled s).congr (by simp [accepts_cons, absent])
    · next present =>
      have more : l.given args (f :: fs) = f :: l.given args fs := by simp [given, present]
      refine settles_given present filled fun a s filled => (ih filled s).imp ?_
      rintro a' s' _ ⟨undisturbed, filled'⟩
      rw [more]
      exact ⟨undisturbed, filled'.subset fun g => List.perm_middle.mem_iff.mpr⟩

/-- Late parameters are all filled, since a placeholder stands for one left out. -/
theorem settles_settle (l : Layout) (name : String) (args : CallerArguments) (fs : List Field)
    (numeric : ∀ f ∈ fs, f.role = .number) {a : Assignment} {done : List Field}
    (filled : a.Fills args done) (s : Surroundings) :
    (l.settle name args fs a).Settles s (l.Accepts args s.symbolLimit? fs) fun a' s' =>
      s.Undisturbed s' ∧ a'.Fills args (fs ++ done) := by
  induction fs generalizing a done s with
  | nil => exact .returned rfl (by simp [Accepts]) ⟨.refl s, filled⟩
  | cons f fs ih =>
    rw [List.forall_mem_cons] at numeric
    have rest (a : Assignment) (s : Surroundings) (filled : a.Fills args (f :: done)) :
        (l.settle name args fs a).Settles s (l.Accepts args s.symbolLimit? fs) fun a' s' =>
          s.Undisturbed s' ∧ a'.Fills args (f :: fs ++ done) := by
      refine (ih numeric.2 filled s).imp ?_
      rintro a' s' _ ⟨undisturbed, filled'⟩
      exact ⟨undisturbed, filled'.subset fun g => List.perm_middle.mem_iff.mpr⟩
    rw [settle]
    split
    · next absent =>
      have stands : f.IsGiven (args f) placeholder := by
        refine ⟨numeric.1.symm, fun n same => ?_⟩
        cases same
        exact .inr ⟨(isAbsent_iff.mp absent).2, rfl⟩
      have left : True ∧ l.Accepts args s.symbolLimit? fs ↔
          l.Accepts args s.symbolLimit? (f :: fs) := by
        simp [accepts_cons, absent]
      refine ((Build.settles_report _ _ _ s).bind ?_).congr left
      intro _ s₁ _ undisturbed
      exact settles_onward undisturbed (rest _ s₁ (filled.set stands))
    · next present => exact settles_given present filled rest

end Layout

end EventEnvelope
