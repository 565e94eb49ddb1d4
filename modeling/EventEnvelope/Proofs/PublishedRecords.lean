import EventEnvelope.Proofs.ArgumentValues
import EventEnvelope.Proofs.PublishOrder

/-! Where the values on a transport come from. Every attempt to publish belongs to one turn of the
session, and every value in the standardized record of a turn was admitted: a flag, an integer in
range, or an identity or a symbol made of something that the call offered. Main statements: an
attempt carries a publication of the records that its turn built, and what those records are stamped
and filled with. -/

namespace EventEnvelope

variable {σ : Type}

theorem exists_of_forall₂ {α β : Type} {R : α → β → Prop} {as : List α} {bs : List β} {b : β}
    (h : List.Forall₂ R as bs) (hb : b ∈ bs) : ∃ a ∈ as, R a b := by
  induction h with
  | nil => cases hb
  | cons first _ ih =>
    rcases List.mem_cons.mp hb with rfl | later
    · exact ⟨_, List.mem_cons_self, first⟩
    · obtain ⟨a, listed, related⟩ := ih later
      exact ⟨a, List.mem_cons_of_mem _ listed, related⟩

/-- A text that is read off an argument: the argument itself, one of its elements, or an element of
a value that it maps to. -/
inductive Datum.Offers : Datum → Text → Prop
  | itself (t : Text) : Offers (.text t) t
  | element {d : Datum} {xs : List Datum} {t : Text} (listed : d.elements? = some xs)
      (own : .text t ∈ xs) : Offers d t
  | mapped {es : List (Datum × Datum)} {entry : Datum × Datum} {xs : List Datum} {t : Text}
      (entered : entry ∈ es) (listed : entry.2.elements? = some xs) (own : .text t ∈ xs) :
      Offers (.map es) t

namespace Request

def arguments : Request → List Datum
  | operation _ positional named | standard positional named => positional ++ named.map Prod.snd

/-- A text that is read off one of the arguments of a request. -/
def Offers (q : Request) (t : Text) : Prop := ∃ d ∈ q.arguments, d.Offers t

end Request

/-- A value that was admitted under a limit: a flag, an integer in range, or an identity or a symbol
made of an offered text. -/
inductive Value.Admitted (limit? : Option Nat) (offered : Text → Prop) : Value → Prop
  | flag (b : Bool) : Admitted limit? offered (.flag b)
  | number {n : Int} (range : Value.inRange n = true) : Admitted limit? offered (.number n)
  | address {a : Address} {t : Text} (own : offered t)
      (taken : Admission.address (.text t) = .ok a) : Admitted limit? offered (.address a)
  | symbol {x : Symbol} {t : Text} (own : offered t)
      (interned : (Datum.text t).interned? limit? = some x) : Admitted limit? offered (.symbol x)

theorem Value.Admitted.imp {limit? : Option Nat} {offered offered' : Text → Prop} {v : Value}
    (h : v.Admitted limit? offered) (more : ∀ t, offered t → offered' t) :
    v.Admitted limit? offered' := by
  cases h with
  | flag b => exact .flag b
  | number range => exact .number range
  | address own taken => exact .address (more _ own) taken
  | symbol own interned => exact .symbol (more _ own) interned

theorem Field.admitted_of_value? {limit? : Option Nat} {f : Field} {d : Datum} {v : Value}
    (h : f.value? limit? d = some v) : v.Admitted limit? fun t => d = .text t := by
  unfold value? at h
  split at h
  all_goals obtain ⟨x, read, rfl⟩ := Option.map_eq_some_iff.mp h
  · cases d with
    | text t => exact .address rfl (eq_ok_of_toOption read)
    | _ => cases read
  · exact .number (Admission.integer_eq_ok (eq_ok_of_toOption read)).2
  · exact .flag x
  · cases d with
    | text t => exact .symbol rfl read
    | _ => cases limit? <;> cases read

/-- What is known of a draft: its identities and values were admitted, each key stands for at least
one value, and keys are distinct. -/
structure Draft.IsAdmitted (d : Draft) (limit? : Option Nat) (offered : Text → Prop) : Prop where
  actor : ∀ a, d.actor = some a → (Value.address a).Admitted limit? offered
  data : ∀ v ∈ d.data, v.Admitted limit? offered
  metadata : ∀ e ∈ d.metadata, e.2 ≠ [] ∧ ∀ v ∈ e.2, v.Admitted limit? offered
  distinct : (d.metadata.map Prod.fst).Nodup

theorem Draft.IsAdmitted.imp {limit? : Option Nat} {offered offered' : Text → Prop} {d : Draft}
    (h : d.IsAdmitted limit? offered) (more : ∀ t, offered t → offered' t) :
    d.IsAdmitted limit? offered' where
  actor a acted := (h.actor a acted).imp more
  data v hv := (h.data v hv).imp more
  metadata e he := ⟨(h.metadata e he).1, fun v hv => ((h.metadata e he).2 v hv).imp more⟩
  distinct := h.distinct

/-- Free text was interned under the limit that was asked for; nothing else needs a limit. -/
theorem Admission.value_admitted {limit? : Option Nat} {n : Int} {d : Datum} {v : Value}
    (asked : Build.isUntypedText d = true → ∃ limit : Nat, n = limit ∧ limit? = some limit)
    (h : value n d = .ok v) : v.Admitted limit? fun t => .text t = d := by
  have interns {t : Text} (asked : ∃ limit : Nat, n = limit ∧ limit? = some limit)
      (free : ∀ y, t ≠ .symbol y) (h : (symbolOf n t).map Value.symbol = .ok v) :
      v.Admitted limit? fun t' => Datum.text t' = .text t := by
    obtain ⟨limit, rfl, rfl⟩ := asked
    obtain ⟨x, made, rfl⟩ := eq_ok_of_map h
    exact .symbol rfl (Datum.interned?_of_symbolOf free made)
  cases d with
  | text t =>
    cases t with
    | address a =>
      cases h
      exact .address rfl rfl
    | symbol x =>
      cases h
      exact .symbol rfl rfl
    | _ => exact interns (asked rfl) (by simp) h
  | number m =>
    obtain ⟨k, read, rfl⟩ := eq_ok_of_map h
    exact .number (integer_eq_ok read).2
  | flag b =>
    cases h
    exact .flag b
  | _ => cases h

theorem Metadata.eq_of_ofEntries {es m : Metadata} (h : ofEntries es = .ok m) : m = es := by
  have go (seen es m : Metadata) (h : ofEntries.go seen es = .ok m) : m = seen ++ es := by
    induction es generalizing seen with
    | nil =>
      cases h
      simp
    | cons e r ih =>
      simp only [ofEntries.go] at h
      split at h
      · cases h
      · simpa using ih _ h
  exact go [] es m h

namespace Build

variable {s s' : Surroundings}

theorem value_eq_ok {d : Datum} {v : Value} (h : value d s = (.ok v, s')) :
    v.Admitted s.symbolLimit? (fun t => .text t = d) ∧ s.Undisturbed s' := by
  obtain ⟨n, mid, asked, last⟩ := bind_eq_ok h
  obtain ⟨taken, rfl⟩ := admitted_eq_ok last
  cases untyped : isUntypedText d with
  | true =>
    rw [untyped] at asked
    obtain ⟨_, limit, undisturbed⟩ := (settles_limit s).of_eq_ok asked
    exact ⟨Admission.value_admitted (fun _ => limit) taken, undisturbed⟩
  | false =>
    rw [untyped] at asked
    cases asked
    exact ⟨Admission.value_admitted (by simp [untyped]) taken, .refl _⟩

theorem values_eq_ok {ds : List Datum} {vs : List Value} (h : values ds s = (.ok vs, s')) :
    (∀ v ∈ vs, v.Admitted s.symbolLimit? (.text · ∈ ds)) ∧ vs.length = ds.length ∧
      s.Undisturbed s' := by
  induction ds generalizing vs s with
  | nil =>
    cases h
    exact ⟨by simp, rfl, .refl _⟩
  | cons d ds ih =>
    obtain ⟨v, mid, first, h⟩ := bind_eq_ok h
    obtain ⟨vs', _, rest, last⟩ := bind_eq_ok h
    cases last
    obtain ⟨admitted, undisturbed⟩ := value_eq_ok first
    obtain ⟨others, length, undisturbed'⟩ := ih rest
    rw [undisturbed.symbolLimit] at others
    refine ⟨?_, by simp [length], undisturbed.trans undisturbed'⟩
    rw [List.forall_mem_cons]
    exact ⟨admitted.imp fun _ own => own ▸ List.mem_cons_self,
      fun v hv => (others v hv).imp fun _ => List.mem_cons_of_mem d⟩

theorem metadataEntry_eq_ok {key : Datum} {ds : List Datum} {e : MetadataKey × List Value}
    (h : metadataEntry key ds s = (.ok e, s')) :
    e.2 ≠ [] ∧ (∀ v ∈ e.2, v.Admitted s.symbolLimit? (.text · ∈ ds)) ∧ s.Undisturbed s' := by
  obtain ⟨k, mid, first, rest⟩ := bind_eq_ok h
  obtain ⟨_, rfl⟩ := admitted_eq_ok first
  split at rest
  · obtain ⟨_, _, thrown, _⟩ := bind_eq_ok rest
    cases thrown
  · next present =>
    obtain ⟨vs, _, made, last⟩ := bind_eq_ok rest
    cases last
    obtain ⟨admitted, length, undisturbed⟩ := values_eq_ok made
    refine ⟨?_, admitted, undisturbed⟩
    rintro rfl
    exact present (List.isEmpty_iff_length_eq_zero.mpr length.symm)

theorem metadataEntries_eq_ok {es : List (Datum × Datum)} {m : Metadata}
    (h : metadataEntries es s = (.ok m, s')) :
    (∀ e ∈ m, e.2 ≠ [] ∧ ∀ v ∈ e.2, v.Admitted s.symbolLimit? fun t =>
      ∃ entry ∈ es, ∃ ds, entry.2.elements? = some ds ∧ .text t ∈ ds) ∧ s.Undisturbed s' := by
  induction es generalizing m s with
  | nil =>
    cases h
    exact ⟨by simp, .refl _⟩
  | cons entry es ih =>
    obtain ⟨key, mapped⟩ := entry
    unfold metadataEntries at h
    cases sequenced : Metadata.sequence? mapped with
    | none =>
      rw [sequenced] at h
      cases h
    | some ds =>
      rw [sequenced] at h
      obtain ⟨e, mid, first, h⟩ := bind_eq_ok h
      obtain ⟨m', _, rest, last⟩ := bind_eq_ok h
      cases last
      obtain ⟨nonempty, admitted, undisturbed⟩ := metadataEntry_eq_ok first
      obtain ⟨others, undisturbed'⟩ := ih rest
      have listed : mapped.elements? = some ds := by
        cases mapped <;> first | exact sequenced | cases sequenced
      rw [undisturbed.symbolLimit] at others
      refine ⟨?_, undisturbed.trans undisturbed'⟩
      rw [List.forall_mem_cons]
      refine ⟨⟨nonempty, fun v hv => ?_⟩, fun e he => ⟨(others e he).1, fun v hv => ?_⟩⟩
      · exact (admitted v hv).imp fun t own => ⟨_, List.mem_cons_self, ds, listed, own⟩
      · refine ((others e he).2 v hv).imp ?_
        rintro t ⟨entry, entered, own⟩
        exact ⟨entry, List.mem_cons_of_mem _ entered, own⟩

theorem metadata_eq_ok {d : Datum} {m : Metadata} (h : metadata d s = (.ok m, s')) :
    (∀ e ∈ m, e.2 ≠ [] ∧ ∀ v ∈ e.2, v.Admitted s.symbolLimit? d.Offers) ∧
      (m.map Prod.fst).Nodup ∧ s.Undisturbed s' := by
  have distinct := metadata_distinct h
  cases d with
  | map es =>
    obtain ⟨entries, mid, first, last⟩ := bind_eq_ok h
    obtain ⟨collected, rfl⟩ := admitted_eq_ok last
    cases Metadata.eq_of_ofEntries collected
    obtain ⟨admitted, undisturbed⟩ := metadataEntries_eq_ok first
    refine ⟨fun e he => ⟨(admitted e he).1, fun v hv => ?_⟩, distinct, undisturbed⟩
    refine ((admitted e he).2 v hv).imp ?_
    rintro t ⟨entry, entered, ds, listed, own⟩
    exact .mapped entered listed own
  | _ => cases h

theorem data_eq_ok {d : Datum} {vs : List Value} (h : data d s = (.ok vs, s')) :
    (∀ v ∈ vs, v.Admitted s.symbolLimit? d.Offers) ∧ s.Undisturbed s' := by
  unfold data at h
  cases listed : d.elements? with
  | none =>
    rw [listed] at h
    cases h
  | some ds =>
    rw [listed] at h
    obtain ⟨admitted, _, undisturbed⟩ := values_eq_ok h
    exact ⟨fun v hv => (admitted v hv).imp fun t own => .element listed own, undisturbed⟩

theorem actor_eq_ok {d : Datum} {a? : Option Address} (h : actor d s = (.ok a?, s')) :
    (∀ a, a? = some a → Admission.address d = .ok a) ∧ s' = s := by
  cases d with
  | null =>
    cases h
    exact ⟨by simp, rfl⟩
  | _ =>
    obtain ⟨a, _, first, last⟩ := bind_eq_ok h
    cases last
    obtain ⟨taken, rfl⟩ := admitted_eq_ok first
    exact ⟨fun _ same => Option.some.inj same ▸ taken, rfl⟩

theorem draft_eq_ok {topic : Topic} {actor data metadata : Datum} {offered : Text → Prop}
    {d : Draft} (h : draft topic actor data metadata s = (.ok d, s'))
    (own : ∀ e ∈ [actor, data, metadata], ∀ t, e.Offers t → offered t) :
    d.IsAdmitted s.symbolLimit? offered ∧ s.Undisturbed s' := by
  obtain ⟨a?, _, acted, h⟩ := bind_eq_ok h
  obtain ⟨vs, mid, listed, h⟩ := bind_eq_ok h
  obtain ⟨m, _, keyed, last⟩ := bind_eq_ok h
  cases last
  obtain ⟨taken, rfl⟩ := actor_eq_ok acted
  obtain ⟨values, undisturbed⟩ := data_eq_ok listed
  obtain ⟨entries, distinct, undisturbed'⟩ := metadata_eq_ok keyed
  rw [undisturbed.symbolLimit] at entries
  refine ⟨⟨?_, ?_, ?_, distinct⟩, undisturbed.trans undisturbed'⟩
  · intro a same
    have taken := taken a same
    cases actor with
    | text t => exact .address (own _ (by simp) t (.itself t)) taken
    | _ => cases taken
  · intro v hv
    exact (values v hv).imp (own _ (by simp))
  · intro e he
    exact ⟨(entries e he).1, fun v hv => ((entries e he).2 v hv).imp (own _ (by simp))⟩

/-- An envelope is a draft of what was offered, stamped with the host's identity and the version in
force. -/
theorem envelope_eq_ok {topic actor data metadata given : Datum} {offered : Text → Prop}
    {e : Envelope} (h : envelope topic actor data metadata given s = (.ok e, s'))
    (own : ∀ e ∈ [actor, data, metadata], ∀ t, e.Offers t → offered t) :
    ∃ (d : Draft) (emitter : Address), d.IsAdmitted s.symbolLimit? offered ∧
      Admission.address s.identity = .ok emitter ∧ (e.version : Int) = s.version ∧
      e = d.stamped emitter e.timestamp e.version := by
  obtain ⟨found, _, first, rest⟩ := bind_eq_ok h
  rw [topic_eq] at first
  obtain ⟨_, rfl⟩ := of_eq_ok first
  obtain ⟨d, mid, drafted, rest⟩ := bind_eq_ok rest
  obtain ⟨admitted, undisturbed⟩ := draft_eq_ok drafted own
  obtain ⟨emitter, identified, version, _, stamped⟩ := stamp_stamps rest
  exact ⟨d, emitter, admitted, undisturbed.identity ▸ identified, undisturbed.version ▸ version,
    stamped⟩

/-- A standardized record by itself, made of what it is asked to hold. -/
theorem standard_eq_ok {topic actor data metadata : Datum} {offered : Text → Prop} {e : Envelope}
    (h : standard topic actor data metadata s = (.ok e, s'))
    (own : ∀ e ∈ [actor, data, metadata], ∀ t, e.Offers t → offered t) :
    ∃ (d : Draft) (emitter : Address), d.IsAdmitted s.symbolLimit? offered ∧
      Admission.address s.identity = .ok emitter ∧ (e.version : Int) = s.version ∧
      e = d.stamped emitter e.timestamp e.version := by
  obtain ⟨found, _, first, built⟩ := bind_eq_ok h
  rw [topic_eq] at first
  obtain ⟨_, rfl⟩ := of_eq_ok first
  exact envelope_eq_ok built own

end Build

theorem Arguments.get_mem {params : List Parameter} {positional : List Datum}
    {named : List (String × Datum)} {bound : Bound} {name : String}
    (h : bind params positional named = .ok bound) (present : get bound name ≠ .null) :
    get bound name ∈ positional ++ named.map Prod.snd := by
  have all : bound = (params.map Parameter.name).zip positional ++ named := by
    simp only [bind] at h
    split at h
    · cases h
    · split at h
      · cases h
      · split at h
        · cases h
        · exact (Except.ok.inj h).symm
  unfold get at present ⊢
  cases found : bound.find? fun a => a.1 == name with
  | none =>
    rw [found] at present
    exact absurd rfl present
  | some a =>
    have listed := List.mem_of_find?_eq_some found
    rw [all] at listed
    rcases List.mem_append.mp listed with first | later
    · exact List.mem_append_left _ (List.of_mem_zip first).2
    · exact List.mem_append_right _ (List.mem_map_of_mem later)

namespace Layout

variable {a : Assignment} {limit? : Option Nat} {offered : Text → Prop}

/-- Metadata that was laid out holds one admitted value under each key. -/
theorem metadataOf_admitted {sources : List (MetadataKey × Source)} {m : Metadata}
    (own : ∀ f v, a f = some v → v.Admitted limit? offered) (h : metadataOf a sources = .ok m) :
    ∀ e ∈ m, ∃ v, e.2 = [v] ∧ v.Admitted limit? offered := by
  have sourced (source : Source) (v : Value) (h : sourceValue a source = .ok (some v)) :
      v.Admitted limit? offered := by
    cases source with
    | field f => exact own f v (Except.ok.inj h)
    | total f g =>
      simp only [sourceValue] at h
      split at h
      · next m n _ _ =>
        obtain ⟨k, added, same⟩ := eq_ok_of_map h
        cases same
        exact .number (Admission.integer_eq_ok added).2
      · cases h
  induction sources generalizing m with
  | nil =>
    cases h
    simp
  | cons source r ih =>
    simp only [metadataOf] at h
    split at h
    · cases h
    · exact ih h
    · next v value =>
      obtain ⟨m', rest, rfl⟩ := eq_ok_of_map h
      rw [List.forall_mem_cons]
      exact ⟨⟨v, rfl, sourced _ v value⟩, ih rest⟩

end Layout

namespace Operation

theorem assignment_admitted {op : Operation} {limit? : Option Nat} {args : CallerArguments}
    {f : Field} {v : Value} (h : op.assignment limit? args f = some v) :
    v.Admitted limit? fun t => args f = .text t := by
  unfold assignment at h
  split at h
  · cases h
  · split at h
    · split at h
      · cases h
        exact .number (by decide)
      · cases h
    · exact Field.admitted_of_value? h

theorem actor_asked (op : Operation) : op.layout.actor.role = .identity ∧
    op.layout.actor ∈ op.layout.params ∧ op.layout.actor ∉ op.layout.optional := by
  cases op <;> decide

/-- The draft of an operation holds what its arguments offer. -/
theorem Makes.isAdmitted {op : Operation} {args : CallerArguments} {s : Surroundings} {e : Emission}
    {m : Metadata} {emitter : Address} {now : Datum} (made : op.Makes args s e m emitter now) :
    (op.draft (op.assignment s.symbolLimit? args) m).IsAdmitted s.symbolLimit? fun t =>
      ∃ f, args f = .text t := by
  have own (f : Field) (v : Value) (h : op.assignment s.symbolLimit? args f = some v) :
      v.Admitted s.symbolLimit? fun t => ∃ f, args f = .text t :=
    (assignment_admitted h).imp fun _ text => ⟨f, text⟩
  constructor
  · intro x acted
    simp only [draft, Assignment.address?] at acted
    split at acted
    · next found =>
      cases acted
      exact own _ _ found
    · cases acted
  · intro v hv
    obtain ⟨f, _, h⟩ := List.mem_filterMap.mp hv
    exact own f v h
  · intro entry he
    obtain ⟨v, single, admitted⟩ := Layout.metadataOf_admitted own made.metadata entry he
    rw [single]
    exact ⟨by simp, by simpa using admitted⟩
  · exact made.distinct

end Operation

/-- What the standardized record of a request is: a draft of admitted values, stamped with the
host's identity and the version in force. An operation always has an actor. -/
structure Request.Stamps (q : Request) (s : Surroundings) (e : Envelope) (d : Draft)
    (emitter : Address) : Prop where
  standard : e = d.stamped emitter e.timestamp e.version
  identified : Admission.address s.identity = .ok emitter
  version : (e.version : Int) = s.version
  admitted : d.IsAdmitted s.symbolLimit? q.Offers
  acted : q.isStandard = false → d.actor ≠ none

namespace Request

variable {s s' : Surroundings}

theorem offers_of_bind {op : Operation} {positional : List Datum} {named : List (String × Datum)}
    {args : CallerArguments} (bound : op.bind positional named = .ok args) {f : Field} {t : Text}
    (own : args f = .text t) : (operation op positional named).Offers t := by
  obtain ⟨b, fits, rfl⟩ := eq_ok_of_map bound
  have text : Arguments.get b f.name = .text t := own
  have given := Arguments.get_mem fits (by rw [text]; simp)
  rw [text] at given
  exact ⟨_, given, .itself t⟩

theorem assignment_admitted {op : Operation} {positional : List Datum}
    {named : List (String × Datum)} {args : CallerArguments} {limit? : Option Nat}
    (bound : op.bind positional named = .ok args) {f : Field} {v : Value}
    (h : op.assignment limit? args f = some v) :
    v.Admitted limit? (operation op positional named).Offers :=
  (Operation.assignment_admitted h).imp fun _ => offers_of_bind bound

theorem stamps_of_operation {op : Operation} {positional : List Datum}
    {named : List (String × Datum)} {args : CallerArguments} {e : Emission}
    (bound : op.bind positional named = .ok args) (built : op.build args s = (.ok e, s')) :
    ∃ d emitter, (operation op positional named).Stamps s e.standard d emitter := by
  obtain ⟨m, emitter, now, made⟩ := Operation.build_makes built
  refine ⟨_, emitter, made.standard, made.identified, made.version, ?_, ?_⟩
  · refine made.isAdmitted.imp ?_
    rintro t ⟨f, own⟩
    exact offers_of_bind bound own
  · intro _
    obtain ⟨role, listed, required⟩ := op.actor_asked
    obtain ⟨v, value, own⟩ := made.value_of_required listed required
    have kind := (Field.role_of_value? value).trans role
    cases v with
    | address x => simp [Operation.draft, Assignment.address?, own]
    | _ => cases kind

/-- A request that built its records has stamped a draft of what it offers. -/
theorem stamps_of_build {q : Request} {r : Records} (h : q.build s = (.ok r, s')) :
    ∃ d emitter, q.Stamps s r.standard d emitter := by
  cases q with
  | operation op positional named =>
    obtain ⟨args, _, first, rest⟩ := Build.bind_eq_ok h
    obtain ⟨bound, rfl⟩ := Build.of_eq_ok first
    obtain ⟨e, _, built, last⟩ := Build.bind_eq_ok rest
    cases last
    exact stamps_of_operation bound built
  | standard positional named =>
    obtain ⟨bound, _, first, rest⟩ := Build.bind_eq_ok h
    obtain ⟨fits, rfl⟩ := Build.of_eq_ok first
    obtain ⟨e, _, built, last⟩ := Build.bind_eq_ok rest
    cases last
    have own (name : String) (t : Text) (h : (Arguments.get bound name).Offers t) :
        (standard positional named).Offers t := by
      have present : Arguments.get bound name ≠ .null := by
        intro absent
        rw [absent] at h
        cases h with
        | element listed own => cases listed
      exact ⟨_, Arguments.get_mem fits present, h⟩
    have all : ∀ d ∈ [Arguments.get bound "actor_identity", Arguments.get bound "data",
        Arguments.get bound "metadata"],
        ∀ t, d.Offers t → (standard positional named).Offers t := by
      simpa using ⟨own _, own _, own _⟩
    obtain ⟨d, emitter, admitted, identified, version, stamped⟩ := Build.standard_eq_ok built all
    exact ⟨d, emitter, stamped, identified, version, admitted, fun operates => by cases operates⟩

end Request

section Attempts

variable {t : Transport σ} {w : World σ} {cs : List Call} {a : Attempt}

theorem Block.mem_publications {root : Symbol} {built reply : Except Failure Records}
    {block : List Attempt} (h : Block root built block reply) (ha : a ∈ block) :
    ∃ r, built = .ok r ∧ a.record ∈ r.publications root := by
  cases h with
  | unbuilt e e' => cases ha
  | refused r e =>
    cases List.mem_singleton.mp ha
    exact ⟨r, rfl, List.mem_cons_self⟩
  | alone e =>
    cases List.mem_singleton.mp ha
    exact ⟨_, rfl, List.mem_cons_self⟩
  | refusedLegacy e p f | both e p =>
    refine ⟨_, rfl, ?_⟩
    rcases List.mem_cons.mp ha with rfl | later
    · exact List.mem_cons_self
    · cases List.mem_singleton.mp later
      exact List.mem_cons_of_mem _ (List.mem_singleton_self p)

/-- Every attempt of a session carries a publication of the records that one of its turns built. -/
theorem mem_attempts (h : a ∈ attempts t w cs) :
    ∃ turn ∈ turns t w cs, ∃ r, turn.built = .ok r ∧
      a.record ∈ r.publications turn.call.emitter.root := by
  obtain ⟨blocks, left, accounts⟩ := observed_eq_append_flatten t w.observed cs
  have recorded : attempts t w cs = blocks.flatten := by
    simpa [attempts, World.observed] using left
  obtain ⟨block, among, here⟩ := List.mem_flatten.mp (recorded ▸ h)
  obtain ⟨turn, listed, account⟩ := exists_of_forall₂ accounts among
  obtain ⟨r, built, published⟩ := account.shape.mem_publications here
  refine ⟨turn.mapTransport Prod.fst, ?_, r, built, published⟩
  rw [turns_of_observed]
  exact List.mem_map_of_mem listed

end Attempts

end EventEnvelope
