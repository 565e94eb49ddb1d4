import EventEnvelope.Proofs.LogCounts
import Mathlib.Data.List.DropRight

/-! What a log in memory holds after any publications and clearings. Main statement: the records are
the publications that were accepted since the log was last cleared, in their order and numbered from
zero, and all views of the log agree; a publication is refused exactly for a first element that is
listed or that can neither be a key nor stand for one, and then nothing changes. -/

namespace EventEnvelope

namespace Datum

theorem isHashable_of_sameLeaf {a b : Datum} (equal : sameLeaf a b = true) :
    b.isHashable = true := by
  cases b with
  -- a leaf is never the same as a value with parts
  | list _ | tuple _ | set _ | map _ => cases a <;> exact absurd equal Bool.false_ne_true
  | _ => rfl

mutual

/-- Whatever counts as the same as a key is fit for a key. -/
theorem isHashable_of_same (a : Datum) {b : Datum} (fit : a.isHashable = true)
    (equal : same a b = true) : b.isHashable = true := by
  cases a with
  | list _ | set _ | map _ => contradiction
  | tuple xs =>
    cases b with
    | tuple ys =>
      rw [same] at equal
      exact areHashable_of_sameAll xs fit equal
    | ext code bs => rfl
    | _ => simp [same] at equal
  | ext code bs =>
    unfold same at equal
    split at equal
    -- the tuple that the extension value counts as
    · rw [Bool.and_eq_true] at equal
      simp only [isHashable, areHashable, isHashable_of_sameLeaf equal.1,
        isHashable_of_sameLeaf equal.2, Bool.and_self]
    · exact isHashable_of_sameLeaf equal
  | _ =>
    simp only [same] at equal
    exact isHashable_of_sameLeaf equal

theorem areHashable_of_sameAll (xs : List Datum) {ys : List Datum} (fit : areHashable xs = true)
    (equal : sameAll xs ys = true) : areHashable ys = true := by
  cases ys with
  | nil => rfl
  | cons y ys =>
    cases xs with
    | nil => simp [sameAll] at equal
    | cons x xs =>
      simp only [sameAll, areHashable, Bool.and_eq_true] at fit equal ⊢
      exact ⟨isHashable_of_same x fit.1 equal.1, areHashable_of_sameAll xs fit.2 equal.2⟩

end

end Datum

namespace EventLog

/-- What is done to a log from outside. -/
inductive Action
  | publish (p : Publication)
  | clear

/-- The answer to an action, and the log behind it. -/
def act (l : EventLog) : Action → Except Failure Unit × EventLog
  | .publish p => ((publish l p).outcome, (publish l p).state)
  | .clear => (.ok (), l.clear)

def after (l : EventLog) (actions : List Action) : EventLog :=
  actions.foldl (fun l a => (l.act a).2) l

/-- Actions one after another, each with its answer. -/
def history (l : EventLog) : List Action → List (Action × Except Failure Unit)
  | [] => []
  | a :: r => (a, (l.act a).1) :: (l.act a).2.history r

def accepted? : Action × Except Failure Unit → Option Publication
  | (.publish p, .ok ()) => some p
  | _ => none

/-- The publications that were accepted since the log was last cleared, the oldest first. -/
def kept (h : List (Action × Except Failure Unit)) : List Publication :=
  (h.rtakeWhile fun e => e.1 matches .publish _).filterMap accepted?

/-- Why a log refuses what is sent to a channel: the first element counts as one of those listed, or
it can neither be a key nor, as a set, stand for one. -/
inductive Declines (failOn : List Datum) : List Datum → Failure → Prop
  | listed {first f : Datum} {rest : List Datum} (member : f ∈ failOn)
      (equal : f.same first = true) : Declines failOn (first :: rest) (.transport first)
  | unhashable {first : Datum} {rest : List Datum} (unfit : first.isHashable = false)
      (notSet : ∀ xs, first ≠ .set xs) : Declines failOn (first :: rest) (.misuse .notHashable)

section Publishing

variable {l : EventLog} {first : Datum}

theorem refuses_of_ne_set (notSet : ∀ xs, first ≠ .set xs) :
    l.refuses first = if first.isHashable then .ok (l.failOn.any fun f => f.same first)
      else .error (.misuse .notHashable) := by
  unfold refuses
  split
  · next xs => exact absurd rfl (notSet xs)
  · rfl

theorem refuses_eq_error_iff {e : Failure} : l.refuses first = .error e ↔
    (first.isHashable = false ∧ ∀ xs, first ≠ .set xs) ∧ e = .misuse .notHashable := by
  by_cases notSet : ∀ xs, first ≠ .set xs
  · rw [refuses_of_ne_set notSet]
    cases first.isHashable <;> simp [notSet, eq_comm]
  · rw [not_forall_not] at notSet
    obtain ⟨xs, rfl⟩ := notSet
    simp [refuses]

variable (formed : ∀ f ∈ l.failOn, f.isHashable = true)

include formed in
theorem refuses_eq_true_iff :
    l.refuses first = .ok true ↔ ∃ f ∈ l.failOn, f.same first = true := by
  constructor
  · intro refused
    by_cases notSet : ∀ xs, first ≠ .set xs
    · rw [refuses_of_ne_set notSet] at refused
      split at refused
      · exact List.any_eq_true.mp (Except.ok.inj refused)
      · contradiction
    · rw [not_forall_not] at notSet
      obtain ⟨xs, rfl⟩ := notSet
      simp [refuses] at refused
  · rintro ⟨f, member, equal⟩
    have fit := Datum.isHashable_of_same f (formed f member) equal
    have notSet (xs : List Datum) : first ≠ .set xs := by
      rintro rfl
      contradiction
    rw [refuses_of_ne_set notSet, if_pos fit, List.any_eq_true.mpr ⟨f, member, equal⟩]

include formed in
theorem publish_eq_error_iff {p : Publication} {e : Failure} :
    (publish l p).outcome = .error e ↔ Declines l.failOn p.channel e := by
  unfold publish
  constructor
  · intro refused
    split at refused
    · contradiction
    · next first rest channel =>
      rw [channel]
      split at refused
      · next failed =>
        cases refused
        obtain ⟨⟨unfit, notSet⟩, rfl⟩ := refuses_eq_error_iff.mp failed
        exact .unhashable unfit notSet
      · next found =>
        cases refused
        obtain ⟨f, member, equal⟩ := (refuses_eq_true_iff formed).mp found
        exact .listed member equal
      · contradiction
  · intro declines
    generalize p.channel = channel at declines
    cases declines with
    | listed member equal =>
      simp only [(refuses_eq_true_iff formed).mpr ⟨_, member, equal⟩]
    | unhashable unfit notSet =>
      simp only [refuses_eq_error_iff.mpr ⟨⟨unfit, notSet⟩, rfl⟩]

end Publishing

variable {l : EventLog} {h : List (Action × Except Failure Unit)}

theorem kept_clear (o : Except Failure Unit) : kept (h ++ [(.clear, o)]) = [] := by
  rw [kept, List.rtakeWhile_concat_neg _ _ _ (by simp)]
  rfl

theorem kept_publish (p : Publication) (o : Except Failure Unit) :
    kept (h ++ [(.publish p, o)]) = kept h ++ (accepted? (.publish p, o)).toList := by
  rw [kept, List.rtakeWhile_concat_pos _ _ _ rfl, List.filterMap_append]
  rfl

theorem after_concat (actions : List Action) (a : Action) :
    l.after (actions ++ [a]) = ((l.after actions).act a).2 := by
  simp [after]

theorem history_concat (actions : List Action) (a : Action) :
    l.history (actions ++ [a]) = l.history actions ++ [(a, ((l.after actions).act a).1)] := by
  induction actions generalizing l with
  | nil => rfl
  | cons b r ih => simp [history, after, ih]

@[simp] theorem length_entered (first : Nat) (ps : List Publication) :
    (entered first ps).length = ps.length := by
  simp [entered]

theorem entered_concat (ps : List Publication) (p : Publication) :
    entered 0 (ps ++ [p]) = entered 0 ps ++ [⟨ps.length, p.channel, p.payload⟩] := by
  simp [entered, List.zipIdx_append]

theorem failOn_act (a : Action) : (l.act a).2.failOn = l.failOn := by
  cases a with
  | clear => rfl
  | publish p =>
    rcases publish_cases l p with ⟨-, state⟩ | ⟨-, state⟩
    · simp [act, state, append]
    · simp [act, state]

theorem records_act (account : l.records = entered 0 (kept h)) (a : Action) :
    (l.act a).2.records = entered 0 (kept (h ++ [(a, (l.act a).1)])) := by
  cases a with
  | clear =>
    rw [kept_clear]
    rfl
  | publish p =>
    rw [kept_publish]
    rcases publish_cases l p with ⟨accepted, state⟩ | ⟨⟨e, refused⟩, state⟩
    -- the new number is the length of the log, which is that of the account
    · simp [act, accepted, state, accepted?, append, account, entered_concat]
    · simp [act, refused, state, accepted?, account]

theorem failOn_after (actions : List Action) : (l.after actions).failOn = l.failOn := by
  induction actions using List.reverseRecOn with
  | nil => rfl
  | append_singleton actions a ih => rw [after_concat, failOn_act, ih]

theorem records_after (empty : l.records = []) (actions : List Action) :
    (l.after actions).records = entered 0 (kept (l.history actions)) := by
  induction actions using List.reverseRecOn with
  | nil => exact empty
  | append_singleton actions a ih =>
    rw [after_concat, history_concat]
    exact records_act ih a

theorem start_eq_ok {failOn : List Datum} (started : start failOn = .ok l) :
    (∀ f ∈ failOn, f.isHashable = true) ∧ l = ⟨failOn, []⟩ := by
  unfold start at started
  split at started
  · next fit => exact ⟨List.all_eq_true.mp fit, (Except.ok.inj started).symm⟩
  · contradiction

theorem state_of_refused {p : Publication} {e : Failure}
    (refused : (publish l p).outcome = .error e) : (publish l p).state = l := by
  rcases publish_cases l p with ⟨accepted, -⟩ | ⟨-, state⟩
  · rw [accepted] at refused
    contradiction
  · exact state

/-- Whatever was published to a log and whenever it was cleared: it holds what was accepted since,
numbered in order, and every view of it says so. The next publication is refused for its first
element alone and leaves the log as it is; one without a channel never is. -/
theorem history_recorded {failOn : List Datum} {fresh : EventLog}
    (started : start failOn = .ok fresh) (actions : List Action) :
    let l := fresh.after actions
    l.records = entered 0 (kept (fresh.history actions)) ∧
    (l.size = l.records.length ∧ l.channels = l.records.map PublishedRecord.channel ∧
      l.toList = l.records) ∧
    (∀ p e, (publish l p).outcome = .error e ↔ Declines failOn p.channel e) ∧
    (∀ p e, (publish l p).outcome = .error e → (publish l p).state = l) ∧
    ∀ p, p.channel = [] → (publish l p).outcome = .ok () := by
  intro l
  obtain ⟨formed, rfl⟩ := start_eq_ok started
  have same : l.failOn = failOn := failOn_after actions
  refine ⟨records_after rfl actions, ⟨rfl, rfl, rfl⟩, ?_, fun p e => state_of_refused, ?_⟩
  · intro p e
    rw [publish_eq_error_iff (same.symm ▸ formed), same]
  · intro p channelless
    rw [publish, channelless]
    rfl

/-- One publication is cleared away, one is refused by its content and one as no key. -/
theorem history_recorded_mixed :
    let fresh : EventLog := ⟨[.topic .vote], []⟩
    let actions : List Action := [.publish ⟨[.plain "a"], .number 1⟩, .clear,
      .publish ⟨[], .number 2⟩, .publish ⟨[.plain "vote"], .number 3⟩,
      .publish ⟨[.list []], .number 4⟩, .publish ⟨[.plain "b", .plain "vote"], .number 5⟩]
    start [.topic .vote] = .ok fresh ∧
      (fresh.after actions).records.map (fun r => (r.sequence, r.channel.length))
        = [(0, 0), (1, 2)] := by
  intro fresh actions
  have started : start [.topic .vote] = .ok fresh := rfl
  refine ⟨started, ?_⟩
  rw [(history_recorded started actions).1]
  decide +kernel

/-- A set is no key, and yet a channel that starts with one is taken. -/
theorem publish_set_first :
    let l : EventLog := ⟨[.plain "boom"], []⟩
    let p : Publication := ⟨[.set [.plain "a"]], .number 1⟩
    (Datum.set [.plain "a"]).isHashable = false ∧ (publish l p).outcome = .ok () ∧
      (publish l p).state.size = 1 :=
  ⟨rfl, rfl, rfl⟩

end EventLog

end EventEnvelope
