import EventEnvelope.Publisher.StreamPublisher

/-! A stream as a machine that is handed one record after another, each whatever became of those
before it. Main statement: after any records the client was asked for one append for each of them
that has a title and bytes, in their order and as configured, and the id that is kept is that of the
latest append the client accepted; the next record is refused for its title or as its writing is, or
appended once and answered as the client answers. -/

namespace EventEnvelope

variable {σ : Type}

/-- The state that a transport is in once records were handed to it, each whatever became of those
before it. -/
def Transport.after (t : Transport σ) (s : σ) (rs : List Publication) : σ :=
  rs.foldl (fun s r => (t s r).state) s

/-- What a client says by its answer: the text of an id, or why the append failed. -/
inductive ClientAnswer.Says : ClientAnswer → Except PublishFault String → Prop
  | text (s : String) : Says (.id (.plain s)) (.ok s)
  | ascii (s : String) (basic : ∀ c ∈ s.toList, c.toNat < 0x80) :
      Says (.id (.bytes (s.toList.map fun c => UInt8.ofNat c.toNat))) (.ok s)
  | unavailable (e : ClientError) (kind : e.kind = .connection ∨ e.kind = .timeout) :
      Says (.raised e) (.error (.unavailable e.text))
  | rejected (e : ClientError) (kind : e.kind = .response) :
      Says (.raised e) (.error (.rejected e.text))

namespace StreamPublisher

/-- An id in bytes is read as the text that its bytes spell. -/
theorem idText_ascii {s : String} (basic : ∀ c ∈ s.toList, c.toNat < 0x80) :
    idText (.bytes (s.toList.map fun c => UInt8.ofNat c.toNat)) = .ok (.plain s) := by
  have small (c : Char) (hc : c ∈ s.toList) : (UInt8.ofNat c.toNat).toNat = c.toNat := by
    rw [UInt8.toNat_ofNat']
    exact Nat.mod_eq_of_lt (Nat.lt_trans (basic c hc) (by decide))
  have low : (s.toList.map fun c => UInt8.ofNat c.toNat).all (· < 0x80) = true := by
    rw [List.all_map, List.all_eq_true]
    intro c hc
    have bound : (UInt8.ofNat c.toNat).toNat < (0x80 : UInt8).toNat := by
      rw [small c hc]
      exact basic c hc
    exact decide_eq_true (UInt8.lt_iff_toNat_lt.mpr bound)
  have spelled : (s.toList.map fun c => UInt8.ofNat c.toNat).map (fun b => Char.ofNat b.toNat)
      = s.toList := by
    rw [List.map_map]
    refine (List.map_congr_left fun c hc => ?_).trans (List.map_id _)
    simp only [Function.comp_apply, small c hc, Char.ofNat_toNat, id]
  rw [idText, if_pos low, spelled, String.ofList_toList]

/-- A channel is without a title just when its first element holds too long a number. -/
theorem topicText_eq_error_iff {channel : List Datum} {e : Failure} :
    topicText channel = .error e ↔
      e = .badValue ∧ ∃ first rest, channel = first :: rest ∧ first.isWritable = false := by
  fun_cases topicText channel with
  | case1 => simp
  | case2 t rest => simp [Datum.isWritable]
  | case3 first rest other short => simp [short]
  | case4 first rest other long =>
    rw [Bool.not_eq_true] at long
    constructor
    · rintro ⟨⟩
      exact ⟨rfl, first, rest, rfl, long⟩
    · rintro ⟨rfl, _⟩
      rfl

/-- One more append on record. -/
def appended (p : StreamPublisher) (r : Publication) (topic : CodeText) (bs : Bytes) :
    StreamPublisher :=
  { p with entries := p.entries ++ [p.entry r.channel topic bs] }

/-- How a stream takes one record, when its client says what is told of it: a record that starts
with too long a number or that has no bytes never reaches the client, any other is appended once,
and an id is kept only of an append that the client accepted. -/
inductive Takes (said : Nat → Except PublishFault String) (p : StreamPublisher) (r : Publication) :
    Except Failure Unit → StreamPublisher → Prop
  | untitled (first : Datum) (rest : List Datum) (channel : r.channel = first :: rest)
      (long : first.isWritable = false) : Takes said p r (.error .badValue) p
  | unwritten (topic : CodeText) (e : Failure) (titled : topicText r.channel = .ok topic)
      (written : r.encode = .error e) : Takes said p r (.error e) p
  | refused (topic : CodeText) (bs : Bytes) (fault : PublishFault)
      (titled : topicText r.channel = .ok topic) (written : r.encode = .ok bs)
      (answer : said p.entries.length = .error fault) :
      Takes said p r (.error (.publish fault)) (p.appended r topic bs)
  | accepted (topic : CodeText) (bs : Bytes) (id : String)
      (titled : topicText r.channel = .ok topic) (written : r.encode = .ok bs)
      (answer : said p.entries.length = .ok id) :
      Takes said p r (.ok ()) { p.appended r topic bs with lastMessageId := .plain id }

variable {said : Nat → Except PublishFault String} {p : StreamPublisher}

theorem publish_takes (told : ∀ n, (p.answers n).Says (said n)) (r : Publication) :
    Takes said p r (publish p r).outcome (publish p r).state := by
  cases titled : topicText r.channel with
  | error e =>
    simp only [publish, titled]
    obtain ⟨rfl, first, rest, channel, long⟩ := topicText_eq_error_iff.mp titled
    exact .untitled first rest channel long
  | ok topic =>
    cases written : r.encode with
    | error e =>
      simp only [publish, titled, written]
      exact .unwritten topic e titled written
    | ok bs =>
      simp only [publish, titled, written, answered]
      have answer := told p.entries.length
      generalize heard : said p.entries.length = reply at answer
      generalize p.answers p.entries.length = given at answer
      cases answer with
      | text s => exact .accepted topic bs s titled written heard
      | ascii s basic =>
        simp only [idText_ascii basic]
        exact .accepted topic bs s titled written heard
      | unavailable e kind =>
        rcases kind with kind | kind <;>
          (simp only [refusal, kind]; exact .refused topic bs _ titled written heard)
      | rejected e kind =>
        simp only [refusal, kind]
        exact .refused topic bs _ titled written heard

/-- The texts of the ids among so many answers. -/
def idsAmong (said : Nat → Except PublishFault String) (count : Nat) : List String :=
  (List.range count).filterMap fun n => (said n).toOption

theorem idsAmong_succ (said : Nat → Except PublishFault String) (count : Nat) :
    idsAmong said (count + 1) = idsAmong said count ++ (said count).toOption.toList := by
  rw [idsAmong, idsAmong, List.range_succ, List.filterMap_append, List.filterMap_cons]
  cases (said count).toOption <;> rfl

/-- The id that is kept once these were given: the latest, if there is one. -/
def latestId (ids : List String) : Datum :=
  (ids.getLast?.map fun id => Datum.plain id).getD .null

/-- The append that a record with a title and bytes comes to. -/
def stored? (p : StreamPublisher) (r : Publication) : Option StreamEntry :=
  match topicText r.channel, r.encode with
  | .ok topic, .ok bs => some (p.entry r.channel topic bs)
  | _, _ => none

/-- What a stream has come to after some records: configured as at the start, with one append for
each record that has a title and bytes and with the latest id that the client gave. -/
structure IsAfter (said : Nat → Except PublishFault String) (start : StreamPublisher)
    (rs : List Publication) (p : StreamPublisher) : Prop where
  answers : p.answers = start.answers
  entry : p.entry = start.entry
  entries : p.entries = rs.filterMap start.stored?
  latest : p.lastMessageId = latestId (idsAmong said p.entries.length)

variable {start : StreamPublisher} {rs : List Publication}

/-- One more record keeps the account. -/
theorem Takes.isAfter {p' : StreamPublisher} {r : Publication} {outcome : Except Failure Unit}
    (h : Takes said p r outcome p') (reached : IsAfter said start rs p) :
    IsAfter said start (rs ++ [r]) p' := by
  obtain ⟨answers, entry, entries, latest⟩ := reached
  cases h with
  | untitled first rest channel long =>
    have titled := topicText_eq_error_iff.mpr ⟨rfl, first, rest, channel, long⟩
    refine ⟨answers, entry, ?_, latest⟩
    rw [entries, List.filterMap_append]
    simp [stored?, titled]
  | unwritten topic e titled written =>
    refine ⟨answers, entry, ?_, latest⟩
    rw [entries, List.filterMap_append]
    simp [stored?, titled, written]
  | refused topic bs fault titled written answer =>
    refine ⟨answers, entry, ?_, ?_⟩
    · rw [appended, entries, List.filterMap_append]
      simp [stored?, titled, written, entry]
    · rw [appended, List.length_append, List.length_singleton, idsAmong_succ, answer]
      simpa [Except.toOption] using latest
  | accepted topic bs id titled written answer =>
    refine ⟨answers, entry, ?_, ?_⟩
    · rw [appended, entries, List.filterMap_append]
      simp [stored?, titled, written, entry]
    · rw [appended, List.length_append, List.length_singleton, idsAmong_succ, answer]
      simp [Except.toOption, latestId]

theorem isAfter_publish (told : ∀ n, (start.answers n).Says (said n))
    (reached : IsAfter said start rs p) (more : List Publication) :
    IsAfter said start (rs ++ more) (Transport.after publish p more) := by
  induction more generalizing rs p with
  | nil => simpa [Transport.after] using reached
  | cons r more ih =>
    have taken := publish_takes (reached.answers.symm ▸ told) r
    have rest := ih (taken.isAfter reached)
    rwa [List.append_assoc] at rest

/-- Whatever records were handed to a stream: its client was asked for one append for each of them
that has a title and bytes, in their order and as the stream was configured, and the id that is kept
is the latest that the client gave. So it goes on with the next record, whatever that is. -/
theorem appends_accounted {answers : Nat → ClientAnswer}
    (told : ∀ n, (answers n).Says (said n)) (stream : String) (maxlen : Int) (instanceId : String)
    (rs : List Publication) :
    let p := Transport.after publish (.start stream maxlen instanceId answers) rs
    p.entries = rs.filterMap (fun r =>
      match topicText r.channel, r.encode with
      | .ok topic, .ok bs => some ⟨stream, maxlen, true, bs, topic, kindOf r.channel, instanceId⟩
      | _, _ => none) ∧
    p.lastMessageId = latestId (idsAmong said p.entries.length) ∧
    ∀ r, Takes said p r (publish p r).outcome (publish p r).state := by
  intro p
  have fresh : IsAfter said (.start stream maxlen instanceId answers) []
      (.start stream maxlen instanceId answers) := ⟨rfl, rfl, rfl, rfl⟩
  have reached := isAfter_publish told fresh rs
  rw [List.nil_append] at reached
  refine ⟨reached.entries, reached.latest, fun r => ?_⟩
  exact publish_takes (reached.answers.symm ▸ told) r

/-- A client that gives its first id in bytes, then times out, and then gives texts. -/
def uneven : Nat → ClientAnswer
  | 0 => .id (.bytes [0x31, 0x2d, 0x30])
  | 1 => .raised ⟨.timeout, "TimeoutError", "timed out"⟩
  | _ => .id (.plain "2-0")

def unevenSaid : Nat → Except PublishFault String
  | 0 => .ok "1-0"
  | 1 => .error (.unavailable "timed out")
  | _ => .ok "2-0"

theorem uneven_told : ∀ n, (uneven n).Says (unevenSaid n)
  | 0 => .ascii "1-0" (by simp)
  | 1 => .unavailable _ (.inr rfl)
  | _ + 2 => .text "2-0"

/-- A record without a channel, one that has no bytes and one that the client refuses: two appends,
and the id of the first is kept. -/
theorem appends_accounted_uneven :
    let rs : List Publication :=
      [⟨[], .null⟩, ⟨[.plain "a"], .set []⟩, ⟨[.topic .burn, .plain "b"], .number 1⟩]
    let p := Transport.after publish (.start "s" 10 "i" uneven) rs
    (∀ n, (uneven n).Says (unevenSaid n)) ∧
      p.entries.map StreamEntry.kind = [.standard, .legacy] ∧ p.lastMessageId = .plain "1-0" := by
  intro rs p
  obtain ⟨entries, latest, _⟩ := appends_accounted uneven_told "s" 10 "i" rs
  refine ⟨uneven_told, ?_, ?_⟩
  · rw [entries]
    rfl
  · rw [latest, entries]
    rfl

/-- Bytes alone do not lead to an append, nor does every timeout become a refusal: a record that
starts with too long a number is not handed over, and a timeout of the operating system, which is
none of the client's own errors, reaches the caller as it is. -/
theorem appends_unaccounted :
    let long : Publication := ⟨[.number (Nat.pow 10 4300)], .null⟩
    let late : ClientError := ⟨.system, "builtins.TimeoutError", "timed out"⟩
    let p : StreamPublisher := .start "s" 10 "i" fun _ => .raised late
    (long.encode.toOption.isSome = true ∧ publish p long = ⟨.error .badValue, p, []⟩) ∧
      (publish p ⟨[.plain "x"], .number 1⟩).outcome = .error (.client late) := by
  intro long late p
  have untitled : topicText long.channel = .error .badValue :=
    topicText_eq_error_iff.mpr ⟨rfl, _, _, rfl, by decide +kernel⟩
  refine ⟨⟨by decide +kernel, ?_⟩, rfl⟩
  rw [publish, untitled]

end StreamPublisher

end EventEnvelope
