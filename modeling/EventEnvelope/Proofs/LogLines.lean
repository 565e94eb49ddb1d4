import EventEnvelope.LogLine
import EventEnvelope.Proofs.Json.Ink
import EventEnvelope.Proofs.Json.Value
import Mathlib.Data.List.Nodup

/-! Log lines in JSON. The four texts are put between quotation marks as they are. Main statement: a
line tells its time, level, module and message exactly if none of them holds a quotation mark, a
backslash or a control character. That no other text can be told, not even through members of its
own making, is a matter of ink: the line has as much as its texts and the template, and a text with
such a character would take more. -/

namespace EventEnvelope

namespace Json

/-- The value under a name. Of repeated members the last counts. -/
def member? (name : String) (ms : List (CodeText × Json)) : Option Json :=
  (ms.reverse.find? fun m => m.1 == .proper name).map Prod.snd

theorem mem_of_member? {name : String} {ms : List (CodeText × Json)} {j : Json}
    (h : member? name ms = some j) : (.proper name, j) ∈ ms := by
  obtain ⟨⟨k, _⟩, found, rfl⟩ := Option.map_eq_some_iff.mp h
  have named := List.find?_some found
  rw [← show k = .proper name from eq_of_beq named]
  exact List.mem_reverse.mp (List.mem_of_find?_eq_some found)

/-- The text may stand between quotation marks as it is. -/
def IsBare (s : String) : Prop := ∀ c ∈ s.toList, isPlain c = true

-- By name: the search could go through all characters instead of those of the text.
instance (s : String) : Decidable (IsBare s) := List.decidableBAll (isPlain · = true) s.toList

theorem ink_le_prices (cs : List Char) : ink cs ≤ (cs.map price).sum :=
  List.sum_le_sum fun c _ => mark_le_price c

theorem textPrice_proper (s : String) :
    textPrice (.proper s) = (s.toList.map price).sum + 2 := by
  rw [textPrice, CodeText.points, List.map_map]
  rfl

/-- A text that needs no more ink between quotation marks than elsewhere. -/
theorem isPlain_of_prices_le {cs : List Char} (h : (cs.map price).sum ≤ ink cs) :
    ∀ c ∈ cs, isPlain c = true := by
  induction cs with
  | nil => nofun
  | cons c cs ih =>
    have first := mark_le_price c
    have others := ink_le_prices cs
    rw [List.map_cons, List.sum_cons, ink_cons] at h
    rw [List.forall_mem_cons]
    exact ⟨isPlain_of_price_le (by omega), ih (by omega)⟩

def quoted (s : String) : List Char := '\x22' :: s.toList ++ ['\x22']

/-- A member as it is spelled in a template. -/
def pair (k v : String) : List Char := quoted k ++ ':' :: ' ' :: quoted v

theorem ink_pair (k v : String) : ink (pair k v) = ink k.toList + ink v.toList + 5 := by
  simp only [pair, quoted, List.cons_append, ink_append, ink_cons, ink_nil, mark, Char.reduceEq,
    if_false, if_true]
  omega

section Reading

variable {cs rest : List Char} {s t k v : String} {n : Nat}

theorem spelling_plains (plain : ∀ c ∈ cs, isPlain c = true) :
    spelling (cs ++ '\x22' :: rest) = some (cs.map .char, rest) := by
  induction cs with
  | nil => rfl
  | cons c cs ih =>
    rw [List.forall_mem_cons] at plain
    have shown := plain.1
    simp only [isPlain, ne_eq, decide_not, Bool.and_eq_true, Bool.not_eq_true',
      decide_eq_false_iff_not, decide_eq_true_eq] at shown
    rw [List.cons_append, spelling_plain shown.2 shown.1.1 shown.1.2, ih plain.2]
    rfl

theorem textBody_bare (bare : IsBare s) :
    textBody (s.toList ++ '\x22' :: rest) = some (.proper s, rest) := by
  rw [textBody, spelling_plains bare]
  exact congrArg (fun t => some (t, rest)) (CodeText.ofPoints_points (.proper s))

theorem memberName_quoted (bare : IsBare s) :
    memberName (quoted s ++ ':' :: rest) = some (.proper s, skip rest) := by
  simp only [quoted, List.cons_append, List.append_assoc, List.nil_append]
  rw [memberName, textBody_bare bare]
  simp [skip, isSpace]

theorem value_quoted (bare : IsBare s) :
    value (n + 1) (quoted s ++ rest) = some (text (.proper s), rest) := by
  simp only [quoted, List.cons_append, List.append_assoc, List.nil_append]
  rw [value, scalar, textBody_bare bare]
  · rfl
  · rintro _ ⟨⟩
  · rintro _ ⟨⟩

theorem memberName_pair (name : IsBare k) :
    memberName (pair k v ++ rest) = some (.proper k, quoted v ++ rest) := by
  rw [pair, List.append_assoc, List.cons_append, List.cons_append, memberName_quoted name]
  rfl

theorem members_pair_last (name : IsBare k) (bare : IsBare v) :
    members (n + 2) (pair k v ++ '\x7d' :: rest) = some ([(.proper k, text v)], rest) := by
  rw [members, memberName_pair name]
  dsimp only
  rw [value_quoted bare]
  rfl

theorem members_pair_more {ms : List (CodeText × Json)} (name : IsBare k) (bare : IsBare v)
    (more : members (n + 1) (pair s t ++ cs) = some (ms, rest)) :
    members (n + 2) (pair k v ++ ',' :: ' ' :: (pair s t ++ cs))
      = some ((.proper k, text v) :: ms, rest) := by
  have opened : skip (' ' :: (pair s t ++ cs)) = pair s t ++ cs := rfl
  rw [members, memberName_pair name]
  dsimp only
  rw [value_quoted bare]
  change (members (n + 1) (skip (' ' :: (pair s t ++ cs)))).map _ = _
  rw [opened, more]
  rfl

end Reading

end Json

namespace LogLine

open Json

/-- The line is an object whose members are these texts. -/
def Tells (line time level module message : String) : Prop :=
  ∃ ms, parse? line = some (.object ms) ∧
    member? "time" ms = some (.text time) ∧ member? "level" ms = some (.text level) ∧
    member? "module" ms = some (.text module) ∧ member? "message" ms = some (.text message)

def told (time level module message : String) : List (CodeText × Json) :=
  [("time", .text time), ("level", .text level), ("module", .text module),
    ("message", .text message)]

variable {time level module message : String}

theorem toList_render : (render .json time level module message).toList
    = '\x7b' :: (pair "time" time ++ ',' :: ' ' :: (pair "level" level ++ ',' :: ' ' ::
        (pair "module" module ++ ',' :: ' ' :: (pair "message" message ++ ['\x7d'])))) := by
  -- The equation of the template is slow to make for simp.
  unfold render
  simp only [pair, quoted, String.toList_append, List.append_assoc, List.cons_append,
    List.nil_append]
  rfl

theorem ink_render : ink (render .json time level module message).toList
    = 47 + ink time.toList + ink level.toList + ink module.toList + ink message.toList := by
  have names : ink "time".toList = 4 ∧ ink "level".toList = 5 ∧ ink "module".toList = 6 ∧
      ink "message".toList = 7 := by decide
  simp only [toList_render, ink_cons, ink_append, ink_pair, ink_nil, names, mark, Char.reduceEq,
    if_false, if_true]
  omega

theorem membersPrice_told : 1 + membersPrice (told time level module message)
    = 47 + (time.toList.map price).sum + (level.toList.map price).sum
      + (module.toList.map price).sum + (message.toList.map price).sum := by
  have names : textPrice "time" = 6 ∧ textPrice "level" = 7 ∧ textPrice "module" = 8 ∧
      textPrice "message" = 9 := by decide
  simp only [membersPrice, told, memberPrice, leafPrice, List.map_cons, List.map_nil,
    List.sum_cons, List.sum_nil, names, textPrice_proper]
  omega

theorem parse?_render_bare (times : IsBare time) (levels : IsBare level) (modules : IsBare module)
    (messages : IsBare message) :
    parse? (render .json time level module message)
      = some (.object (told time level module message)) := by
  obtain ⟨n, enough⟩ : ∃ n, callBound (render .json time level module message).toList = n + 6 := by
    refine ⟨callBound (render .json time level module message).toList - 6, ?_⟩
    rw [toList_render, callBound, List.length_cons, List.length_append]
    simp only [List.length_cons]
    omega
  have last : members (n + 2) (pair "message" message ++ ['\x7d'])
      = some ([(.proper "message", .text message)], []) := members_pair_last (by decide) messages
  have fromModule := members_pair_more (k := "module") (by decide) modules last
  have fromLevel := members_pair_more (k := "level") (by decide) levels fromModule
  have all := members_pair_more (k := "time") (by decide) times fromLevel
  have read := value_object ⟨_, by rw [pair, quoted]; rfl⟩ all
  unfold parse?
  dsimp only
  rw [enough, toList_render, skip_of_head (by decide), read]
  rfl

theorem isBare_of_tells
    (h : Tells (render .json time level module message) time level module message) :
    IsBare time ∧ IsBare level ∧ IsBare module ∧ IsBare message := by
  obtain ⟨ms, read, times, levels, modules, messages⟩ := h
  have distinct : (told time level module message).Nodup := by
    have names : ((told time level module message).map Prod.fst).Nodup := by
      change (["time", "level", "module", "message"].map CodeText.proper).Nodup
      decide
    exact names.of_map Prod.fst
  have listed : told time level module message ⊆ ms := by
    simp only [told, List.cons_subset, List.nil_subset, and_true]
    exact ⟨mem_of_member? times, mem_of_member? levels, mem_of_member? modules,
      mem_of_member? messages⟩
  -- The four names differ, so each member is paid for by itself, and beside the template the line
  -- has only the ink of the bare texts.
  have paid := membersPrice_le_of_subset distinct listed
  have bound := object_ink read
  rw [ink_render] at bound
  have priced := @membersPrice_told time level module message
  have timeInk := ink_le_prices time.toList
  have levelInk := ink_le_prices level.toList
  have moduleInk := ink_le_prices module.toList
  have messageInk := ink_le_prices message.toList
  exact ⟨isPlain_of_prices_le (by omega), isPlain_of_prices_le (by omega),
    isPlain_of_prices_le (by omega), isPlain_of_prices_le (by omega)⟩

/-! Times and the names of the levels need no escapes. -/

theorem isBare_append_iff {s t : String} : IsBare (s ++ t) ↔ IsBare s ∧ IsBare t := by
  rw [IsBare, String.toList_append, List.forall_mem_append]
  rfl

theorem isPlain_of_isDigit {c : Char} (digit : c.isDigit = true) : isPlain c = true := by
  have apart (d : Char) (other : d.isDigit = false) : c ≠ d := ne_of_isDigit digit other
  have low : '0' ≤ c := (Bool.and_eq_true_iff.mp digit).1 |> of_decide_eq_true
  have shown : 0x30 ≤ c.toNat := low
  simp only [isPlain, ne_eq, decide_not, Bool.and_eq_true, Bool.not_eq_true',
    decide_eq_false_iff_not, decide_eq_true_eq]
  exact ⟨⟨apart _ rfl, apart _ rfl⟩, by omega⟩

theorem isBare_padded (width n : Nat) : IsBare (padded width n) := by
  intro c hc
  rw [padded, String.toList_ofList] at hc
  rcases List.mem_append.mp hc with zero | digit
  · rw [List.eq_of_mem_replicate zero]
    decide
  · exact isPlain_of_isDigit (Nat.isDigit_of_mem_toDigits (by decide) (by decide) digit)

theorem isBare_timeText (seconds : Int) : IsBare (timeText seconds) := by
  simp only [timeText, isBare_append_iff, isBare_padded, true_and, and_true]
  decide

theorem isBare_levelName (l : Level) : IsBare l.name := by
  cases l <;> decide

/-- A line tells its texts exactly if they can all stand between quotation marks as they are, and
then it holds nothing else. For the time and the level of a record that is always so. -/
theorem render_tells_iff (module message : String) :
    (∀ time level : String,
      (Tells (render .json time level module message) time level module message ↔
        IsBare time ∧ IsBare level ∧ IsBare module ∧ IsBare message) ∧
      (IsBare time ∧ IsBare level ∧ IsBare module ∧ IsBare message →
        parse? (render .json time level module message)
          = some (.object (told time level module message)))) ∧
    ∀ (seconds : Int) (level : Level),
      Tells (render .json (timeText seconds) level.name module message) (timeText seconds)
          level.name module message ↔
        IsBare module ∧ IsBare message := by
  have tells (time level : String) :
      Tells (render .json time level module message) time level module message ↔
        IsBare time ∧ IsBare level ∧ IsBare module ∧ IsBare message := by
    refine ⟨isBare_of_tells, ?_⟩
    rintro ⟨times, levels, modules, messages⟩
    exact ⟨_, parse?_render_bare times levels modules messages, rfl, rfl, rfl, rfl⟩
  refine ⟨fun time level => ⟨tells time level, ?_⟩, fun seconds level => ?_⟩
  · rintro ⟨times, levels, modules, messages⟩
    exact parse?_render_bare times levels modules messages
  · rw [tells]
    simp only [isBare_timeText, isBare_levelName, true_and]

/-- An apostrophe and a letter outside ASCII. -/
theorem render_tells_summer :
    Tells (render .json (timeText 1700000000) Level.warning.name "a.b" "l'été")
      (timeText 1700000000) Level.warning.name "a.b" "l'été" :=
  ((render_tells_iff "a.b" "l'été").2 1700000000 .warning).mpr (by decide)

/-- A message that quotes a word. -/
theorem render_quoting :
    let line := render .json (timeText 0) Level.info.name "m" "say \"hi\""
    (parse? line).isNone ∧ ¬ Tells line (timeText 0) Level.info.name "m" "say \"hi\"" := by
  refine ⟨by decide +kernel, ?_⟩
  intro tells
  exact absurd (isBare_of_tells tells).2.2.2 (by decide)

end LogLine

end EventEnvelope
