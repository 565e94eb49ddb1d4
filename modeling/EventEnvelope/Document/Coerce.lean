import EventEnvelope.Datum.Order
import EventEnvelope.Document.Numeral
import EventEnvelope.Fault

/-!
What a field accepts in place of the value it wants: numbers for flags and the reverse, numerals and
words as text or bytes. A coerced value is coerced to itself.
-/

namespace EventEnvelope.Coerce

def isWord (n : Int) : Bool := -0x8000000000000000 ≤ n && n < 0x8000000000000000

def integerOfText (s : String) : Except FaultKind Int :=
  match Numeral.ofFieldText? s with
  | none => .error .unreadableInteger
  | some numeral =>
    if Numeral.tooLong numeral then .error .integerTooLarge
    else match Numeral.plain? numeral with
      | some n => .ok n
      | none => .error .unreadableInteger

def integerOfReal (x : Binary64) : Except FaultKind Int :=
  if !x.isFinite then .error .notFinite
  else match x.toInt? with
    | none => .error .fractional
    | some n => if n.natAbs < 0x8000000000000000 then .ok n else .error .integerTooLarge

def integer : Datum → Except FaultKind Int
  | .flag b => .ok (if b then 1 else 0)
  | .number n => .ok n
  | .real x => integerOfReal x
  | .text t =>
    match t.content.proper? with
    | some s => integerOfText s
    | none => .error .brokenText
  | .bytes bs =>
    match Utf8.decode? bs with
    | some s => integerOfText s
    | none => .error .unreadableInteger
  | _ => .error .notInteger

def falseWords : List String := ["0", "off", "f", "false", "n", "no"]

def trueWords : List String := ["1", "on", "t", "true", "y", "yes"]

def flagOfText (s : String) : Except FaultKind Bool :=
  let word := String.ofList (s.toList.map Char.toLower)
  if trueWords.contains word then .ok true
  else if falseWords.contains word then .ok false
  else .error .unreadableFlag

def flagOfInteger (n : Int) : Except FaultKind Bool :=
  if n = 0 then .ok false else if n = 1 then .ok true else .error .unreadableFlag

def flag : Datum → Except FaultKind Bool
  | .flag b => .ok b
  | .number n => if isWord n then flagOfInteger n else .error .notFlag
  | .real x =>
    match integerOfReal x with
    | .ok n => flagOfInteger n
    | .error _ => .error .notFlag
  | .text t =>
    match t.content.proper? with
    | some s => flagOfText s
    | none => .error .brokenText
  | .bytes bs =>
    match Utf8.decode? bs with
    | some s => flagOfText s
    | none => .error .unreadableFlag
  | _ => .error .notFlag

def word? : Datum → Option String
  | .bytes bs => Utf8.decode? bs
  | d => d.proper?

/-- Why no member of a vocabulary was found. -/
def notFound (d : Datum) : FaultKind :=
  if d.content?.isSome && d.proper?.isNone then .brokenText else .notMember

def topic (d : Datum) : Except FaultKind Topic :=
  match (word? d).bind Topic.ofId? with
  | some t => .ok t
  | none => .error (notFound d)

def metadataKey (d : Datum) : Except FaultKind MetadataKey :=
  match (word? d).bind MetadataKey.ofId? with
  | some k => .ok k
  | none => .error (notFound d)

def sequence (d : Datum) : Except FaultKind (List Datum) :=
  match d.sequence? with
  | some xs => .ok xs
  | none => .error .notSequence

def value (f : Field) (d : Datum) : Except FaultKind Value :=
  match f.role with
  | .identity =>
    match d with
    | .text (.address a) => .ok (.address a)
    | _ => .error .wrongInstance
  | .text =>
    match d with
    | .text (.symbol s) => .ok (.symbol s)
    | _ => .error .wrongInstance
  | .flag => (flag d).map .flag
  | .number =>
    match integer d with
    | .ok n => if f.isCount && n < 0 then .error .tooSmall else .ok (.number n)
    | .error k => .error k

theorem fits_of_value {f : Field} {d : Datum} {v : Value} (h : value f d = .ok v) :
    f.fits v = true := by
  unfold value at h
  split at h
  case h_1 hr => split at h <;> cases h; simp [Field.fits, hr]
  case h_2 hr => split at h <;> cases h; simp [Field.fits, hr]
  case h_3 hr =>
    cases hf : flag d <;> simp [hf, Except.map] at h
    subst h; simp [Field.fits, hr]
  case h_4 hr =>
    split at h
    · split at h
      · cases h
      · cases h; simp_all [Field.fits]
        cases hc : f.isCount <;> simp_all
    · cases h

end EventEnvelope.Coerce
