import EventEnvelope.Datum
import EventEnvelope.Number.Shortest
import EventEnvelope.Text.Quoted

/-!
How values appear in messages: the inspected form shows kind and quotes, the plain form gives a
text its own characters.
-/

namespace EventEnvelope

namespace Text

/-- A member of a closed vocabulary shows the vocabulary, the member and its identifier. -/
def member (vocabulary name id : String) : String :=
  "<" ++ vocabulary ++ "." ++ name ++ ": " ++ Quoted.text id ++ ">"

def inspect : Text → String
  | plain s => Quoted.text s
  | address a => "Address(" ++ Quoted.text a.text ++ ")"
  | symbol s => "Symbol(" ++ Quoted.text s.text ++ ")"
  | topic t => member "Topic" t.name t.id
  | key k => member "MetadataKey" k.name k.id
  | group g => member "TopicGroup" g.name g.id
  | foreign f => f.inspected

def typeName : Text → String
  | plain _ => "str"
  | address _ => "Address"
  | symbol _ => "Symbol"
  | topic _ => "Topic"
  | key _ => "MetadataKey"
  | group _ => "TopicGroup"
  | foreign f => f.className

end Text

namespace Datum

def flagText (b : Bool) : String := if b then "True" else "False"

def numberText (n : Int) : String :=
  String.ofList (if n < 0 then '-' :: Nat.toDigits 10 n.natAbs else Nat.toDigits 10 n.natAbs)

/-- The number of digits beyond which a number is not written out. -/
def longestNumber : Nat := 4300

def isWritableNumber (n : Int) : Bool := n.natAbs < Nat.pow 10 longestNumber

def between (opening closing : String) (parts : List String) : String :=
  opening ++ String.intercalate ", " parts ++ closing

end Datum

def Value.inspect : Value → String
  | flag b => Datum.flagText b
  | number n => Datum.numberText n
  | symbol s => (Text.symbol s).inspect
  | address a => (Text.address a).inspect

def Value.isWritable : Value → Bool
  | number n => Datum.isWritableNumber n
  | _ => true

namespace LegacyStruct

def fieldTexts (s : LegacyStruct) : List String :=
  s.entries.map fun e => e.1.name ++ "=" ++ e.2.inspect

def inspect (s : LegacyStruct) : String := Datum.between (s.kind.name ++ "(") ")" s.fieldTexts

end LegacyStruct

namespace Datum

mutual

/-- Whether every number in a value is short enough to be written out. -/
def isWritable : Datum → Bool
  | number n => isWritableNumber n
  | list xs | tuple xs | set xs => areWritable xs
  | map es => areEntriesWritable es
  | struct s => s.values.all Value.isWritable
  | _ => true

def areWritable : List Datum → Bool
  | [] => true
  | x :: r => isWritable x && areWritable r

def areEntriesWritable : List (Datum × Datum) → Bool
  | [] => true
  | (k, v) :: r => isWritable k && isWritable v && areEntriesWritable r

end

mutual

def inspect : Datum → String
  | null => "None"
  | flag b => flagText b
  | number n => numberText n
  | real x => x.text
  | text t => t.inspect
  | bytes bs => Quoted.bytes bs
  | list xs => between "[" "]" (inspectAll xs)
  | tuple xs =>
    match inspectAll xs with
    | [x] => "(" ++ x ++ ",)"
    | parts => between "(" ")" parts
  | set xs =>
    match inspectAll xs with
    | [] => "set()"
    | parts => between "\x7b" "\x7d" parts
  | map es => between "\x7b" "\x7d" (inspectEntries es)
  | struct s => s.inspect
  | ext code bs => "ExtType(code=" ++ numberText code ++ ", data=" ++ Quoted.bytes bs ++ ")"
  | timestamp s n =>
    "Timestamp(seconds=" ++ numberText s ++ ", nanoseconds=" ++ numberText n ++ ")"

def inspectAll : List Datum → List String
  | [] => []
  | x :: r => inspect x :: inspectAll r

def inspectEntries : List (Datum × Datum) → List String
  | [] => []
  | (k, v) :: r => (inspect k ++ ": " ++ inspect v) :: inspectEntries r

end

/-- The plain form: a text reads as itself, a struct as its fields. -/
def display : Datum → CodeText
  | text t => t.shown
  | struct s => String.intercalate " " s.fieldTexts
  | d => d.inspect

def typeName : Datum → String
  | null => "NoneType"
  | flag _ => "bool"
  | number _ => "int"
  | real _ => "float"
  | text t => t.typeName
  | bytes _ => "bytes"
  | list _ => "list"
  | tuple _ => "tuple"
  | set _ => "set"
  | map _ => "dict"
  | struct s => s.kind.name
  | ext _ _ => "ExtType"
  | timestamp _ _ => "Timestamp"

end Datum

end EventEnvelope
