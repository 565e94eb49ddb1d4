import EventEnvelope.Datum.Order
import EventEnvelope.Failure

/-!
JSON trees, and the tags that let them carry typed values: an object whose only member is an address
or symbol tag stands for the tagged value, at any depth.
-/

namespace EventEnvelope

inductive Json
  | null
  | flag (b : Bool)
  | integer (n : Int)
  | real (x : Binary64)
  | text (s : CodeText)
  | array (xs : List Json)
  | object (members : List (CodeText × Json))

namespace Json

def addressTag : String := "$addr"

def symbolTag : String := "$sym"

/-- The value of an object, given its members. A tagged value is what the tag's text shows. -/
def untag : List (Datum × Datum) → Datum
  | [(k, v)] =>
    if k.content? = some (.proper addressTag) then .address ⟨v.display⟩
    else if k.content? = some (.proper symbolTag) then .symbol ⟨v.display⟩
    else .map [(k, v)]
  | es => .map es

mutual

/-- The value that a tree stands for. Of repeated member names the last counts. -/
def toDatum : Json → Datum
  | null => .null
  | flag b => .flag b
  | integer n => .number n
  | real x => .real x
  | text s => .plain s
  | array xs => .list (toData xs)
  | object ms => untag (Datum.ofEntries (toEntries ms))

def toData : List Json → List Datum
  | [] => []
  | j :: r => toDatum j :: toData r

def toEntries : List (CodeText × Json) → List (Datum × Datum)
  | [] => []
  | (k, j) :: r => (.plain k, toDatum j) :: toEntries r

end

def tagged : Text → Datum
  | .address a => .map [(.plain addressTag, .plain a.text)]
  | .symbol s => .map [(.plain symbolTag, .plain s.text)]
  | .foreign f =>
    match f.value with
    | some s => .plain s
    | none => .text (.foreign f)
  | t => .plain t.content

mutual

/-- A value with tags in place of typed texts, and text in place of every other key. -/
def image : Datum → Datum
  | .text t => tagged t
  | .list xs => .list (images xs)
  | .tuple xs => .list (images xs)
  | .ext code bs => .list [.number code, .bytes bs]
  | .map es => .map (Datum.ofEntries (imageEntries es))
  | d => d

def images : List Datum → List Datum
  | [] => []
  | d :: r => image d :: images r

def imageEntries : List (Datum × Datum) → List (Datum × Datum)
  | [] => []
  | (k, v) :: r => (.plain (image k).display, image v) :: imageEntries r

end

mutual

/-- The tree of an image; bytes, sets, structs and times have none. -/
def ofImage? : Datum → Option Json
  | .null => some null
  | .flag b => some (flag b)
  | .number n => some (integer n)
  | .real x => some (real x)
  | .text t => some (text t.content)
  | .list xs => (ofImages? xs).map array
  | .map es => (ofImageEntries? es).map object
  | _ => none

def ofImages? : List Datum → Option (List Json)
  | [] => some []
  | d :: r =>
    match ofImage? d, ofImages? r with
    | some j, some js => some (j :: js)
    | _, _ => none

def ofImageEntries? : List (Datum × Datum) → Option (List (CodeText × Json))
  | [] => some []
  | (k, v) :: r =>
    match k.content?, ofImage? v, ofImageEntries? r with
    | some s, some j, some ms => some ((s, j) :: ms)
    | _, _, _ => none

end

def ofDatum (d : Datum) : Except Failure Json :=
  match ofImage? (image d) with
  | some j => .ok j
  | none => .error (.misuse .notRenderable)

end Json

end EventEnvelope
