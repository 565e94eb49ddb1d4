import EventEnvelope.Failure

/-!
Binding arguments to parameters: by position first, then by name. Each parameter takes at most one
argument, and only those that may be left out can lack one.
-/

namespace EventEnvelope

structure Parameter where
  name : String
  required : Bool
deriving DecidableEq, Repr

abbrev Bound := List (String × Datum)

namespace Arguments

def bind (params : List Parameter) (positional : List Datum) (named : List (String × Datum)) :
    Except Failure Bound :=
  let names := params.map Parameter.name
  let free := names.drop positional.length
  let bound := names.zip positional ++ named
  if names.length < positional.length then .error (.misuse .arguments)
  else if named.any fun a => !free.contains a.1 then .error (.misuse .arguments)
  else if params.any fun p => p.required && !(bound.any fun a => a.1 == p.name) then
    .error (.misuse .arguments)
  else .ok bound

/-- The argument of a parameter; one left out is absent. -/
def get (bound : Bound) (name : String) : Datum :=
  match bound.find? fun a => a.1 == name with
  | some a => a.2
  | none => .null

end Arguments

end EventEnvelope
