import ScenePrune.Json.Basic

/-!
# Records in JSON

A record is an object with known members, or an array that lists the members in their order. In an
object unknown names are passed over and a known name may not repeat; an array may end early but
not go on. What a missing member means is for the reader of the record to say.
-/

namespace ScenePrune.Json

def bool? : Json → Option Bool
  | bool value => some value
  | _ => none

def string? : Json → Option String
  | string text => some text
  | _ => none

def nat? : Json → Option Nat
  | number n => n.nat?
  | _ => none

def id? (j : Json) : Option UInt32 :=
  (j.nat?.filter (· < UInt32.size)).map UInt32.ofNat

def float? : Json → Option Float
  | number n => n.float?
  | _ => none

def list? {α : Type} (f : Json → Option α) : Json → Option (List α)
  | array items => items.mapM f
  | _ => none

def nullable? {α : Type} (f : Json → Option α) : Json → Option (Option α)
  | null => some none
  | j => (f j).map some

def members? : Json → Option (List (String × Json))
  | object members => some members
  | _ => none

/-- The value of a name in an object, `some none` if the name is absent, and `none` if it
repeats. -/
def single? (members : List (String × Json)) (name : String) : Option (Option Json) :=
  match members.filter (·.1 = name) with
  | [] => some none
  | [(_, value)] => some (some value)
  | _ => none

def record? (names : List String) : Json → Option (List (Option Json))
  | object members => names.mapM (single? members)
  | array items =>
    if items.length ≤ names.length then
      some (items.map some ++ List.replicate (names.length - items.length) none)
    else none
  | _ => none

def required? {α : Type} (f : Json → Option α) (j? : Option Json) : Option α := j?.bind f

def orDefault? {α : Type} (f : Json → Option α) (default : α) : Option Json → Option α
  | none => some default
  | some j => f j

end ScenePrune.Json
