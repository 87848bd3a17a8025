import ScenePrune.Decimal.Shortest

/-!
# JSON values

A value keeps what its text says: the members of an object in their order, repeated names
included, and numbers as they are written.
-/

namespace ScenePrune

inductive Json where
  | null
  | bool (value : Bool)
  | number (value : Numeral)
  | string (text : String)
  /-- A string, or an object with a name, that holds half of a surrogate pair. It stands for no text
  and can be passed over, but not read. -/
  | unreadable
  | array (items : List Json)
  | object (members : List (String × Json))

namespace Json

instance : Inhabited Json := ⟨null⟩

def ofNat (n : Nat) : Json := number (.ofNat n)

def ofId (id : UInt32) : Json := ofNat id.toNat

def ofFloat (x : Float) : Json :=
  match Decimal.ofFloat? x with
  | some n => number n
  | none => null

def ofOption {α : Type} (f : α → Json) : Option α → Json
  | none => null
  | some a => f a

def ofList {α : Type} (f : α → Json) (l : List α) : Json := array (l.map f)

end Json

end ScenePrune
