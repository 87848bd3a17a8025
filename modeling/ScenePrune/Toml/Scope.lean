import ScenePrune.Toml.Key

/-!
# Names in use

A path from the root has one meaning in a document. It also has one form: a name is written as it
stood in the key that brought it in, and every later key that leads along the path has that form
too. A `Scope` knows the paths in use and the forms of their names.
-/

namespace ScenePrune.Toml

inductive Origin where
  | value
  /-- A table that a dotted key mentions. -/
  | dotted
  /-- A table that a longer header mentions. -/
  | implied
  | header
  | repeated
deriving DecidableEq

structure Entry where
  origin : Origin
  /-- The place of its last name among the forms. -/
  form : Nat

structure Scope where
  entries : List (List String × Entry) := []
  forms : Array KeyName := #[]
  table : List String := []

namespace Scope

abbrev Update := StateT Scope Option

def entry? (path : List String) : Update (Option Entry) := return (← get).entries.lookup path

def declare (origin : Origin) (path : List String) (name : KeyName) : Update Nat := do
  let s ← get
  let form := s.forms.size
  set { s with entries := (path, ⟨origin, form⟩) :: s.entries, forms := s.forms.push name }
  return form

/-- Declares a path, unless it is in use with an origin that goes on. -/
def enter (origin : Origin) (goesOn : Origin → Bool) (path : List String) (name : KeyName) :
    Update Nat := do
  match ← entry? path with
  | none => declare origin path name
  | some e => if goesOn e.origin then return e.form else failure

def introduce (path : List String) (name : KeyName) : Update Nat := do
  match ← entry? path with
  | none => declare .header path name
  | some ⟨.implied, form⟩ =>
    modify fun s => { s with
      entries := (path, ⟨.header, form⟩) :: s.entries
      forms := s.forms.setIfInBounds form name }
    return form
  | some _ => failure

/-- Adds a table to an array. It begins without the names of the one before. -/
def append (path : List String) (name : KeyName) : Update Nat := do
  match ← entry? path with
  | none => declare .repeated path name
  | some ⟨.repeated, form⟩ =>
    modify fun s => { s with
      entries := s.entries.filter fun (p, _) => p = path || !path.isPrefixOf p }
    return form
  | some _ => failure

def follow (pass finish : List String → KeyName → Update Nat) (table : List String) :
    Key → Update (List Nat)
  | [] => failure
  | [n] => return [← finish (table ++ [n.name]) n]
  | n :: rest => do
    let path := table ++ [n.name]
    let form ← pass path n
    return form :: (← follow pass finish path rest)

def assign (key : Key) : Update (List Nat) := do
  follow (enter .dotted (· = .dotted)) (enter .value fun _ => false) (← get).table key

def goTo (repeats : Bool) (key : Key) : Update (List Nat) := do
  let forms ← follow (enter .implied (· ≠ .value)) (if repeats then append else introduce) [] key
  modify fun s => { s with table := key.path }
  return forms

end Scope

end ScenePrune.Toml
