import ScenePrune.Toml.Token

/-!
# TOML keys

A key is a list of names parted by points. A name keeps how it is written: its own text and the
blanks next to it. The blanks at the two ends of a key belong to its last name.
-/

namespace ScenePrune.Toml

structure Margins where
  before : String := ""
  after : String := ""
deriving DecidableEq, Repr

structure KeyName where
  name : String
  /-- The name as it is written, quotes included. -/
  text : String
  /-- The blanks between the name and the points next to it. -/
  inner : Margins := {}
  /-- The blanks around a key that ends in the name. -/
  outer : Margins := {}
deriving DecidableEq, Repr

abbrev Key := List KeyName

namespace Key

def path (key : Key) : List String := key.map (·.name)

def joined : Key → String
  | [] => ""
  | [n] => n.text
  | n :: next :: rest =>
    n.text ++ n.inner.after ++ "." ++ next.inner.before ++ joined (next :: rest)

def text (key : Key) : String :=
  match key.getLast? with
  | none => ""
  | some last => last.outer.before ++ joined key ++ last.outer.after

end Key

/-! ### Reading -/

def maxNames : Nat := 80

def isBareKey (text : String) : Bool := text.all (· ≠ '+')

def nameOf? : Token → Option (String × String)
  | .word text => if isBareKey text then some (text, text) else none
  | .quoted source value => some (value, source)
  | _ => none

def takeBlank : List Token → String × List Token
  | .blank text :: rest => (text, rest)
  | tokens => ("", tokens)

def keyName? (tokens : List Token) : Option KeyName := do
  let (before, tokens) := takeBlank tokens
  let (after, tokens) := takeBlank tokens.reverse
  match tokens with
  | [token] =>
    let (name, text) ← nameOf? token
    return { name, text, inner := { before, after } }
  | _ => none

def atPoints : List Token → List (List Token)
  | [] => [[]]
  | t :: rest =>
    match t, atPoints rest with
    | .mark '.', parts => [] :: parts
    | t, part :: parts => (t :: part) :: parts
    | t, [] => [[t]]

def key? (tokens : List Token) : Option Key := do
  let (before, tokens) := takeBlank tokens
  let (after, tokens) := takeBlank tokens.reverse
  let names ← (atPoints tokens.reverse).mapM keyName?
  match names.getLast? with
  | none => none
  | some last =>
    if names.length ≤ maxNames then
      return names.dropLast ++ [{ last with outer := { before, after } }]
    else none

end ScenePrune.Toml
