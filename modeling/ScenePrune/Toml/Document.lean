import ScenePrune.Toml.Scope
import ScenePrune.Toml.Value

/-!
# TOML documents

A document is a list of statements with their texts: assignments, table headers, and the blank
lines and comments between them. The root table is what stands before the first header.
`Document.extendRoot` adds lines to it and leaves all other text as it is.
-/

namespace ScenePrune.Toml

inductive Statement where
  | trivia
  | assign (value : Value)
  /-- The header of a table, or of one more table in an array of tables. -/
  | header (repeats : Bool)

structure Line where
  statement : Statement
  lead : String := ""
  key : Key := []
  rest : String

namespace Line

def text (line : Line) : String := line.lead ++ line.key.text ++ line.rest

def isHeader (line : Line) : Bool :=
  match line.statement with
  | .header _ => true
  | _ => false

def isAssignment (line : Line) : Bool :=
  match line.statement with
  | .assign _ => true
  | _ => false

def declare (line : Line) : Scope.Update (List Nat) :=
  match line.statement with
  | .trivia => return []
  | .assign _ => Scope.assign line.key
  | .header repeats => Scope.goTo repeats line.key

end Line

/-! ### Reading lines -/

def joinTexts (tokens : List Token) : String := String.join (tokens.map (·.text))

/-- Reads a header from its key on. It has as many closing brackets as opening ones, and those of an
array of tables touch. -/
def header? (brackets : Nat) (tokens : List Token) : Option Line := do
  let inside := tokens.takeWhile (· ≠ .mark ']')
  let after := tokens.drop inside.length
  let key ← key? inside
  if after.take brackets = List.replicate brackets (.mark ']') &&
      (after.drop brackets).all (·.isTrivia) then
    return { statement := .header (brackets = 2), key, rest := joinTexts after }
  else none

def assignment? (tokens : List Token) : Option Line := do
  let name := tokens.takeWhile (· ≠ .mark '=')
  let rest := tokens.drop name.length
  let key ← key? name
  let value ← value? (rest.drop 1)
  return { statement := .assign value, key, rest := joinTexts rest }

def line? (tokens : List Token) : Option Line :=
  let (blank, inner) := takeBlank tokens
  let ended (line : Line) : Line :=
    { line with rest := if tokens.getLast? = some .newline then line.rest else line.rest ++ "\n" }
  match inner with
  | .mark '[' :: .mark '[' :: rest =>
    (header? 2 rest).map fun line => ended { line with lead := blank ++ "[[" }
  | .mark '[' :: rest => (header? 1 rest).map fun line => ended { line with lead := blank ++ "[" }
  | _ =>
    if tokens.all (·.isTrivia) then some { statement := .trivia, rest := joinTexts tokens }
    else (assignment? tokens).map ended

structure Division where
  finished : List (List Token) := []
  current : List Token := []
  assigned : Bool := false
  depth : Nat := 0

namespace Division

def add (d : Division) (t : Token) : Division :=
  let current := t :: d.current
  match t with
  | .newline =>
    if d.depth = 0 then { finished := current.reverse :: d.finished } else { d with current }
  | .mark '=' => { d with current, assigned := true }
  | .mark '[' => { d with current, depth := if d.assigned then d.depth + 1 else d.depth }
  | .mark ']' => { d with current, depth := d.depth - 1 }
  | _ => { d with current }

def statements (d : Division) : List (List Token) :=
  (if d.current.isEmpty then d.finished else d.current.reverse :: d.finished).reverse

end Division

/-! ### Documents -/

structure Document where
  lines : List Line

namespace Document

/-- Gives every name its form, and refuses lines that give a path two meanings. -/
def ofLines? (lines : List Line) : Option Document := do
  let (places, scope) ← (lines.mapM Line.declare).run {}
  return ⟨lines.zipWith (fun line places =>
    { line with key := places.filterMap (scope.forms[·]?) }) places⟩

def parse? (text : String) : Option Document := do
  let tokens ← tokens? text
  ofLines? (← (tokens.foldl Division.add {}).statements.mapM line?)

def render (d : Document) : String := String.join (d.lines.map (·.text))

def root (d : Document) : List Line := d.lines.takeWhile (!·.isHeader)

def rootEntries (d : Document) : List (String × Option Value) :=
  let ofRoot := d.root.filterMap fun line =>
    match line.key.path, line.statement with
    | [name], .assign value => some (name, some value)
    | name :: _, .assign _ => some (name, none)
    | _, _ => none
  let ofHeaders := (d.lines.filter (·.isHeader)).filterMap fun line =>
    line.key.path.head?.map (·, none)
  ofRoot ++ ofHeaders

/-- Adds lines after the last assignment of the root table, or at the start if it has none. -/
def extendRoot (d : Document) (texts : List String) : Document :=
  let before := (d.root.reverse.dropWhile (!·.isAssignment)).reverse
  let added := texts.map fun text => { statement := .trivia, rest := text }
  ⟨before ++ added ++ d.lines.drop before.length⟩

end Document

end ScenePrune.Toml
