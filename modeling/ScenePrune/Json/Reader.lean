import ScenePrune.Json.Basic
import ScenePrune.Text.Hexadecimal

/-!
# Reading JSON

Reading goes over the text once. A scanner cuts it into tokens, one character at a time, and a
stack of open brackets turns the tokens into a value, one token at a time. Both are folds, so they
end on every input; a text is read if the scanner is between tokens at the end and the stack is
empty.
-/

namespace ScenePrune.Json

inductive Token where
  | openArray
  | closeArray
  | openObject
  | closeObject
  | colon
  | comma
  | scalar (value : Json)

inductive Piece where
  | char (c : Char)
  | unit (n : Nat)

def isHigh (n : Nat) : Bool := 0xD800 ≤ n && n < 0xDC00

def isLow (n : Nat) : Bool := 0xDC00 ≤ n && n < 0xE000

/-- Joins the units of surrogate pairs; a unit without its partner stands for no text. -/
def joinPieces : List Piece → Option (List Char)
  | [] => some []
  | .char c :: rest => (joinPieces rest).map (c :: ·)
  | .unit high :: .unit low :: rest =>
    if isHigh high then
      if isLow low then
        (joinPieces rest).map
          (Char.ofNat (0x10000 + (high - 0xD800) * 0x400 + (low - 0xDC00)) :: ·)
      else none
    else if isLow high then none
    else (joinPieces (.unit low :: rest)).map (Char.ofNat high :: ·)
  | .unit n :: rest =>
    if isHigh n || isLow n then none else (joinPieces rest).map (Char.ofNat n :: ·)

def ofPieces (pieces : List Piece) : Json :=
  match joinPieces pieces with
  | some cs => string (String.ofList cs)
  | none => unreadable

inductive Scan where
  | between
  | word (chars : List Char)
  | inside (pieces : List Piece)
  | escaped (pieces : List Piece)
  /-- After the mark of an escaped unit, with the value of the digits so far and their number. -/
  | digits (pieces : List Piece) (value count : Nat)

def escapedChar? : Char → Option Char
  | '"' => some '"'
  | '\\' => some '\\'
  | '/' => some '/'
  | 'b' => some (Char.ofNat 8)
  | 'f' => some (Char.ofNat 12)
  | 'n' => some '\n'
  | 'r' => some '\r'
  | 't' => some '\t'
  | _ => none

def ofWord? (word : List Char) : Option Json :=
  match String.ofList word with
  | "null" => some null
  | "true" => some (bool true)
  | "false" => some (bool false)
  | _ => (Numeral.ofChars? word).map number

def isSpace (c : Char) : Bool := c = ' ' || c = '\n' || c = '\r' || c = '\t'

def punctuation? : Char → Option Token
  | '[' => some .openArray
  | ']' => some .closeArray
  | '\x7b' => some .openObject
  | '\x7d' => some .closeObject
  | ':' => some .colon
  | ',' => some .comma
  | _ => none

structure Scanner where
  scan : Scan := .between
  tokens : List Token := []

namespace Scanner

def emit (s : Scanner) (t : Token) : Scanner := { s with tokens := t :: s.tokens }

def endWord? (s : Scanner) : Option Scanner :=
  match s.scan with
  | .word chars => (ofWord? chars.reverse).map fun v => ⟨.between, .scalar v :: s.tokens⟩
  | .between => some s
  | _ => none

def outside (s : Scanner) (chars : List Char) (c : Char) : Option Scanner :=
  if isSpace c then s.endWord?
  else if c = '"' then s.endWord?.map fun s => { s with scan := .inside [] }
  else
    match punctuation? c with
    | some t => s.endWord?.map (·.emit t)
    | none => some { s with scan := .word (c :: chars) }

def step (s : Scanner) (c : Char) : Option Scanner :=
  match s.scan with
  | .between => s.outside [] c
  | .word chars => s.outside chars c
  | .inside pieces =>
    if c = '"' then some ⟨.between, .scalar (ofPieces pieces.reverse) :: s.tokens⟩
    else if c = '\\' then some { s with scan := .escaped pieces }
    else if c.toNat < 32 then none
    else some { s with scan := .inside (.char c :: pieces) }
  | .escaped pieces =>
    if c = 'u' then some { s with scan := .digits pieces 0 0 }
    else (escapedChar? c).map fun e => { s with scan := .inside (.char e :: pieces) }
  | .digits pieces value count =>
    (Text.hexValue? c).map fun d =>
      if count = 3 then { s with scan := .inside (.unit (16 * value + d) :: pieces) }
      else { s with scan := .digits pieces (16 * value + d) (count + 1) }

end Scanner

def tokens? (text : List Char) : Option (List Token) :=
  ((text.foldlM Scanner.step {}).bind Scanner.endWord?).map (·.tokens.reverse)

abbrev Members := List (Option String × Json)

/-- One name that stands for no text makes the object unreadable. -/
def ofMembers (members : Members) : Json :=
  match members.mapM fun (key?, value) => key?.map (·, value) with
  | some members => object members
  | none => unreadable

inductive Frame where
  | array (items : List Json)
  | object (members : Members) (key? : Option String)

inductive Expectation where
  | value (stack : List Frame)
  /-- A value, or the end of the array just opened. -/
  | itemOrEnd (stack : List Frame)
  /-- A name, or the end of the object just opened. -/
  | nameOrEnd (stack : List Frame)
  | name (members : Members) (stack : List Frame)
  | colon (members : Members) (key? : Option String) (stack : List Frame)
  /-- A value is complete: a comma, the end of what holds it, or the end of the text. -/
  | complete (value : Json) (stack : List Frame)

namespace Expectation

def takeValue (stack : List Frame) : Token → Option Expectation
  | .scalar v => some (.complete v stack)
  | .openArray => some (.itemOrEnd stack)
  | .openObject => some (.nameOrEnd stack)
  | _ => none

def takeName (members : Members) (stack : List Frame) : Token → Option Expectation
  | .scalar (.string key) => some (.colon members (some key) stack)
  | .scalar .unreadable => some (.colon members none stack)
  | _ => none

def step (e : Expectation) (t : Token) : Option Expectation :=
  match e, t with
  | .value stack, t => takeValue stack t
  | .itemOrEnd stack, .closeArray => some (.complete (.array []) stack)
  | .itemOrEnd stack, t => takeValue (.array [] :: stack) t
  | .nameOrEnd stack, .closeObject => some (.complete (.object []) stack)
  | .nameOrEnd stack, t => takeName [] stack t
  | .name members stack, t => takeName members stack t
  | .colon members key? stack, .colon => some (.value (.object members key? :: stack))
  | .complete v (.array items :: stack), .comma => some (.value (.array (v :: items) :: stack))
  | .complete v (.array items :: stack), .closeArray =>
    some (.complete (.array (v :: items).reverse) stack)
  | .complete v (.object members key? :: stack), .comma =>
    some (.name ((key?, v) :: members) stack)
  | .complete v (.object members key? :: stack), .closeObject =>
    some (.complete (ofMembers ((key?, v) :: members).reverse) stack)
  | _, _ => none

end Expectation

def ofTokens? (tokens : List Token) : Option Json :=
  match tokens.foldlM Expectation.step (.value []) with
  | some (.complete v []) => some v
  | _ => none

def parse? (text : String) : Option Json := (tokens? text.toList).bind ofTokens?

end ScenePrune.Json
