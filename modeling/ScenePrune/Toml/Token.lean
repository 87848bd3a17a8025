import ScenePrune.Text.Hexadecimal

/-!
# Cutting TOML into tokens

Tokens keep the text they were read from, so that a document can be written back as it was, except
that a line always ends in a line feed alone and that a byte order mark at the start is dropped.
Reading is a fold over the characters.
-/

namespace ScenePrune.Toml

inductive Token where
  | blank (text : String)
  | comment (text : String)
  | newline
  /-- A bare run of letters, digits, dashes, underscores and plus signs. -/
  | word (text : String)
  /-- A string between quotes as it is written, and what it says. -/
  | quoted (source value : String)
  /-- A bracket, an equals sign, a comma or a point. -/
  | mark (c : Char)
deriving DecidableEq, Repr

namespace Token

def text : Token → String
  | blank text | comment text | word text => text
  | newline => "\n"
  | quoted source _ => source
  | mark c => c.toString

def isTrivia : Token → Bool
  | blank _ | comment _ | newline => true
  | _ => false

end Token

def apostrophe : Char := Char.ofNat 39

def isBlank (c : Char) : Bool := c = ' ' || c = '\t'

def isWordChar (c : Char) : Bool := c.isAlphanum || c = '_' || c = '-' || c = '+'

def isMark (c : Char) : Bool := c = '[' || c = ']' || c = '=' || c = ',' || c = '.'

/-- Comments and strings hold any character but the control characters; a tab is let in. -/
def isTextChar (c : Char) : Bool := c = '\t' || 32 ≤ c.toNat && c.toNat ≠ 127

def escapedChar? : Char → Option Char
  | 'b' => some (Char.ofNat 8)
  | 'e' => some (Char.ofNat 27)
  | 't' => some '\t'
  | 'n' => some '\n'
  | 'f' => some (Char.ofNat 12)
  | 'r' => some '\r'
  | '"' => some '"'
  | '\\' => some '\\'
  | _ => none

def escapeLength? : Char → Option Nat
  | 'x' => some 2
  | 'u' => some 4
  | 'U' => some 8
  | _ => none

def charOf? (n : Nat) : Option Char := if n.isValidChar then some (Char.ofNat n) else none

/-- Where the scanner is. Characters are held newest first, and in a basic string those of the
source come with those of the value. -/
inductive Scan where
  | between
  | blank (chars : List Char)
  | comment (chars : List Char)
  | word (chars : List Char)
  | literal (chars : List Char)
  | basic (source value : List Char)
  | escaped (source value : List Char)
  /-- In an escape by number: the digits to come, and the value of those before. -/
  | digits (source value : List Char) (left code : Nat)
  /-- After a carriage return, which only a line feed may follow. -/
  | carriage

structure Scanner where
  scan : Scan := .between
  /-- Newest first. -/
  tokens : List Token := []

namespace Scanner

def textOf (chars : List Char) : String := String.ofList chars.reverse

def emit (s : Scanner) (t : Token) : Scanner := ⟨.between, t :: s.tokens⟩

def finish? (s : Scanner) : Option Scanner :=
  match s.scan with
  | .between => some s
  | .blank chars => some (s.emit (.blank (textOf chars)))
  | .comment chars => some (s.emit (.comment (textOf chars)))
  | .word chars => some (s.emit (.word (textOf chars)))
  | _ => none

def start? (s : Scanner) (c : Char) : Option Scanner :=
  if isBlank c then some { s with scan := .blank [c] }
  else if c = '\n' then some (s.emit .newline)
  else if c = '\r' then some { s with scan := .carriage }
  else if c = '#' then some { s with scan := .comment [c] }
  else if c = '"' then some { s with scan := .basic [c] [] }
  else if c = apostrophe then some { s with scan := .literal [c] }
  else if isWordChar c then some { s with scan := .word [c] }
  else if isMark c then some (s.emit (.mark c))
  else none

def startNext? (s : Scanner) (c : Char) : Option Scanner := s.finish?.bind (·.start? c)

def stepBasic? (s : Scanner) (source value : List Char) (c : Char) : Option Scanner :=
  if c = '"' then some (s.emit (.quoted (textOf (c :: source)) (textOf value)))
  else if c = '\\' then some { s with scan := .escaped (c :: source) value }
  else if isTextChar c then some { s with scan := .basic (c :: source) (c :: value) }
  else none

def stepEscaped? (s : Scanner) (source value : List Char) (c : Char) : Option Scanner :=
  match escapeLength? c with
  | some left => some { s with scan := .digits (c :: source) value left 0 }
  | none => (escapedChar? c).map fun e => { s with scan := .basic (c :: source) (e :: value) }

def stepDigits? (s : Scanner) (source value : List Char) (left code : Nat) (c : Char) :
    Option Scanner :=
  (Text.hexValue? c).bind fun d =>
    let code := 16 * code + d
    if left = 1 then
      (charOf? code).map fun e => { s with scan := .basic (c :: source) (e :: value) }
    else some { s with scan := .digits (c :: source) value (left - 1) code }

def step? (s : Scanner) (c : Char) : Option Scanner :=
  match s.scan with
  | .between => s.start? c
  | .blank chars => if isBlank c then some { s with scan := .blank (c :: chars) } else s.startNext? c
  | .comment chars =>
    if c = '\n' || c = '\r' then s.startNext? c
    else if isTextChar c then some { s with scan := .comment (c :: chars) }
    else none
  | .word chars =>
    if isWordChar c then some { s with scan := .word (c :: chars) } else s.startNext? c
  | .literal chars =>
    if c = apostrophe then
      some (s.emit (.quoted (textOf (c :: chars)) (String.ofList (chars.reverse.drop 1))))
    else if isTextChar c then some { s with scan := .literal (c :: chars) }
    else none
  | .basic source value => s.stepBasic? source value c
  | .escaped source value => s.stepEscaped? source value c
  | .digits source value left code => s.stepDigits? source value left code c
  | .carriage => if c = '\n' then some (s.emit .newline) else none

end Scanner

def characters (text : String) : List Char :=
  match text.toList with
  | '\ufeff' :: cs => cs
  | cs => cs

def tokens? (text : String) : Option (List Token) :=
  (((characters text).foldlM Scanner.step? {}).bind Scanner.finish?).map (·.tokens.reverse)

end ScenePrune.Toml
