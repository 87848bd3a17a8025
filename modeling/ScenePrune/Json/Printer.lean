import ScenePrune.Json.Basic
import ScenePrune.Text.Hexadecimal

/-!
# Writing JSON

Two layouts: compact, and indented by two blanks per level. Strings escape quotes, backslashes and
the characters below the blank, and nothing else.
-/

namespace ScenePrune.Json

def escape (c : Char) : String :=
  match c with
  | '"' => "\\\""
  | '\\' => "\\\\"
  | '\n' => "\\n"
  | '\r' => "\\r"
  | '\t' => "\\t"
  | c =>
    if c.toNat = 8 then "\\b"
    else if c.toNat = 12 then "\\f"
    else if c.toNat < 32 then "\\u" ++ Text.hexDigits 4 c.toNat
    else c.toString

def quoted (s : String) : String := "\"" ++ String.join (s.toList.map escape) ++ "\""

def brackets (opening closing : String) (items : List String) : String :=
  opening ++ ",".intercalate items ++ closing

mutual

def compact : Json → String
  | null => "null"
  | bool value => if value then "true" else "false"
  | number value => value.text
  | string text => quoted text
  | unreadable => "null"
  | array items => brackets "[" "]" (compactItems items)
  | object members => brackets "\x7b" "\x7d" (compactMembers members)

def compactItems : List Json → List String
  | [] => []
  | item :: rest => compact item :: compactItems rest

def compactMembers : List (String × Json) → List String
  | [] => []
  | (name, value) :: rest => (quoted name ++ ":" ++ compact value) :: compactMembers rest

end

def block (opening closing : String) (depth : Nat) (items : List String) : String :=
  let line (depth : Nat) : String := "\n" ++ String.join (List.replicate depth "  ")
  if items.isEmpty then opening ++ closing
  else opening ++ ",".intercalate (items.map (line (depth + 1) ++ ·)) ++ line depth ++ closing

mutual

def prettyAt (depth : Nat) : Json → String
  | array items => block "[" "]" depth (prettyItems (depth + 1) items)
  | object members => block "\x7b" "\x7d" depth (prettyMembers (depth + 1) members)
  | scalar => compact scalar

def prettyItems (depth : Nat) : List Json → List String
  | [] => []
  | item :: rest => prettyAt depth item :: prettyItems depth rest

def prettyMembers (depth : Nat) : List (String × Json) → List String
  | [] => []
  | (name, value) :: rest =>
    (quoted name ++ ": " ++ prettyAt depth value) :: prettyMembers depth rest

end

def pretty (value : Json) : String := prettyAt 0 value

end ScenePrune.Json
