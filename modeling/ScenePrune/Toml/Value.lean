import ScenePrune.Toml.Token

/-!
# TOML values

Values are strings, booleans, integers of 64 bits, and arrays, which may go over several lines.
Reading a value is a fold over its tokens with a stack of the arrays that are still open.
-/

namespace ScenePrune.Toml

inductive Value where
  | string (text : String)
  | bool (value : Bool)
  | integer (value : Int)
  | array (items : List Value)

/-- Digits of the given base, which single underscores may part. -/
def digitsValue? (base : Nat) (s : List Char) : Option Nat :=
  let groups := (String.ofList s).splitOn "_"
  if groups.any (·.isEmpty) then none
  else
    (s.filter (· ≠ '_')).foldlM (fun n c =>
      (Text.hexValue? c).bind fun d => if d < base then some (base * n + d) else none) 0

def unsigned? (s : List Char) : Option Nat :=
  match s with
  | ['0'] => some 0
  | '0' :: _ => none
  | _ => digitsValue? 10 s

def integer? (s : List Char) : Option Int :=
  let value? : Option Int :=
    match s with
    | '0' :: 'x' :: s => (digitsValue? 16 s).map fun n => n
    | '0' :: 'o' :: s => (digitsValue? 8 s).map fun n => n
    | '0' :: 'b' :: s => (digitsValue? 2 s).map fun n => n
    | '-' :: s => (unsigned? s).map fun n => -n
    | '+' :: s => (unsigned? s).map fun n => n
    | s => (unsigned? s).map fun n => n
  value?.filter fun n => Int64.minValue.toInt ≤ n && n ≤ Int64.maxValue.toInt

def scalar? : Token → Option Value
  | .quoted _ value => some (.string value)
  | .word "true" => some (.bool true)
  | .word "false" => some (.bool false)
  | .word text => (integer? text.toList).map .integer
  | _ => none

abbrev Frames := List (List Value)

def maxNesting : Nat := 80

inductive Expectation where
  | value (frames : Frames)
  | valueOrEnd (frames : Frames)
  | complete (value : Value) (frames : Frames)

def Expectation.step? (e : Expectation) (t : Token) : Option Expectation :=
  match e, t with
  | .complete v (items :: frames), .mark ',' => some (.valueOrEnd ((v :: items) :: frames))
  | .complete v (items :: frames), .mark ']' =>
    some (.complete (.array (v :: items).reverse) frames)
  | .complete .., _ => none
  | .valueOrEnd (items :: frames), .mark ']' => some (.complete (.array items.reverse) frames)
  | .value frames, .mark '[' | .valueOrEnd frames, .mark '[' =>
    if frames.length < maxNesting then some (.valueOrEnd ([] :: frames)) else none
  | .value frames, t | .valueOrEnd frames, t => (scalar? t).map (.complete · frames)

def value? (tokens : List Token) : Option Value :=
  match (tokens.filter (!·.isTrivia)).foldlM Expectation.step? (.value []) with
  | some (.complete v []) => some v
  | _ => none

end ScenePrune.Toml
