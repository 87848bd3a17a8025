/-!
# Decimal numerals

A numeral is a number as it is written: a sign, digits, perhaps a fraction and an exponent. It is a
natural number only if it has nothing but digits. As a double it keeps the leading digits that fit
into 64 bits, counts the others, and is then scaled once by a power of ten.
-/

namespace ScenePrune

structure Numeral where
  negative : Bool := false
  whole : List Nat
  fraction? : Option (List Nat) := none
  exponent? : Option Int := none
deriving DecidableEq, Repr

namespace Numeral

def digit? (c : Char) : Option Nat := if c.isDigit then some (c.toNat - 48) else none

def splitDigits (s : List Char) : List Nat × List Char :=
  (s.takeWhile Char.isDigit |>.map (·.toNat - 48), s.dropWhile Char.isDigit)

def valueOf (digits : List Nat) : Nat := digits.foldl (fun n d => 10 * n + d) 0

def exponentOf? (s : List Char) : Option Int :=
  let signed (negative : Bool) (s : List Char) : Option Int :=
    match splitDigits s with
    | ([], _) => none
    | (digits, []) => some (if negative then -(valueOf digits : Int) else valueOf digits)
    | _ => none
  match s with
  | '-' :: s => signed true s
  | '+' :: s => signed false s
  | s => signed false s

def suffixOf? (n : Numeral) : List Char → Option Numeral
  | [] => some n
  | 'e' :: s | 'E' :: s => (exponentOf? s).map fun e => { n with exponent? := some e }
  | _ => none

def unsignedOf? (negative : Bool) (s : List Char) : Option Numeral :=
  match splitDigits s with
  | ([], _) => none
  | (0 :: _ :: _, _) => none
  | (whole, '.' :: s) =>
    match splitDigits s with
    | ([], _) => none
    | (fraction, s) => suffixOf? { negative, whole, fraction? := some fraction } s
  | (whole, s) => suffixOf? { negative, whole } s

/-- Reads a numeral that makes up the whole text: no plus sign in front, no digit after a leading
zero, and a digit on either side of the point. -/
def ofChars? : List Char → Option Numeral
  | '-' :: s => unsignedOf? true s
  | s => unsignedOf? false s

def ofNat (n : Nat) : Numeral := { whole := (Nat.toDigits 10 n).filterMap digit? }

def nat? (n : Numeral) : Option Nat :=
  match n with
  | ⟨false, whole, none, none⟩ => some (valueOf whole)
  | _ => none

/-- Appends digits to a number as long as it fits into 64 bits, and returns what is left over. -/
def absorb : Nat → List Nat → Nat × List Nat
  | n, [] => (n, [])
  | n, d :: ds => if 10 * n + d < UInt64.size then absorb (10 * n + d) ds else (n, d :: ds)

def shrink (x : Float) (places : Nat) : Float :=
  if places ≤ 308 then x / Float.ofScientific 1 false places
  else if x == 0 then x
  else shrink (x / Float.ofScientific 1 false 308) (places - 308)
termination_by places

def scale? (significand : Nat) (exponent : Int) : Option Float :=
  let x := Float.ofNat significand
  if exponent < 0 then some (shrink x exponent.natAbs)
  else if exponent ≤ 308 then
    let y := x * Float.ofScientific 1 false exponent.toNat
    if y.isInf then none else some y
  else if significand = 0 then some x
  else none

def float? (n : Numeral) : Option Float :=
  let (whole, skipped) := absorb 0 n.whole
  let fraction := n.fraction?.getD []
  let (significand, dropped) := absorb whole fraction
  let taken := fraction.length - dropped.length
  let exponent := n.exponent?.getD 0
  let magnitude? :=
    if exponent.natAbs < Nat.pow 2 31 then scale? significand (skipped.length - taken + exponent)
    else if significand ≠ 0 ∧ 0 < exponent then none
    else some 0
  magnitude?.map fun x => if n.negative then -x else x

def digitsText (digits : List Nat) : String := String.ofList (digits.map Nat.digitChar)

def exponentText (exponent : Int) : String :=
  (if exponent < 0 then "e-" else "e+") ++ toString exponent.natAbs

def text (n : Numeral) : String :=
  (if n.negative then "-" else "") ++ digitsText n.whole ++
    (match n.fraction? with
      | none => ""
      | some fraction => "." ++ digitsText fraction) ++
    match n.exponent? with
    | none => ""
    | some exponent => exponentText exponent

end Numeral

end ScenePrune
