import ScenePrune.Decimal.Numeral

/-!
# The shortest decimal that reads back

A finite double stands for every real number that rounds to it. Of the decimals among these
numbers, `shortestOf` finds one with the fewest digits, and of several such the nearest. All
arithmetic is exact: a double is a whole number times a power of two, and so are the ends of its
interval when they are measured in quarters of its last place.
-/

namespace ScenePrune.Decimal

/-- A positive double `4 * mantissa * 2 ^ exponent`, and where its interval begins and ends in the
same unit of a quarter of its last place. -/
structure Interval where
  low : Nat
  value : Nat
  high : Nat
  exponent : Int
  closed : Bool
deriving DecidableEq, Repr

/-- The interval of a positive finite double, given its bits. Below a power of two the doubles lie
twice as close, except at the bottom of the range. -/
def intervalOfBits (bits : Nat) : Interval :=
  let fraction := bits % Nat.pow 2 52
  let biased := bits / Nat.pow 2 52 % Nat.pow 2 11
  let mantissa := if biased = 0 then fraction else Nat.pow 2 52 + fraction
  { low := 4 * mantissa - (if fraction = 0 ∧ 1 < biased then 1 else 2)
    value := 4 * mantissa
    high := 4 * mantissa + 2
    exponent := (max biased 1 : Nat) - 1077
    closed := mantissa % 2 = 0 }

def ratio (two ten : Int) : Nat × Nat :=
  (Nat.pow 2 two.toNat * Nat.pow 10 (-ten).toNat, Nat.pow 2 (-two).toNat * Nat.pow 10 ten.toNat)

def magnitude (i : Interval) : Int :=
  let atMost (e : Int) : Bool :=
    let (p, q) := ratio i.exponent e
    q ≤ i.value * p
  let rec search (start : Int) : Nat → Int
    | 0 => start
    | steps + 1 => if atMost start then start else search (start - 1) steps
  search 308 632

/-- Which of the neighbours `below` and `below + 1` is nearer to the value; of two that are equally
near it is the even one. -/
def Interval.nearer (i : Interval) (p q below : Nat) : Nat :=
  let twice := 2 * (i.value * p)
  let middle := (2 * below + 1) * q
  if twice < middle ∨ twice = middle ∧ below % 2 = 0 then below else below + 1

def nearestOn? (i : Interval) (place : Int) : Option Nat :=
  let (p, q) := ratio i.exponent place
  let inside (d : Nat) : Bool :=
    if i.closed then i.low * p ≤ d * q && d * q ≤ i.high * p
    else i.low * p < d * q && d * q < i.high * p
  let below := i.value * p / q
  match inside below, inside (below + 1) with
  | true, true => some (i.nearer p q below)
  | true, false => some below
  | false, true => some (below + 1)
  | false, false => none

structure Scientific where
  factor : Nat
  place : Int
deriving DecidableEq, Repr

def shortestOf (i : Interval) : Scientific :=
  let top := magnitude i
  let attempt (digits : Nat) : Option Scientific :=
    let place := top - digits
    (nearestOn? i place).map (⟨·, place⟩)
  ((List.range 17).findSome? attempt).getD ⟨i.value, i.exponent⟩

def trimZeros (digits : List Nat) : List Nat × Nat :=
  let kept := (digits.reverse.dropWhile (· = 0)).reverse
  (kept, digits.length - kept.length)

/-- How a positive number is written: with a point and at least one digit on either side while the
first digit stands between the fifth place after the point and the sixteenth before it, and with an
exponent otherwise. -/
def write (negative : Bool) (s : Scientific) : Numeral :=
  let (digits, zeros) := trimZeros (Numeral.ofNat s.factor).whole
  let place := s.place + zeros
  let lead := place + digits.length - 1
  if lead < -5 ∨ 15 < lead then
    { negative, whole := digits.take 1
      fraction? := if digits.length ≤ 1 then none else some (digits.drop 1)
      exponent? := some lead }
  else if 0 ≤ place then
    { negative, whole := digits ++ List.replicate place.toNat 0, fraction? := some [0] }
  else if lead < 0 then
    { negative, whole := [0]
      fraction? := some (List.replicate (-lead - 1).toNat 0 ++ digits) }
  else
    let before := (lead + 1).toNat
    { negative, whole := digits.take before, fraction? := some (digits.drop before) }

def ofFloat? (x : Float) : Option Numeral :=
  let bits := x.toBits.toNat
  let negative := Nat.pow 2 63 ≤ bits
  let magnitude := bits % Nat.pow 2 63
  if magnitude = 0 then some { negative, whole := [0], fraction? := some [0] }
  else if x.isFinite then some (write negative (shortestOf (intervalOfBits magnitude)))
  else none

end ScenePrune.Decimal
