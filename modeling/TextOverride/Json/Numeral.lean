import TextOverride.Json.Scan

namespace TextOverride.Json.Numeral

def digitValue (c : Char) : Nat := c.toNat - '0'.toNat

def significandLimit : Nat := Nat.pow 2 64

def exponentLimit : Nat := Nat.pow 2 31

/-- Appends digits to a number while it stays below the limit, and answers the
digits that are left. -/
def accumulate (limit n : Nat) : Text → Nat × Text
  | [] => (n, [])
  | c :: digits =>
      if n * 10 + digitValue c < limit then
        accumulate limit (n * 10 + digitValue c) digits
      else (n, c :: digits)

structure Scientific where
  significand : Nat
  exponent : Int

/-- Digits of the whole part that do not fit count for a power of ten, those of
the fraction for nothing. -/
def scientific (n : Numeral) : Scientific :=
  let (high, dropped) := accumulate significandLimit 0 n.whole
  let (significand, ignored) := accumulate significandLimit high n.fraction
  ⟨significand, dropped.length - (n.fraction.length - ignored.length : Int)⟩

def powerOfTen (n : Nat) : Float := Float.ofScientific 1 false n

def largestPower : Nat := 308

def divide (x : Float) (n : Nat) : Float :=
  if n ≤ largestPower then x / powerOfTen n
  else if x == 0 then x
  else divide (x / powerOfTen largestPower) (n - largestPower)
  termination_by n
  decreasing_by grind [largestPower]

/-- One rounding of the leading digits, and one multiplication or division. -/
def scale? (x : Float) (exponent : Int) : Option Float :=
  if exponent < 0 then some (divide x exponent.natAbs)
  else if exponent.natAbs ≤ largestPower then
    let y := x * powerOfTen exponent.natAbs
    if y.isInf then none else some y
  else if x == 0 then some x
  else none

def clamp (e : Int) : Int := max (-exponentLimit) (min (exponentLimit - 1) e)

def sign (negative : Bool) (x : Float) : Float := if negative then -x else x

/-- The value of a numeral with its sign. `rest` is the text after it. An
exponent beyond 32 bits is blamed at the digit that leads there. -/
def value (negative : Bool) (n : Numeral) (rest : Text) : Except Fault Found :=
  let s := n.scientific
  let start := Float.ofNat s.significand
  let finish (exponent : Int) : Except Fault Found :=
    match scale? start exponent with
    | some x => .ok (.float (sign negative x))
    | none => .error (.here .numberTooLarge rest)
  match n.exponent with
  | none =>
      if n.fraction = [] ∧ s.exponent = 0 then
        if !negative then .ok (.natural s.significand)
        else if 0 < s.significand ∧ s.significand ≤ Nat.pow 2 63 then
          .ok (.negative s.significand)
        else .ok (.float (-start))
      else finish s.exponent
  | some (positive, digits) =>
      match accumulate exponentLimit 0 digits with
      | (e, []) =>
          finish (clamp (if positive then s.exponent + e else s.exponent - e))
      | (_, _ :: beyond) =>
          if s.significand ≠ 0 ∧ positive then
            .error (.here .numberTooLarge (beyond ++ rest))
          else .ok (.float (sign negative 0))

end TextOverride.Json.Numeral
