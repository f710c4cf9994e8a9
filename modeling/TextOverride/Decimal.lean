import TextOverride.Text

namespace TextOverride.Decimal

/-- `digits · 10 ^ exponent`. -/
structure Scaled where
  digits : Nat
  exponent : Int
  deriving DecidableEq, Repr

/-- `mantissa · 2 ^ exponent`. -/
structure Binary where
  mantissa : Nat
  exponent : Int
  deriving DecidableEq, Repr

def Binary.ofFloat (x : Float) : Binary :=
  let bits : Nat := x.toBits.toNat % Nat.pow 2 63
  let biased : Nat := bits / Nat.pow 2 52
  let fraction : Nat := bits % Nat.pow 2 52
  if biased = 0 then ⟨fraction, -1074⟩
    else ⟨Nat.pow 2 52 + fraction, (biased : Int) - 1075⟩

/-- The interval of the reals that round to a number, and the number itself, as
numerators over one denominator. -/
structure Neighbourhood where
  low : Nat
  value : Nat
  high : Nat
  denominator : Nat
  closed : Bool

def Binary.neighbourhood (b : Binary) : Neighbourhood :=
  let below := if b.mantissa = Nat.pow 2 52 ∧ -1074 < b.exponent then 1 else 2
  let scale := Nat.pow 2 (b.exponent - 2).toNat
  { low := (4 * b.mantissa - below) * scale
    value := 4 * b.mantissa * scale
    high := (4 * b.mantissa + 2) * scale
    denominator := Nat.pow 2 (2 - b.exponent).toNat
    closed := b.mantissa % 2 = 0 }

def Neighbourhood.contains (i : Neighbourhood) (s : Scaled) : Bool :=
  let n := s.digits * Nat.pow 10 s.exponent.toNat * i.denominator
  let grain := Nat.pow 10 (-s.exponent).toNat
  if i.closed then i.low * grain ≤ n && n ≤ i.high * grain
  else i.low * grain < n && n < i.high * grain

def digitCount (n : Nat) : Nat := (Nat.toDigits 10 n).length

/-- The exponent of the first digit of a positive number. -/
def Neighbourhood.leading (i : Neighbourhood) : Int :=
  if i.denominator ≤ i.value then digitCount (i.value / i.denominator) - 1
  else
    let inverse := (i.denominator + i.value - 1) / i.value
    Int.negOfNat (digitCount (inverse - 1))

/-- The points of one decimal grid next to the value that lie in the interval,
the nearer one first and of two equally near ones the even one. -/
def Neighbourhood.hit? (i : Neighbourhood) (exponent : Int) : Option Scaled :=
  let numerator := i.value * Nat.pow 10 (-exponent).toNat
  let unit := i.denominator * Nat.pow 10 exponent.toNat
  let floor := numerator / unit
  let twice := 2 * (numerator % unit)
  let upFirst := unit < twice ∨ unit = twice ∧ floor % 2 = 1
  let candidates := if upFirst then [floor + 1, floor] else [floor, floor + 1]
  (candidates.map fun n => Scaled.mk n exponent).find? i.contains

/-- The coarsest grid with a hit decides; seventeen digits always suffice. -/
def Binary.shortest (b : Binary) : Scaled :=
  let i := b.neighbourhood
  let hit? := (List.range 17).findSome? fun (n : Nat) => i.hit? (i.leading - n)
  if b.mantissa = 0 then ⟨0, 0⟩ else hit?.getD ⟨0, 0⟩

structure Layout where
  smallest : Int
  largest : Int
  plusSign : Bool

def signed (l : Layout) (e : Int) : Text :=
  (if e < 0 then ['-'] else if l.plusSign then ['+'] else []) ++
    Text.ofNat e.natAbs

def trimZeros (digits : Text) : Text :=
  (digits.reverse.dropWhile (· == '0')).reverse

/-- At least one place follows a point in positional notation, none need follow
with an exponent. -/
def Layout.write (l : Layout) (s : Scaled) : Text :=
  let digits := Text.ofNat s.digits
  let leading : Int := s.exponent + digits.length - 1
  let kept := trimZeros digits
  if s.digits = 0 then ['0', '.', '0']
  else if leading < l.smallest ∨ l.largest < leading then
    let tail := kept.drop 1
    kept.take 1 ++ (if tail = [] then [] else '.' :: tail) ++
      'e' :: signed l leading
  else if leading < 0 then
    ['0', '.'] ++ List.replicate (-leading - 1).toNat '0' ++ kept
  else
    let whole := leading.toNat + 1
    let tail := kept.drop whole
    kept.take whole ++ List.replicate (whole - kept.length) '0' ++
      '.' :: (if tail = [] then ['0'] else tail)

def negative (x : Float) : Bool := Nat.pow 2 63 ≤ x.toBits.toNat

def Layout.writeFloat (l : Layout) (x : Float) : Text :=
  (if negative x then ['-'] else []) ++ l.write (Binary.ofFloat x).shortest

end TextOverride.Decimal
