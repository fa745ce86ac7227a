/-!
Decimal numbers: reading one into the nearest double, and writing a double with the fewest digits
that read back to it.
-/

namespace PathDirectives.Decimal

structure Numeral where
  negative : Bool
  digits : Nat
  exponent : Int

def natOfDigits (digits : List Char) : Nat :=
  digits.foldl (fun value c => 10 * value + (c.toNat - 48)) 0

def splitSign (text : List Char) : Bool × List Char :=
  match text with
  | '-' :: rest => (true, rest)
  | '+' :: rest => (false, rest)
  | _ => (false, text)

def readExponent? (text : List Char) : Option Int :=
  match text with
  | [] => some 0
  | mark :: rest =>
      if mark = 'e' ∨ mark = 'E' then
        let (negative, digits) := splitSign rest
        if digits.isEmpty || !digits.all Char.isDigit then none
        else if negative then some (-(natOfDigits digits : Int))
        else some (natOfDigits digits)
      else none

def readNumeral? (text : List Char) : Option Numeral :=
  let (negative, rest) := splitSign text
  let whole := rest.takeWhile Char.isDigit
  let rest := rest.dropWhile Char.isDigit
  let (part, rest) :=
    match rest with
    | '.' :: rest => (rest.takeWhile Char.isDigit, rest.dropWhile Char.isDigit)
    | _ => ([], rest)
  if whole.isEmpty && part.isEmpty then none
  else
    (readExponent? rest).map fun exponent =>
      ⟨negative, natOfDigits (whole ++ part), exponent - part.length⟩

def infinity : Float := 1.0 / 0.0

def notANumber : Float := 0.0 / 0.0

/-- The double nearest to the numeral. Numerals whose size alone shows that they overflow or vanish
are not computed. -/
def Numeral.toFloat (numeral : Numeral) : Float :=
  let places : Int := (Nat.repr numeral.digits).length
  let size : Float :=
    if numeral.digits = 0 then 0.0
    else if 400 < places + numeral.exponent then infinity
    else if places + numeral.exponent < -400 then 0.0
    else if numeral.exponent < 0 then
      Float.ofScientific numeral.digits true numeral.exponent.natAbs
    else Float.ofScientific numeral.digits false numeral.exponent.natAbs
  if numeral.negative then -size else size

def readFloat? (text : List Char) : Option Float :=
  let (negative, rest) := splitSign text
  let word := String.ofList (rest.map Char.toLower)
  if word = "inf" ∨ word = "infinity" then some (if negative then -infinity else infinity)
  else if word = "nan" then some notANumber
  else (readNumeral? text).map Numeral.toFloat

/-! ### Writing -/

/-- The value `mantissa * 2 ^ exponent` of a finite double, without its sign, and whether the double
below it is only half as far away as the one above it. -/
structure Binary where
  mantissa : Nat
  exponent : Int
  narrow : Bool

def Binary.ofFloat (value : Float) : Binary :=
  let bits : Nat := value.toBits.toNat
  let field : Nat := bits / Nat.pow 2 52 % Nat.pow 2 11
  let fraction : Nat := bits % Nat.pow 2 52
  if field = 0 then ⟨fraction, -1074, false⟩
  else ⟨fraction + Nat.pow 2 52, (field : Int) - 1075, fraction == 0 && 1 < field⟩

structure Digits where
  digits : Nat
  exponent : Int

/-- A binary value over a common denominator, with the ends of the interval of numbers that read
back to it. -/
structure Interval where
  low : Nat
  value : Nat
  high : Nat
  denominator : Nat
  closed : Bool

def Binary.interval (binary : Binary) : Interval :=
  let up := Nat.pow 2 (binary.exponent - 2).toNat
  let down := Nat.pow 2 (2 - binary.exponent).toNat
  { low := (4 * binary.mantissa - if binary.narrow then 1 else 2) * up
    value := 4 * binary.mantissa * up
    high := (4 * binary.mantissa + 2) * up
    denominator := down
    closed := binary.mantissa % 2 == 0 }

def Interval.magnitude (interval : Interval) : Int :=
  let whole := interval.value / interval.denominator
  if 0 < whole then (Nat.repr whole).length
  else
    match (List.range 400).find? fun places =>
        interval.denominator ≤ interval.value * Nat.pow 10 places with
    | some places => 1 - (places : Int)
    | none => -400

def Interval.holds (interval : Interval) (scaled grain : Nat) : Bool :=
  if interval.closed then interval.low * grain ≤ scaled && scaled ≤ interval.high * grain
  else interval.low * grain < scaled && scaled < interval.high * grain

/-- The number on the grid of multiples of `10 ^ place` that reads back to the value: the nearer of
the value's two neighbours if it does, else the other. Of two equally near, the greater is first. -/
def Interval.onGrid? (interval : Interval) (place : Int) : Option Digits :=
  let grain := Nat.pow 10 (-place).toNat
  let step := Nat.pow 10 place.toNat * interval.denominator
  let value := interval.value * grain
  let below := value / step
  let neighbours :=
    if 2 * (value - below * step) < step then [below, below + 1] else [below + 1, below]
  (neighbours.find? fun digits => interval.holds (digits * step) grain).map (⟨·, place⟩)

/-- The fewest digits that read back to a finite double other than zero, and of those the
nearest. -/
def shortest (value : Float) : Digits :=
  let interval := (Binary.ofFloat value).interval
  let magnitude := interval.magnitude
  match (List.range 17).findSome? fun count => interval.onGrid? (magnitude - 1 - (count : Nat)) with
  | some digits => digits
  | none => ⟨0, 0⟩

def Digits.positional (number : Digits) : String :=
  let digits := (Nat.repr number.digits).toList
  if 0 ≤ number.exponent then
    String.ofList (digits ++ List.replicate number.exponent.toNat '0')
  else
    let places := number.exponent.natAbs
    let all := List.replicate (places + 1 - digits.length) '0' ++ digits
    let whole := all.take (all.length - places)
    let part := ((all.drop (all.length - places)).reverse.dropWhile (· == '0')).reverse
    if part.isEmpty then String.ofList whole else String.ofList (whole ++ '.' :: part)

def writeFloat (value : Float) : String :=
  let size := if value == 0.0 then "0" else (shortest value).positional
  if value.toBits.toNat / Nat.pow 2 63 = 1 then "-" ++ size else size

end PathDirectives.Decimal
