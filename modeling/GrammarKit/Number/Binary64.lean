import GrammarKit.Number.Integer

namespace GrammarKit.Number

/-- A double-precision binary number by its bit pattern: a sign bit, eleven
    exponent bits and fifty-two fraction bits. -/
structure Binary64 where
  bits : Nat
  deriving DecidableEq, Repr

namespace Binary64

def infinityBits : Nat := 0x7ff0000000000000

/-- The bits of the number that stands for no number, without a sign. -/
def nanBits : Nat := 0x7ff8000000000000

def isNaN (x : Binary64) : Bool :=
  infinityBits < x.bits % twoPow 63

def isInfinite (x : Binary64) : Bool :=
  x.bits % twoPow 63 == infinityBits

def isNegative (x : Binary64) : Bool :=
  twoPow 63 ≤ x.bits

def withSign (negative : Bool) (magnitude : Nat) : Binary64 :=
  ⟨if negative then twoPow 63 + magnitude else magnitude⟩

/-- `numerator / denominator` over two to the power `scale`, rounded to an
    integer; a half goes to the even neighbour. -/
def roundScaled (numerator denominator : Nat) (scale : Int) : Nat :=
  let numerator := numerator * twoPow (-scale).toNat
  let denominator := denominator * twoPow scale.toNat
  let quotient := numerator / denominator
  let twice := 2 * (numerator % denominator)
  if twice < denominator || (twice == denominator && quotient % 2 == 0) then quotient
  else quotient + 1

/-- The bits of the number nearest to a positive quotient. The scale leaves
    fifty-three bits before the point, or fewer for numbers below the normal
    range, and a carry out of the rounded significand runs on into the exponent
    field. -/
def roundQuotient (numerator denominator : Nat) : Nat :=
  let estimate : Int := (Nat.log2 numerator : Int) - Nat.log2 denominator - 53
  let floored := numerator * twoPow (-estimate).toNat / (denominator * twoPow estimate.toNat)
  let scale := max (-1074) (if floored < twoPow 53 then estimate else estimate + 1)
  min infinityBits ((scale + 1074).toNat * twoPow 52 + roundScaled numerator denominator scale)

/-- The bits of `digits * 10 ^ exponent`, rounded to nearest. Exponents that are
    far out of range are settled by the number of digits alone. -/
def magnitudeOfDecimal (digits : Nat) (exponent : Int) : Nat :=
  if digits = 0 then 0
  else
    let places : Int := (Nat.toDigits 10 digits).length + exponent
    if 310 < places then infinityBits
    else if places < -330 then 0
    else roundQuotient (digits * tenPow exponent.toNat) (tenPow (-exponent).toNat)

def ofDecimal (negative : Bool) (digits : Nat) (exponent : Int) : Binary64 :=
  withSign negative (magnitudeOfDecimal digits exponent)

/-- A finite number as `significand * 2 ^ scale`, without its sign. -/
def decompose (x : Binary64) : Nat × Int :=
  let exponent : Nat := x.bits / twoPow 52 % twoPow 11
  let fraction := x.bits % twoPow 52
  if exponent = 0 then (fraction, -1074) else (twoPow 52 + fraction, (exponent : Int) - 1075)

/-- The two neighbours of `significand * 2 ^ scale` on the grid of multiples of
    `10 ^ exponent`. -/
private def gridNeighbours (significand : Nat) (scale exponent : Int) : Nat × Nat :=
  let numerator := significand * twoPow scale.toNat * tenPow (-exponent).toNat
  let denominator := twoPow (-scale).toNat * tenPow exponent.toNat
  let below := numerator / denominator
  (below, if numerator % denominator = 0 then below else below + 1)

/-- Twice the distance between `digits * 10 ^ exponent` and `significand * 2 ^
    scale`, in a unit that does not depend on `digits`. -/
private def gridDistance (significand : Nat) (scale exponent : Int) (digits : Nat) : Nat :=
  let target := significand * twoPow scale.toNat * tenPow (-exponent).toNat
  let point := digits * tenPow exponent.toNat * twoPow (-scale).toNat
  if target ≤ point then point - target else target - point

/-- The nearer of the grid neighbours that read back as `bits`. -/
private def readsBack (bits significand : Nat) (scale exponent : Int) : Option Nat :=
  let (below, above) := gridNeighbours significand scale exponent
  let good := [below, above].filter fun digits => magnitudeOfDecimal digits exponent == bits
  match good with
  | [a, b] =>
    let da := gridDistance significand scale exponent a
    let db := gridDistance significand scale exponent b
    some (if da < db || (da == db && a % 2 == 0) then a else b)
  | [a] => some a
  | _ => none

/-- The first grid, from the coarsest of `exponents` on, with a point that reads
    back as `bits`. -/
private def shortestFrom (bits significand : Nat) (scale : Int) : List Int → Nat × Int
  | [] => (0, 0)
  | exponent :: finer =>
    match readsBack bits significand scale exponent with
    | some digits => (digits, exponent)
    | none => shortestFrom bits significand scale finer

private def dropTrailingZeros : Nat → Nat × Int → Nat × Int
  | 0, d => d
  | fuel + 1, (digits, exponent) =>
    if digits ≠ 0 && digits % 10 = 0 then dropTrailingZeros fuel (digits / 10, exponent + 1)
    else (digits, exponent)

/-- The decimal with the fewest digits that reads back as the magnitude of a
    finite number; of several, the nearest. -/
def shortestDecimal (x : Binary64) : Nat × Int :=
  let bits := x.bits % twoPow 63
  if bits = 0 then (0, 0)
  else
    let (significand, scale) := x.decompose
    let magnitude : Int := ((Nat.log2 significand : Int) + scale) * 30103 / 100000
    let grids := (List.range 20).map fun (i : Nat) => magnitude + 2 - i
    dropTrailingZeros 20 (shortestFrom bits significand scale grids)

/-- The shortest decimal text. Numbers from `1e-5` up to sixteen digits before
    the point are written positionally and always with a point, all others with
    an exponent. -/
def render (x : Binary64) : String :=
  let (digits, exponent) := x.shortestDecimal
  let written := Nat.toDigits 10 digits
  let point : Int := written.length + exponent
  let sign := if x.isNegative then "-" else ""
  let text : List Char :=
    if digits = 0 then ['0', '.', '0']
    else if 0 ≤ exponent && point ≤ 16 then written ++ List.replicate exponent.toNat
      '0' ++ ['.', '0']
    else if 0 < point && point ≤ 16 then
      written.take point.toNat ++ '.' :: written.drop point.toNat
    else if -5 < point && point ≤ 0 then
      ['0', '.'] ++ List.replicate (-point).toNat '0' ++ written
    else
      let exponentText := 'e' :: (toString (point - 1)).toList
      match written with
      | [single] => single :: exponentText
      | first :: rest => first :: '.' :: rest ++ exponentText
      | [] => []
  sign ++ String.ofList text

/-- Sixteen hexadecimal digits of the bit pattern. -/
def hex (x : Binary64) : String :=
  let digits := Nat.toDigits 16 x.bits
  String.ofList (List.replicate (16 - digits.length) '0' ++ digits)

end Binary64

def equalsIgnoringCase (text : List Char) (word : String) : Bool :=
  text.map Char.toLower == word.toList

/-- Reads what follows the digits of a number: nothing, or the mark of a decimal
    exponent with an optional sign and at least one digit. -/
def readExponent? : List Char → Option Int
  | [] => some 0
  | mark :: rest =>
    let (negative, digits) := splitSign rest
    if (mark = 'e' || mark = 'E') && !digits.isEmpty && digits.all Char.isDigit then
      some (if negative then -ofDigits digits else ofDigits digits)
    else none

/-- Reads a double: an optional sign, then an infinity, a not-a-number, or
    digits around an optional point with at least one digit and an optional
    exponent. -/
def readBinary64? (text : String) : Option Binary64 :=
  let (negative, body) := splitSign text.toList
  if equalsIgnoringCase body "inf" || equalsIgnoringCase body "infinity" then
    some (Binary64.withSign negative Binary64.infinityBits)
  else if equalsIgnoringCase body "nan" then some (Binary64.withSign negative Binary64.nanBits)
  else
    let whole := body.takeWhile Char.isDigit
    let afterWhole := body.dropWhile Char.isDigit
    let afterPoint := match afterWhole with
      | '.' :: rest => rest
      | _ => []
    let fraction := afterPoint.takeWhile Char.isDigit
    let tail := match afterWhole with
      | '.' :: rest => rest.dropWhile Char.isDigit
      | rest => rest
    if whole.isEmpty && fraction.isEmpty then none
    else
      (readExponent? tail).map fun exponent =>
        Binary64.ofDecimal negative (ofDigits (whole ++ fraction)) (exponent - fraction.length)

end GrammarKit.Number
