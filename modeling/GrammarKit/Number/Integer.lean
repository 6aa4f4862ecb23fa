namespace GrammarKit.Number

def twoPow (n : Nat) : Nat := Nat.pow 2 n

def tenPow (n : Nat) : Nat := Nat.pow 10 n

/-- The integers that fit in 64 bits with a sign. -/
def fitsInt64 (n : Int) : Bool :=
  -(twoPow 63 : Int) ≤ n && n < twoPow 63

/-- The value of a run of decimal digits. -/
def ofDigits (digits : List Char) : Nat :=
  digits.foldl (fun value c => value * 10 + (c.toNat - '0'.toNat)) 0

/-- Splits a leading sign off; the flag tells whether it was a minus. -/
def splitSign : List Char → Bool × List Char
  | '-' :: rest => (true, rest)
  | '+' :: rest => (false, rest)
  | text => (false, text)

/-- Reads an optional sign and at least one ASCII digit, as a 64-bit signed integer. -/
def readInt64? (text : String) : Option Int :=
  let (negative, digits) := splitSign text.toList
  if digits.isEmpty || !digits.all Char.isDigit then none
  else
    let value : Int := if negative then -ofDigits digits else ofDigits digits
    if fitsInt64 value then some value else none

end GrammarKit.Number
