import ModuleSurface.Number.Binary64

/-!
# Shortest — the decimal text of a double with the fewest digits

Of the decimals that round to a double, those with the fewest digits are taken, and of them the
one nearest to the double; of two equally near ones it is the one with an even last digit.  The
text is positional for numbers from `0.00001` to below `10 ^ 16` and has an exponent otherwise; an
integral number gets one zero behind the point.
-/

namespace ModuleSurface

/-- The decimal `digits * 10 ^ exponent`. -/
structure Decimal where
  digits : Nat
  exponent : Int
  deriving DecidableEq, Repr

namespace Decimal

def toFraction (x : Decimal) : Nat × Nat :=
  if x.exponent ≥ 0 then (x.digits * Nat.pow 10 x.exponent.toNat, 1)
  else (x.digits, Nat.pow 10 (-x.exponent).toNat)

/-- The same decimal without zeros at its end; `fuel` bounds their number. -/
def stripZeros : Nat → Decimal → Decimal
  | 0, x => x
  | fuel + 1, x =>
      if x.digits % 10 = 0 && x.digits ≠ 0 then stripZeros fuel ⟨x.digits / 10, x.exponent + 1⟩
      else x

end Decimal

namespace Binary64

/-- The ends of the reals that round to a double, in units of a quarter of its last place. -/
def neighbourhood (x : Binary64) : Nat × Nat :=
  let low :=
    if x.mantissa = Nat.pow 2 52 && x.exponent ≠ leastExponent then 4 * x.mantissa - 1
    else 4 * x.mantissa - 2
  (low, 4 * x.mantissa + 2)

/-- Whether a decimal rounds to a double.  The ends of the neighbourhood do so if the mantissa is
even. -/
def isNear (x : Binary64) (d : Decimal) : Bool :=
  let (low, high) := x.neighbourhood
  let (a, b) := d.toFraction
  let (unit, parts) := Binary64.toFraction ⟨1, x.exponent - 2⟩
  let value := a * parts
  let scale := b * unit
  if x.mantissa % 2 = 0 then low * scale ≤ value && value ≤ high * scale
  else low * scale < value && value < high * scale

def distance (x : Binary64) (d : Decimal) : Nat × Nat :=
  let (a, b) := x.toFraction
  let (c, e) := d.toFraction
  (max (a * e) (c * b) - min (a * e) (c * b), b * e)

/-- The number of digits before the decimal point, negative for zeros behind it. -/
def pointPosition (x : Binary64) : Int :=
  let (a, b) := x.toFraction
  ((Nat.toDigits 10 (a * Nat.pow 10 400 / b)).length : Int) - 400

/-- The decimal of `count` digits that rounds to a double and is nearest to it, if there is one;
between two equally near ones it is the even one. -/
def withDigits? (x : Binary64) (count : Nat) : Option Decimal :=
  let exponent := x.pointPosition - count
  let (a, b) := x.toFraction
  let below :=
    if exponent ≥ 0 then a / (b * Nat.pow 10 exponent.toNat)
    else a * Nat.pow 10 (-exponent).toNat / b
  let lower : Decimal := ⟨below, exponent⟩
  let upper : Decimal := ⟨below + 1, exponent⟩
  match x.isNear lower, x.isNear upper with
  | false, false => none
  | true, false => some lower
  | false, true => some upper
  | true, true =>
      let (p, q) := x.distance lower
      let (r, s) := x.distance upper
      if p * s < r * q then some lower
      else if r * q < p * s then some upper
      else if below % 2 = 0 then some lower
      else some upper

def shortest (x : Binary64) : Decimal :=
  match (List.range 17).findSome? fun count => x.withDigits? (count + 1) with
  | some d => d.stripZeros 20
  | none => ⟨x.mantissa, x.exponent⟩

end Binary64

namespace Decimal

/-- An exponent behind its letter, always with a sign. -/
def renderExponent (e : Int) : List Char :=
  'e' :: (if e < 0 then '-' else '+') :: Nat.toDigits 10 e.natAbs

/-- The text of a decimal that is not zero. -/
def render (x : Decimal) : List Char :=
  let digits := Nat.toDigits 10 x.digits
  let point : Int := digits.length + x.exponent
  if 0 ≤ x.exponent && point ≤ 16 then
    digits ++ List.replicate x.exponent.toNat '0' ++ ['.', '0']
  else if 0 < point && point ≤ 16 then
    digits.take point.toNat ++ '.' :: digits.drop point.toNat
  else if -5 < point && point ≤ 0 then
    '0' :: '.' :: List.replicate (-point).toNat '0' ++ digits
  else
    match digits with
    | [] => []
    | [digit] => digit :: renderExponent (point - 1)
    | digit :: rest => digit :: '.' :: rest ++ renderExponent (point - 1)

end Decimal

def Binary64.render (x : Binary64) : List Char :=
  if x.mantissa = 0 then ['0', '.', '0'] else x.shortest.render

end ModuleSurface
