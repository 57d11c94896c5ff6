/-!
Decimal texts of binary fractions. `fixed` writes a number with a given number of places, rounding
its exact value and a half to the even neighbour; `shortest` writes the fewest digits that read
back as the number, and of those the nearest.
-/
namespace CodeAtlas.Decimal

/-- The quotient rounded to the nearest integer, a half to the even one. -/
def roundDiv (num den : Nat) : Nat :=
  let q := num / den
  let r := num % den
  if 2 * r < den || (2 * r == den && q % 2 == 0) then q else q + 1

def pow2 (n : Nat) : Nat := Nat.pow 2 n

def pow10 (n : Nat) : Nat := Nat.pow 10 n

/-- A nonnegative number `mantissa * 2 ^ up / 2 ^ down`. -/
structure Binary where
  mantissa : Nat
  up : Nat
  down : Nat
  /-- Whether the next smaller number is only half as far away as the next greater one. -/
  narrow : Bool
deriving DecidableEq, Repr, Inhabited

namespace Binary

/-- The number of fractions that share an exponent. -/
def binade : Nat := pow2 52

def ofFloat (x : Float) : Binary :=
  let bits := x.toBits.toNat
  let exponent := bits / binade % 0x800
  let fraction := bits % binade
  if exponent = 0 then ⟨fraction, 0, 1074, false⟩
  else
    let mantissa := fraction + binade
    let narrow := fraction == 0 && 1 < exponent
    if 1075 ≤ exponent then ⟨mantissa, exponent - 1075, 0, narrow⟩
    else ⟨mantissa, 0, 1075 - exponent, narrow⟩

def scaled (b : Binary) (places : Nat) : Nat :=
  roundDiv (b.mantissa * pow2 b.up * pow10 places) (pow2 b.down)

end Binary

def padded (width n : Nat) : List Char :=
  let digits := Nat.toDigits 10 n
  List.replicate (width - digits.length) '0' ++ digits

def fixed (places : Nat) (x : Float) : String :=
  let n := (Binary.ofFloat x).scaled places
  let whole := Nat.toDigits 10 (n / pow10 places)
  if places = 0 then String.ofList whole
  else String.ofList (whole ++ '.' :: padded places (n % pow10 places))

/-- Digits and the power of ten that the last of them counts; `negative` powers divide. -/
structure Digits where
  digits : Nat
  power : Nat
  negative : Bool
deriving DecidableEq, Repr, Inhabited

/-- Whether a decimal reads back as the number: it lies between the midpoints to the neighbours,
which belong to the number if its mantissa is even. All three are counted in quarters of the last
binary place, over the common denominator `den`. -/
def readsBack (b : Binary) (num den : Nat) : Bool :=
  let low := (4 * b.mantissa - if b.narrow then 1 else 2) * den
  let high := (4 * b.mantissa + 2) * den
  if b.mantissa % 2 = 0 then low ≤ num && num ≤ high else low < num && num < high

/-- The decimal with these digits that is nearest to the number and reads back, on the grid whose
last digit counts `10 ^ power` or its inverse. -/
def onGrid? (b : Binary) (power : Nat) (negative : Bool) : Option Digits :=
  let (num, den) :=
    if negative then (b.mantissa * pow2 b.up * pow10 power, pow2 b.down)
    else (b.mantissa * pow2 b.up, pow2 b.down * pow10 power)
  let below := num / den
  -- a grid point `d` is `d * 10 ^ power`, in quarters of the last place of the mantissa
  let (step, whole) :=
    if negative then (4 * pow2 b.down, pow2 b.up * pow10 power)
    else (4 * pow2 b.down * pow10 power, pow2 b.up)
  let fits (d : Nat) : Bool := readsBack b (d * step) whole
  let nearest := roundDiv num den
  let other := if nearest = below then below + 1 else below
  if fits nearest then some ⟨nearest, power, negative⟩
  else if fits other then some ⟨other, power, negative⟩
  else none

def wholeDigits (b : Binary) : Nat :=
  (Nat.toDigits 10 (b.mantissa * pow2 b.up / pow2 b.down)).length

def leadingZeros (b : Binary) : Nat :=
  (List.range 400).findIdx fun k => pow2 b.down ≤ b.mantissa * pow2 b.up * pow10 (k + 1)

def grid (b : Binary) (n : Nat) : Nat × Bool :=
  if pow2 b.down ≤ b.mantissa * pow2 b.up then
    let whole := wholeDigits b
    if n ≤ whole then (whole - n, false) else (n - whole, true)
  else (leadingZeros b + n, true)

/-- The fewest digits that read back as the number, and the nearest of them. -/
def shortestDigits (b : Binary) : Digits :=
  ((List.range 17).findSome? fun n =>
    let (power, negative) := grid b (n + 1)
    onGrid? b power negative).getD ⟨0, 0, false⟩

/-- The fewest digits that read back: positional from `10 ^ (-5)` up to below `10 ^ 16`, with at
least one digit behind the point, and with an exponent outside. -/
def shortest (x : Float) : String :=
  let b := Binary.ofFloat x
  if b.mantissa = 0 then "0.0"
  else
    let d := shortestDigits b
    let all := Nat.toDigits 10 d.digits
    let digits := (all.reverse.dropWhile (· == '0')).reverse
    let power : Int := (if d.negative then -(d.power : Int) else d.power) +
      (all.length - digits.length : Nat)
    let point : Int := power + digits.length
    String.ofList <|
      if 0 ≤ power && point ≤ 16 then digits ++ List.replicate power.toNat '0' ++ ['.', '0']
      else if 0 < point && point ≤ 16 then
        digits.take point.toNat ++ '.' :: digits.drop point.toNat
      else if -5 < point && point ≤ 0 then
        ['0', '.'] ++ List.replicate (-point).toNat '0' ++ digits
      else
        let exponent := 'e' :: (toString (point - 1)).toList
        match digits with
        | [c] => c :: exponent
        | c :: rest => c :: '.' :: rest ++ exponent
        | [] => exponent

end CodeAtlas.Decimal
