/-! Binary numbers with 53 significant bits, as exact pairs, and their decimal text. A
ratio of sizes is reported through the nearest of them, with the fewest places that read
back or with a fixed number of places. All arithmetic is exact. -/
namespace TilePack.Decimal

/-- Which neighbour an exact half goes to. -/
inductive Tie where
  | toEven
  | up
  deriving DecidableEq

/-- The natural number nearest to `num / den`. -/
def roundDiv (tie : Tie) (num den : Nat) : Nat :=
  let quotient := num / den
  let twice := 2 * (num % den)
  let roundsUp : Bool := match tie with
    | .up => den ≤ twice
    | .toEven => den < twice || (den == twice && quotient % 2 == 1)
  if roundsUp then quotient + 1 else quotient

/-- The number `mantissa * 2 ^ exponent`. -/
structure Binary where
  mantissa : Nat
  exponent : Int
  deriving DecidableEq

namespace Binary

/-- The lowest mantissa of full precision. -/
def leastMantissa : Nat := Nat.pow 2 52

def zero : Binary := ⟨0, 0⟩

/-- `factor * 2 ^ exponent` as a numerator and a denominator. -/
def scale (factor : Nat) (exponent : Int) : Nat × Nat :=
  match exponent with
  | .ofNat up => (factor * Nat.pow 2 up, 1)
  | .negSucc down => (factor, Nat.pow 2 (down + 1))

def fraction (number : Binary) : Nat × Nat := scale number.mantissa number.exponent

/-- `num / den` in units of `2 ^ exponent`. -/
def quotientAt (num den : Nat) (exponent : Int) : Nat × Nat :=
  let (up, down) := scale 1 exponent
  (num * down, den * up)

/-- The exponent that leaves a mantissa of full precision. -/
def exponentOf (num den : Nat) : Int :=
  let guess : Int := (num.log2 : Int) - den.log2 - 52
  let (top, bottom) := quotientAt num den guess
  if top / bottom < leastMantissa then guess - 1 else guess

/-- The number nearest to `num / den`, an exact half going to the even mantissa. The
quotient of two empty sizes counts as zero. -/
def ofRatio (num den : Nat) : Binary :=
  if num = 0 ∨ den = 0 then zero
  else
    let exponent := exponentOf num den
    let (top, bottom) := quotientAt num den exponent
    let mantissa := roundDiv .toEven top bottom
    if mantissa = 2 * leastMantissa then ⟨leastMantissa, exponent + 1⟩ else ⟨mantissa, exponent⟩

/-- The number nearest to a natural number. -/
def ofNat (value : Nat) : Binary := ofRatio value 1

/-- The number nearest to a quotient. -/
def div (left right : Binary) : Binary :=
  ofRatio (left.fraction.1 * right.fraction.2) (left.fraction.2 * right.fraction.1)

/-- `digits / 10 ^ places` lies so near that it is read as this number: within half
the gap to either neighbour, the ends included if the mantissa is even. The gap below
a power of two is half as wide. -/
def reads (number : Binary) (digits places : Nat) : Bool :=
  let (unit, parts) := scale 1 (number.exponent - 2)
  let below := if number.mantissa = leastMantissa then 1 else 2
  let low := (4 * number.mantissa - below) * unit * Nat.pow 10 places
  let high := (4 * number.mantissa + 2) * unit * Nat.pow 10 places
  let value := digits * parts
  if number.mantissa % 2 = 0 then low ≤ value && value ≤ high else low < value && value < high

end Binary

/-- A number on the grid of so many decimal places. -/
structure Fixed where
  digits : Nat
  places : Nat
  deriving DecidableEq

namespace Fixed

def render (number : Fixed) : String :=
  let unit := Nat.pow 10 number.places
  let fraction := toString (number.digits % unit)
  let padding := String.ofList (List.replicate (number.places - fraction.length) '0')
  s!"{number.digits / unit}.{padding}{fraction}"

/-- Positional text always shows one place at least. -/
def withPlace (number : Fixed) : Fixed :=
  if number.places = 0 then ⟨10 * number.digits, 1⟩ else number

end Fixed

namespace Binary

/-- The nearest point of a decimal grid. -/
def round (number : Binary) (tie : Tie) (places : Nat) : Fixed :=
  let (num, den) := number.fraction
  ⟨roundDiv tie (num * Nat.pow 10 places) den, places⟩

/-- The point of a grid that reads back: the nearest, or else its neighbour on the
other side of the number. -/
def onGrid? (number : Binary) (tie : Tie) (places : Nat) : Option Fixed :=
  let (num, den) := number.fraction
  let floor := num * Nat.pow 10 places / den
  let nearest := (number.round tie places).digits
  let other := if nearest = floor then floor + 1 else floor
  ([nearest, other].find? fun digits => number.reads digits places).map (⟨·, places⟩)

/-- The grid on which the number is exact. -/
def exactPlaces (number : Binary) : Nat := (-number.exponent).toNat

/-- The fewest places that read back. -/
def shortest (number : Binary) (tie : Tie) : Fixed :=
  ((List.range number.exactPlaces).findSome? fun places => number.onGrid? tie places).getD
    (number.round tie number.exactPlaces)

def shortestText (number : Binary) (tie : Tie) : String := (number.shortest tie).withPlace.render

end Binary

end TilePack.Decimal
