/-!
# Binary fractions and their decimal text

A number in a configuration file may be written with a point or an exponent.  It is held as the
nearest number `mantissa * 2 ^ exponent` with 53 bits of mantissa (ties to the even mantissa), and
written with the fewest decimal digits that still tell it from its neighbours.  All of it is exact
arithmetic on natural numbers.

* `nearest`      from a decimal to the nearest binary fraction;
* `shortest`     from a binary fraction to the fewest digits: on the grids of 1, 2, … 17 digits it
                 tests the two neighbours of the value, and takes the first grid with a hit;
* `Binary.text`  the digits with a decimal point, never with an exponent.
-/

namespace CommentFree.Decimal

/-- a number of the binary format -/
inductive Binary where
  /-- `mantissa * 2 ^ exponent`, negated if `negative` -/
  | finite (negative : Bool) (mantissa : Nat) (exponent : Int)
  | infinite (negative : Bool)
  | nan
  deriving DecidableEq, Inhabited

def precision : Nat := 53

def minExponent : Int := -1074

def maxExponent : Int := 971

/-- a positive fraction of natural numbers -/
structure Ratio where
  num : Nat
  den : Nat

def Ratio.scale (r : Ratio) (base : Nat) (power : Int) : Ratio :=
  if 0 ≤ power then ⟨r.num * base.pow power.toNat, r.den⟩
  else ⟨r.num, r.den * base.pow (-power).toNat⟩

/-- the fraction rounded to a natural number, a half to the even neighbour -/
def Ratio.roundEven (r : Ratio) : Nat :=
  let q := r.num / r.den
  let twice := 2 * (r.num % r.den)
  if twice < r.den then q
  else if r.den < twice then q + 1
  else q + q % 2

/-- the binary fraction nearest to `r`, which is not zero -/
def nearestRatio (negative : Bool) (r : Ratio) : Binary :=
  -- the quotient lies between 2 ^ (log - 1) and 2 ^ (log + 1)
  let log : Int := (Nat.log2 r.num : Int) - Nat.log2 r.den
  let low := max (log - precision) minExponent
  let fits := (r.scale 2 (-low)).roundEven < Nat.pow 2 precision
  let exponent := if fits then low else low + 1
  let mantissa := (r.scale 2 (-exponent)).roundEven
  let (mantissa, exponent) :=
    if mantissa = Nat.pow 2 precision then (Nat.pow 2 (precision - 1), exponent + 1)
    else (mantissa, exponent)
  if maxExponent < exponent then .infinite negative else .finite negative mantissa exponent

/-- decimals with more digits than this before the point are infinite, with more zeros after it
nothing -/
def maxMagnitude : Int := 400

/-- the binary fraction nearest to `digits * 10 ^ power` -/
def nearest (negative : Bool) (digits : Nat) (power : Int) : Binary :=
  let magnitude : Int := (Nat.toDigits 10 digits).length + power
  if digits = 0 ∨ magnitude < -maxMagnitude then .finite negative 0 minExponent
  else if maxMagnitude < magnitude then .infinite negative
  else nearestRatio negative (Ratio.scale ⟨digits, 1⟩ 10 power)

/-! ## the fewest digits -/

def Ratio.lt (a b : Ratio) : Bool := a.num * b.den < b.num * a.den

/-- whether `r` rounds to the binary fraction: it lies between the midpoints to the neighbours,
which count themselves for an even mantissa -/
def roundsTo (mantissa : Nat) (exponent : Int) (r : Ratio) : Bool :=
  let high := Ratio.scale ⟨2 * mantissa + 1, 1⟩ 2 (exponent - 1)
  let low :=
    if mantissa = Nat.pow 2 (precision - 1) ∧ minExponent < exponent
    then Ratio.scale ⟨4 * mantissa - 1, 1⟩ 2 (exponent - 2)
    else Ratio.scale ⟨2 * mantissa - 1, 1⟩ 2 (exponent - 1)
  if mantissa % 2 = 0 then !r.lt low && !high.lt r else low.lt r && r.lt high

/-- how many decimal places a fraction below one has before its first digit that is not zero -/
def leadingZeros (r : Ratio) : Nat → Nat
  | 0 => 0
  | n + 1 => if 10 * r.num < r.den then leadingZeros ⟨10 * r.num, r.den⟩ n + 1 else 0

/-- the position of the first digit: `10 ^ (p - 1) ≤ r < 10 ^ p` -/
def firstPlace (r : Ratio) : Int :=
  if r.den ≤ r.num then (Nat.toDigits 10 (r.num / r.den)).length
  else -(leadingZeros r 400 : Int)

/-- tries grids of more and more digits; `place` is the position of the first digit -/
def shortestFrom (mantissa : Nat) (exponent : Int) (value : Ratio) (place : Int) (count : Nat) :
    Nat → Nat × Int
  | 0 => (0, 0)
  | tries + 1 =>
    let power := place - count
    let steps := value.scale 10 (-power)
    let below := steps.num / steps.den
    let hit := fun (n : Nat) => roundsTo mantissa exponent (Ratio.scale ⟨n, 1⟩ 10 power)
    let nearerAbove := steps.den ≤ 2 * (steps.num % steps.den)
    if hit below ∧ (¬ hit (below + 1) ∨ ¬ nearerAbove) then (below, power)
    else if hit (below + 1) then (below + 1, power)
    else shortestFrom mantissa exponent value place (count + 1) tries

/-- moves zeros at the end of the digits into the power of ten -/
def dropZeros (digits : Nat) (power : Int) : Nat × Int :=
  if 0 < digits ∧ digits % 10 = 0 then dropZeros (digits / 10) (power + 1) else (digits, power)
termination_by digits
decreasing_by omega

/-- the fewest digits that round to `mantissa * 2 ^ exponent`, and their power of ten; of two
candidates the nearer, of two equally near the greater.  A value just below a power of ten may
round up to it, and then the digits end in zeros that do not count. -/
def shortest (mantissa : Nat) (exponent : Int) : Nat × Int :=
  let value := Ratio.scale ⟨mantissa, 1⟩ 2 exponent
  let (digits, power) := shortestFrom mantissa exponent value (firstPlace value) 1 17
  dropZeros digits power

/-! ## text -/

/-- `digits * 10 ^ power` with a point and at least one digit on either side -/
def positional (digits : Nat) (power : Int) : String :=
  let text := digits.repr.toList
  if 0 ≤ power then String.ofList (text ++ List.replicate power.toNat '0') ++ ".0"
  else
    let places := (-power).toNat
    let padded := List.replicate (places + 1 - text.length) '0' ++ text
    let whole := padded.length - places
    String.ofList (padded.take whole) ++ "." ++ String.ofList (padded.drop whole)

def Binary.text : Binary → String
  | finite negative mantissa exponent =>
    let sign := if negative then "-" else ""
    if mantissa = 0 then sign ++ "0.0"
    else
      let (digits, power) := shortest mantissa exponent
      sign ++ positional digits power
  | infinite negative => if negative then "-inf" else "inf"
  | nan => "NaN"

end CommentFree.Decimal
