import WebBundler.Text.Split
set_option autoImplicit false

/-!
# Json: decimal numbers and the shortest text of a double

A number written with a point or an exponent is kept as the exact decimal it was written as, and
is read as the nearest binary double.  It is shown with the fewest digits that read back as the
same double.  Decoding the double to `m · 2^q` turns "reads back" into membership in an interval
of rationals (ends included iff `m` is even), so the search for digits is exact `Nat`
arithmetic.
-/

namespace WebBundler.Json

/-- The decimal `± digits · 10 ^ exponent`. -/
structure Decimal where
  negative : Bool
  digits : Nat
  exponent : Int
  deriving DecidableEq, Repr, Inhabited

/-- The sign at the start of a text, and what follows it. -/
def splitSign : List Char → Bool × List Char
  | '+' :: rest => (false, rest)
  | '-' :: rest => (true, rest)
  | s => (false, s)

/-- A positive rational as a quotient of naturals. -/
structure Ratio where
  num : Nat
  den : Nat
  deriving DecidableEq, Repr

namespace Ratio

/-- `m · base ^ e`. -/
def scaled (m base : Nat) (e : Int) : Ratio :=
  if 0 ≤ e then ⟨m * base.pow e.toNat, 1⟩ else ⟨m, base.pow (-e).toNat⟩

/-- The quotient of two positive rationals. -/
def div (a b : Ratio) : Ratio := ⟨a.num * b.den, a.den * b.num⟩

def le (a b : Ratio) : Bool := a.num * b.den ≤ b.num * a.den

def lt (a b : Ratio) : Bool := a.num * b.den < b.num * a.den

/-- The largest natural that is not above it. -/
def floor (a : Ratio) : Nat := a.num / a.den

/-- The exponent `e` with `10 ^ e ≤ a < 10 ^ (e + 1)`. -/
def decimalExponent (a : Ratio) : Int :=
  let digits (n : Nat) : Int := ((Nat.toDigits 10 n).length : Int)
  let guess : Int := digits a.num - digits a.den
  if (scaled 1 10 guess).le a then guess else guess - 1

end Ratio

/-- The double nearest to a decimal, as its 64 bits. -/
def Decimal.bits (d : Decimal) : Nat :=
  let magnitude :=
    if d.digits = 0 ∨ d.exponent + (Nat.toDigits 10 d.digits).length < -400 then (0 : Float)
    else if 0 ≤ d.exponent then Float.ofScientific d.digits false d.exponent.toNat
    else Float.ofScientific d.digits true (-d.exponent).toNat
  magnitude.toBits.toNat

/-- Whether a decimal is too large for any finite double. -/
def Decimal.overflows (d : Decimal) : Bool :=
  if d.digits = 0 then false
  else
    let size := d.exponent + (Nat.toDigits 10 d.digits).length
    if size > 310 then true
    else if size < 300 then false
    else (Ratio.scaled (Nat.pow 2 54 - 1) 2 970).le (Ratio.scaled d.digits 10 d.exponent)

/-- The digits and the exponent of the shortest decimal that reads back as `m · 2 ^ q`, where
`narrow` says that the next double below is only half a step away. -/
def shortest (m : Nat) (q : Int) (narrow : Bool) : Nat × Int :=
  let value := Ratio.scaled (4 * m) 2 (q - 2)
  let low := Ratio.scaled (if narrow then 4 * m - 1 else 4 * m - 2) 2 (q - 2)
  let high := Ratio.scaled (4 * m + 2) 2 (q - 2)
  let inside (x : Ratio) : Bool :=
    if m % 2 = 0 then low.le x && x.le high else low.lt x && x.lt high
  let top := value.decimalExponent
  let grid (count : Nat) : Option (Nat × Int) :=
    let k : Int := top - (count : Int) + 1
    let unit := Ratio.scaled 1 10 k
    let below := (value.div unit).floor
    let above := below + 1
    let hitBelow := below != 0 && inside (Ratio.scaled below 10 k)
    let hitAbove := inside (Ratio.scaled above 10 k)
    if hitBelow && hitAbove then
      -- the nearer of the two neighbours, the even one on a tie
      let steps := value.div unit
      if 2 * steps.num < (2 * below + 1) * steps.den then some (below, k)
      else if (2 * below + 1) * steps.den < 2 * steps.num then some (above, k)
      else some ((if below % 2 = 0 then below else above), k)
    else if hitBelow then some (below, k)
    else if hitAbove then some (above, k)
    else none
  ((List.range 17).findSome? fun i => grid (i + 1)).getD
    ((value.div (.scaled 1 10 (top - 16))).floor, top - 16)

/-- How a double is laid out: the decimal exponents written without an exponent part, and the
least number of digits in the exponent. -/
structure RealFormat where
  leastPositional : Int
  greatestPositional : Int
  exponentDigits : Nat

/-- Doubles from `1e-4` to below `1e16` are written positionally with at least one digit on
either side of the point; all others with a signed exponent of at least two digits. -/
def realFormat : RealFormat := ⟨-4, 15, 2⟩

/-- The digits of a natural number, padded on the left with zeros to a width. -/
def padded (width n : Nat) : String :=
  let ds := Nat.toDigits 10 n
  String.ofList (List.replicate (width - ds.length) '0' ++ ds)

/-- Digits `ds`, the first of which counts `10 ^ top`, laid out as a format says. -/
def RealFormat.layout (f : RealFormat) (ds : List Char) (top : Int) : String :=
  if f.leastPositional ≤ top ∧ top ≤ f.greatestPositional then
    if top < 0 then
      "0." ++ String.ofList (List.replicate (-top - 1).toNat '0' ++ ds)
    else
      let whole := top.toNat + 1
      if ds.length ≤ whole then
        String.ofList (ds ++ List.replicate (whole - ds.length) '0') ++ ".0"
      else String.ofList (ds.take whole) ++ "." ++ String.ofList (ds.drop whole)
  else
    let mantissa :=
      match ds with
      | [] => "0"
      | [d] => String.ofList [d]
      | d :: rest => String.ofList (d :: '.' :: rest)
    mantissa ++ "e" ++ (if top < 0 then "-" else "+") ++ padded f.exponentDigits top.natAbs

/-- The text of the double nearest to a decimal. -/
def Decimal.text (d : Decimal) : String :=
  let bits : Nat := d.bits
  let fraction : Nat := bits % Nat.pow 2 52
  let field : Nat := bits / Nat.pow 2 52 % Nat.pow 2 11
  let sign := if d.negative then "-" else ""
  if fraction = 0 ∧ field = 0 then sign ++ "0.0"
  else
    let m := if field = 0 then fraction else Nat.pow 2 52 + fraction
    let q : Int := if field = 0 then -1074 else (field : Int) - 1075
    let (digits, k) := shortest m q (fraction = 0 && field > 1)
    let ds := Nat.toDigits 10 digits
    let top := k + ((ds.length : Int) - 1)
    let kept := (ds.reverse.dropWhile (· == '0')).reverse
    sign ++ realFormat.layout kept top

end WebBundler.Json
