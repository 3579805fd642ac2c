import WebBundler.Text.Split
set_option autoImplicit false

/-!
# Durations

A span of time in whole seconds and nanoseconds, as the summary of a build words it.
-/

namespace WebBundler

/-- A span of time. -/
structure Duration where
  seconds : Nat
  /-- What is left of a second. -/
  nanos : Nat
  deriving DecidableEq, Repr, Inhabited

namespace Duration

/-- A span of nanoseconds. -/
def ofNanos (n : Nat) : Duration := ⟨n / 1000000000, n % 1000000000⟩

/-- The whole milliseconds. -/
def millis (d : Duration) : Nat := d.seconds * 1000 + d.nanos / 1000000

/-- The seconds, a started one counted in full. -/
def roundedUp (d : Duration) : Nat := if 0 < d.nanos then d.seconds + 1 else d.seconds

/-- A number below a hundred with two digits. -/
def twoDigits (n : Nat) : String :=
  String.ofList [Nat.digitChar (n / 10 % 10), Nat.digitChar (n % 10)]

/-- The span in seconds, as a double. -/
def toFloat (d : Duration) : Float := Float.ofNat d.seconds + Float.ofNat d.nanos / 1000000000

/-- The quotient of two naturals to the nearest natural, of two nearest ones to the even one. -/
def roundDiv (num den : Nat) : Nat :=
  let below := num / den
  let rest := num % den
  if 2 * rest < den then below
  else if den < 2 * rest then below + 1
  else if below % 2 = 0 then below else below + 1

/-- The hundredths of a second, to the nearest, of the double that the span is closest to. -/
def hundredths (d : Duration) : Nat :=
  let bits := d.toFloat.toBits.toNat
  let exponent := bits / Nat.pow 2 52 % Nat.pow 2 11
  let mantissa :=
    if exponent = 0 then bits % Nat.pow 2 52 else Nat.pow 2 52 + bits % Nat.pow 2 52
  roundDiv (mantissa * 100 * Nat.pow 2 exponent) (Nat.pow 2 1075)

/-- Milliseconds below a second, seconds with two places below a minute, and else minutes and
seconds. -/
def text (d : Duration) : String :=
  if d.millis < 1000 then toString d.millis ++ "ms"
  else if d.millis < 60000 then
    toString (d.hundredths / 100) ++ "." ++ twoDigits (d.hundredths % 100) ++ "s"
  else toString (d.seconds / 60) ++ "m " ++ toString (d.seconds % 60) ++ "s"

end Duration

end WebBundler
