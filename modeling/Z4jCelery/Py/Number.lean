import Z4jCelery.Py.Effect
import Mathlib.Algebra.Order.Round
import Mathlib.Data.Rat.Floor
import Mathlib.Data.Int.Log
/-!
# Numbers and instants

`int` and `float` of a value, binary64 rounding, and the conversion of a POSIX
timestamp to a `datetime`. An instant is its microseconds since the epoch,
which is what an aware UTC `datetime` holds.
-/

namespace Z4jCelery.Py

/-! ## `int(s)` -/

/-- The whitespace around a number: the separators U+001C to U+001F are none. -/
def isspace_number (c : Char) : Bool := isspace c && !(28 ≤ c.toNat && c.toNat ≤ 31)

section Digits
variable (py : Interp)

def digit (c : Char) : Option Nat :=
  (py.digits.zeros.find? (fun z => z ≤ c.toNat && c.toNat ≤ z + 9)).map (fun z => c.toNat - z)

/-- Digits, with single underscores between them, onto an accumulator; the flag
says that the last character was a digit. The count is of the digits. -/
def intDigits : List Char → Nat → Nat → Bool → Option (Nat × Nat)
  | [], acc, n, afterDigit => if afterDigit then some (acc, n) else none
  | c :: cs, acc, n, afterDigit =>
    if c = '_' then if afterDigit then intDigits cs acc n false else none
    else match digit py c with
      | some d => intDigits cs (10 * acc + d) (n + 1) true
      | none => none

/-- The interpreter's default limit on the digits of an integer literal. -/
def INT_MAX_STR_DIGITS : Nat := 4300

/-- `int(s)`; `none` where it raises `ValueError`. -/
def int_of_str (s : String) : Option Int :=
  let unsigned (cs : List Char) : Option Nat :=
    match intDigits py cs 0 0 false with
    | some (v, n) => if n ≤ INT_MAX_STR_DIGITS then some v else none
    | none => none
  match stripped isspace_number s.toList with
  | '-' :: cs => (unsigned cs).map (fun v => -(v : Int))
  | '+' :: cs => (unsigned cs).map (fun v => (v : Int))
  | cs => (unsigned cs).map (fun v => (v : Int))

end Digits

example : int_of_str .plain " +1_000 " = some 1000 := by decide
example : int_of_str .plain "1__0" = none := by decide

/-! ## Rounding -/

/-- The nearest integer, ties to even. -/
def roundHalfEven (q : ℚ) : ℤ :=
  if q - ⌊q⌋ < 1 / 2 then ⌊q⌋
  else if 1 / 2 < q - ⌊q⌋ then ⌊q⌋ + 1
  else if ⌊q⌋ % 2 = 0 then ⌊q⌋ else ⌊q⌋ + 1

/-- The binary64 float nearest to `q`, ties to even; an infinity when it is too
large. -/
def roundDouble (q : ℚ) : PyFloat :=
  let ulp : ℚ := 2 ^ max (Int.log 2 |q| - 52) (-1074)
  let r := roundHalfEven (q / ulp) * ulp
  if |r| < 2 ^ 1024 then .finite r else .inf (decide (q < 0))

/-! ## `float(v)` and back -/

section Float
variable (py : Interp)

/-- A literal without its underscores, which may stand between two digits only.
The flag says that a digit came before. -/
def dropUnderscores : Bool → List Char → Option (List Char)
  | _, [] => some []
  | afterDigit, c :: cs =>
    if c = '_' then if afterDigit && cs.head?.any (fun d => (digit py d).isSome) then dropUnderscores false cs else none
    else (dropUnderscores (digit py c).isSome cs).map (c :: ·)

/-- The longest prefix of digits, as their values, and what follows. -/
def digitRun (cs : List Char) : List Nat × List Char :=
  ((cs.takeWhile (fun c => (digit py c).isSome)).filterMap (digit py), cs.dropWhile (fun c => (digit py c).isSome))

def ofDigits (ds : List Nat) : Nat := ds.foldl (fun acc d => 10 * acc + d) 0

/-- `e` or `E`, an optional sign and digits; zero when nothing is left. -/
def exponent : List Char → Option Int
  | [] => some 0
  | c :: cs =>
    let (neg, ds) := match cs with
      | '-' :: ds => (true, digitRun py ds)
      | '+' :: ds => (false, digitRun py ds)
      | ds => (false, digitRun py ds)
    if (c = 'e' ∨ c = 'E') ∧ ds.1 ≠ [] ∧ ds.2 = [] then
      some (if neg then -(ofDigits ds.1 : Int) else ofDigits ds.1)
    else none

/-- An unsigned float literal. -/
def float_unsigned (cs : List Char) : Option PyFloat :=
  if lower (String.ofList cs) ∈ ["inf", "infinity"] then some (.inf false)
  else if lower (String.ofList cs) = "nan" then some .nan
  else
    let whole := digitRun py cs
    let frac := match whole.2 with
      | '.' :: rest => digitRun py rest
      | rest => ([], rest)
    if whole.1 = [] ∧ frac.1 = [] then none
    else (exponent py frac.2).map fun e : Int =>
      roundDouble (ofDigits (whole.1 ++ frac.1) * 10 ^ (e - frac.1.length))

def PyFloat.neg : PyFloat → PyFloat
  | .finite q => .finite (-q)
  | .inf n => .inf !n
  | .nan => .nan

/-- `float(s)`; `none` where it raises `ValueError`. -/
def float_of_str (s : String) : Option PyFloat :=
  match dropUnderscores py false (stripped isspace_number s.toList) with
  | some ('-' :: cs) => (float_unsigned py cs).map PyFloat.neg
  | some ('+' :: cs) => float_unsigned py cs
  | some cs => float_unsigned py cs
  | none => none

/-- `float(v)`. -/
def float_of (v : Val) : Except Exn PyFloat :=
  match v with
  | .float x => .ok x
  | .bool b => .ok (.finite (if b then 1 else 0))
  | .int i =>
    match roundDouble i with
    | .inf _ => .error ⟨.OverflowError, "OverflowError", "int too large to convert to float"⟩
    | x => .ok x
  | .str s =>
    match float_of_str py s with
    | some x => .ok x
    | none => .error ⟨.ValueError, "ValueError", "could not convert string to float"⟩
  | _ => .error ⟨.TypeError, "TypeError", "float() argument must be a string or a real number"⟩

end Float

/-- `x * k`, for a positive integer `k`. -/
def PyFloat.scale (x : PyFloat) (k : Nat) : PyFloat :=
  match x with
  | .finite q => roundDouble (q * k)
  | x => x

/-- `int(x)`: towards zero. -/
def int_of_float : PyFloat → Except Exn Int
  | .finite q => .ok (q.num.tdiv q.den)
  | .inf _ => .error ⟨.OverflowError, "OverflowError", "cannot convert float infinity to integer"⟩
  | .nan => .error ⟨.ValueError, "ValueError", "cannot convert float NaN to integer"⟩

/-- `int(v)`. -/
def int_of (py : Interp) (v : Val) : Except Exn Int :=
  match v with
  | .int i => .ok i
  | .bool b => .ok (if b then 1 else 0)
  | .float x => int_of_float x
  | .str s =>
    match int_of_str py s with
    | some i => .ok i
    | none => .error ⟨.ValueError, "ValueError", "invalid literal for int() with base 10"⟩
  | _ => .error ⟨.TypeError, "TypeError", "int() argument must be a string or a real number"⟩

/-! ## Instants -/

/-- Microseconds in a second. -/
def MICROS : Int := 1000000

/-- `datetime.min` and `datetime.max` in UTC. -/
def DATETIME_MIN : Int := -62135596800 * MICROS
def DATETIME_MAX : Int := 253402300800 * MICROS - 1

/-- `datetime.fromtimestamp(x, tz=UTC)`: the nearest microsecond, ties to even. -/
def fromtimestamp : PyFloat → Except Exn Int
  | .nan => .error ⟨.ValueError, "ValueError", "cannot convert float NaN to integer"⟩
  | .inf _ => .error ⟨.OverflowError, "OverflowError", "cannot convert float infinity to integer"⟩
  | .finite q =>
    let us := roundHalfEven (q * MICROS)
    if DATETIME_MIN ≤ us ∧ us ≤ DATETIME_MAX then .ok us
    else .error ⟨.ValueError, "ValueError", "year is out of range"⟩

/-- `f"{timedelta(microseconds=us).total_seconds():.0f}"`. -/
def total_seconds_text (us : Int) : String :=
  match roundDouble (us / MICROS) with
  | .finite q => toString (roundHalfEven q)
  | .inf _ | .nan => ""

end Z4jCelery.Py
