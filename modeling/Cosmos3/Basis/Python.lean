import Cosmos3.Basis.Json
import Mathlib.Algebra.Order.Ring.Rat
import Mathlib.Data.Rat.Floor

namespace Basis.Python

-- The values that `json.loads` makes: unlike those of JSON they tell the integer
-- 1 from the float 1.0.
inductive Value where
  | none
  | bool (value : Bool)
  | int (value : ℤ)
  | float (value : Number)
  | str (value : Text)
  | list (items : List Value)
  | dict (fields : List (Text × Value))

-- The exceptions that the built-in conversions raise.
inductive Exn where
  | typeError
  | valueError
  | overflowError
  | attributeError
  | keyError
  | runtimeError
  | unicodeEncodeError
deriving DecidableEq, Repr

abbrev Dict := List (Text × Value)

namespace Dict

def get (d : Dict) (key : Text) : Option Value := (d.find? fun field => field.1 = key).map (·.2)

-- `d[key] = value`: a new key comes last.
def set : Dict → Text → Value → Dict
  | [], key, value => [(key, value)]
  | field :: d, key, value =>
    if field.1 = key then (key, value) :: d else field :: set d key value

theorem get_cons (field : Text × Value) (d : Dict) (key : Text) :
    get (field :: d) key = if field.1 = key then some field.2 else d.get key := by
  by_cases h : field.1 = key <;> simp [get, h]

@[simp] theorem get_nil (key : Text) : get [] key = none := rfl

@[simp] theorem get_set_self (d : Dict) (key : Text) (value : Value) :
    (d.set key value).get key = some value := by
  induction d with
  | nil => simp [set, get_cons]
  | cons field d ih =>
      rw [set]
      by_cases h : field.1 = key
      · rw [if_pos h, get_cons, if_pos rfl]
      · rw [if_neg h, get_cons, if_neg h, ih]

@[simp] theorem get_set_of_ne (d : Dict) {key other : Text} (hne : other ≠ key) (value : Value) :
    (d.set key value).get other = d.get other := by
  induction d with
  | nil => simp [set, get_cons, Ne.symm hne]
  | cons field d ih =>
      rw [set]
      by_cases h : field.1 = key
      · rw [if_pos h, get_cons, get_cons, if_neg (Ne.symm hne), if_neg (by rw [h]; exact Ne.symm hne)]
      · rw [if_neg h, get_cons, get_cons, ih]

end Dict

section Unicode

-- A text as its code points. A surrogate that is not one of a pair stands for itself.
def codePoints : Text → List Nat
  | [] => []
  | [u] => [u.toNat]
  | u :: v :: t =>
    if 0xD800 ≤ u ∧ u < 0xDC00 ∧ 0xDC00 ≤ v ∧ v < 0xE000 then
      (0x10000 + (u.toNat - 0xD800) * 0x400 + (v.toNat - 0xDC00)) :: codePoints t
    else u.toNat :: codePoints (v :: t)

-- The zeros of the decimal digits, each with its other nine behind it.
def decimalZeros : List Nat :=
  [0x30, 0x660, 0x6F0, 0x7C0, 0x966, 0x9E6, 0xA66, 0xAE6, 0xB66, 0xBE6, 0xC66, 0xCE6, 0xD66, 0xDE6,
    0xE50, 0xED0, 0xF20, 0x1040, 0x1090, 0x17E0, 0x1810, 0x1946, 0x19D0, 0x1A80, 0x1A90, 0x1B50,
    0x1BB0, 0x1C40, 0x1C50, 0xA620, 0xA8D0, 0xA900, 0xA9D0, 0xA9F0, 0xAA50, 0xABF0, 0xFF10, 0x104A0,
    0x10D30, 0x11066, 0x110F0, 0x11136, 0x111D0, 0x112F0, 0x11450, 0x114D0, 0x11650, 0x116C0, 0x11730,
    0x118E0, 0x11950, 0x11C50, 0x11D50, 0x11DA0, 0x11F50, 0x16A60, 0x16AC0, 0x16B50, 0x1D7CE, 0x1D7D8,
    0x1D7E2, 0x1D7EC, 0x1D7F6, 0x1E140, 0x1E2F0, 0x1E4F0, 0x1E950, 0x1FBF0]

def toDecimal (c : Nat) : Option Nat :=
  (decimalZeros.find? fun first => first ≤ c ∧ c < first + 10).map fun first => c - first

def isUnicodeSpace (c : Nat) : Bool :=
  (9 ≤ c && c ≤ 13) || (28 ≤ c && c ≤ 32) || c = 0x85 || c = 0xA0 || c = 0x1680 ||
    (0x2000 ≤ c && c ≤ 0x200A) || c = 0x2028 || c = 0x2029 || c = 0x202F || c = 0x205F || c = 0x3000

def asciiSpace (u : UInt16) : Bool := (9 ≤ u && u ≤ 13) || u = 32

-- What the number parsers see of a text: digits and spaces of any script become
-- those of ASCII. A text that is ASCII is taken as it is.
def toAscii (s : Text) : Text :=
  if s.all (· < 128) then s
  else (codePoints s).map fun c =>
    if c < 127 then c.toUInt16
    else if isUnicodeSpace c then 32
    else match toDecimal c with
      | some digit => (48 + digit).toUInt16
      | none => 63

def strip (t : Text) : Text := ((t.dropWhile asciiSpace).reverse.dropWhile asciiSpace).reverse

def signed (t : Text) : Bool × Text :=
  match t with
  | u :: rest => if u = 45 then (true, rest) else if u = 43 then (false, rest) else (false, t)
  | [] => (false, [])

end Unicode

section Conversions

def trunc (q : ℚ) : ℤ := q.num.tdiv q.den

-- The longest run of digits that `int` converts.
def maxStrDigits : Nat := 4300

-- Digits with single underscores between them.
def digits (t : Text) : Option Text :=
  let parts := t.splitOn 95
  if parts.all fun part => part ≠ [] && part.all isDecimalDigit then some parts.flatten else none

def intLiteral (s : Text) : Option ℤ :=
  let (negative, t) := signed (strip (toAscii s))
  (digits t).bind fun ds =>
    if ds.length ≤ maxStrDigits then some (if negative then -(ofDecimal ds : ℤ) else ofDecimal ds)
    else none

-- `int(value)`
def intOf : Value → Except Exn ℤ
  | .none => .error .typeError
  | .bool value => .ok (if value then 1 else 0)
  | .int value => .ok value
  | .float (.finite q) => .ok (trunc q)
  | .float .nan => .error .valueError
  | .float .infinity => .error .overflowError
  | .float .negInfinity => .error .overflowError
  | .str s =>
    match intLiteral s with
    | some n => .ok n
    | none => .error .valueError
  | .list _ => .error .typeError
  | .dict _ => .error .typeError

-- From here on a number rounds to no float.
def floatBound : ℚ := 2 ^ 1024 - 2 ^ 970

-- The integer next to a number, the even one of two.
def roundEven (q : ℚ) : ℤ :=
  if q - ⌊q⌋ < 1 / 2 then ⌊q⌋ else if 1 / 2 < q - ⌊q⌋ then ⌊q⌋ + 1 else ⌊q⌋ + ⌊q⌋ % 2

-- The float next to a number within that bound: 53 bits, and no part below `2 ^ -1074`.
def nearestFloat (q : ℚ) : ℚ :=
  let scaled := q * 2 ^ 1074
  let ulp : ℚ := 2 ^ (⌊|scaled|⌋.toNat.log2 - 52)
  roundEven (scaled / ulp) * ulp / 2 ^ 1074

def toFloat (q : ℚ) : Number :=
  if q ≤ -floatBound then .negInfinity else if floatBound ≤ q then .infinity else .finite q

-- Underscores stand between two digits.
def dropUnderscores : Text → Option Text
  | [] => some []
  | [u] => if u = 95 then none else some [u]
  | u :: v :: t =>
    if v = 95 then
      match t with
      | w :: _ => if isDecimalDigit u && isDecimalDigit w then (dropUnderscores t).map (u :: ·) else none
      | [] => none
    else if u = 95 then none
    else (dropUnderscores (v :: t)).map (u :: ·)

def lower (t : Text) : Text := t.map fun u => if 65 ≤ u ∧ u ≤ 90 then u + 32 else u

-- Digits with at most one point among them, and at least one digit.
def mantissa (t : Text) : Option ℚ :=
  let whole := t.takeWhile isDecimalDigit
  match t.dropWhile isDecimalDigit with
  | [] => if whole = [] then none else some (ofDecimal whole)
  | u :: fraction =>
    if u = 46 && fraction.all isDecimalDigit && (whole ++ fraction ≠ []) then
      some (ofDecimal (whole ++ fraction) / 10 ^ fraction.length)
    else none

def exponent (t : Text) : Option ℤ :=
  let (negative, ds) := signed t
  if ds ≠ [] && ds.all isDecimalDigit then some (if negative then -(ofDecimal ds : ℤ) else ofDecimal ds)
  else none

def unsignedFloat (t : Text) : Option ℚ :=
  let front := t.takeWhile (· ≠ 101)
  match t.dropWhile (· ≠ 101) with
  | [] => mantissa front
  | _ :: power =>
    match mantissa front, exponent power with
    | some q, some e => some (q * 10 ^ e)
    | _, _ => none

def floatLiteral (s : Text) : Option Number :=
  (dropUnderscores (strip (toAscii s))).bind fun t =>
    let (negative, body) := signed (lower t)
    if body = ascii "inf" ∨ body = ascii "infinity" then
      some (if negative then .negInfinity else .infinity)
    else if body = ascii "nan" then some .nan
    else (unsignedFloat body).map fun q => toFloat (if negative then -q else q)

-- `float(value)`. An integer too large for a float is an error, a text is not.
def floatOf : Value → Except Exn Number
  | .none => .error .typeError
  | .bool value => .ok (.finite (if value then 1 else 0))
  | .int value =>
    if -floatBound < value ∧ (value : ℚ) < floatBound then .ok (.finite value)
    else .error .overflowError
  | .float value => .ok value
  | .str s =>
    match floatLiteral s with
    | some x => .ok x
    | none => .error .valueError
  | .list _ => .error .typeError
  | .dict _ => .error .typeError

-- `bool(value)`
def truth : Value → Bool
  | .none => false
  | .bool value => value
  | .int value => value ≠ 0
  | .float (.finite q) => q ≠ 0
  | .float _ => true
  | .str s => s ≠ []
  | .list items => !items.isEmpty
  | .dict fields => !fields.isEmpty

end Conversions

section Texts

def intText (n : ℤ) : Text := if n < 0 then 45 :: decimal n.natAbs else decimal n.natAbs

-- How `repr` shows the finite floats: other texts for other floats, and never the
-- text of an integer.
structure FloatText where
  literal : ℚ → Text
  literal_units : ∀ q, ∀ u ∈ literal q, Json.isNumberUnit u = true
  literal_injective : Function.Injective literal
  literal_ne_intText : ∀ q n, literal q ≠ intText n

-- How texts and finite floats are shown.
structure Shown extends FloatText where
  text : Text → Text

variable (shown : Shown)

mutual

-- `repr(value)`
def repr : Value → Text
  | .none => ascii "None"
  | .bool true => ascii "True"
  | .bool false => ascii "False"
  | .int n => intText n
  | .float (.finite q) => shown.literal q
  | .float .nan => ascii "nan"
  | .float .infinity => ascii "inf"
  | .float .negInfinity => ascii "-inf"
  | .str s => shown.text s
  | .list items => Json.openBracket :: (reprItems items ++ [Json.closeBracket])
  | .dict fields => Json.openBrace :: (reprFields fields ++ [Json.closeBrace])

def reprItems : List Value → Text
  | [] => []
  | [item] => repr item
  | item :: next :: items => repr item ++ ascii ", " ++ reprItems (next :: items)

def reprFields : List (Text × Value) → Text
  | [] => []
  | [(key, item)] => shown.text key ++ ascii ": " ++ repr item
  | (key, item) :: next :: fields =>
      shown.text key ++ ascii ": " ++ repr item ++ ascii ", " ++ reprFields (next :: fields)

end

-- `str(value)`
def strOf : Value → Text
  | .str s => s
  | v => repr shown v

end Texts

end Basis.Python
