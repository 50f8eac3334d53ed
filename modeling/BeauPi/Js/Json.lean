import Mathlib.Data.Rat.Defs
import Mathlib.Algebra.Order.Ring.Rat

/-!
# JSON values and their text

The values that `JSON.stringify` writes and `JSON.parse` reads, and the part of
the language that the runtimes of this repository use on them.

A number is identified with the decimal number its shortest printed form denotes,
so numbers are rationals with exact comparison.  Objects keep their fields in
insertion order, which is the order in which `JSON.stringify` writes them; an
absent field and a field whose value is `undefined` are the same thing, since
`JSON.stringify` leaves both out.
-/

namespace BeauPi

/-- A JSON value. -/
inductive Json
  | null
  | bool (b : Bool)
  | num (n : ℚ)
  | str (s : String)
  | arr (items : List Json)
  | obj (fields : List (String × Json))
  deriving Repr, Inhabited

namespace Json

/-! ## Equality -/

mutual
/-- Equality of values is decidable. -/
def decEq : (a b : Json) → Decidable (a = b)
  | .null, .null => isTrue rfl
  | .bool a, .bool b => decidable_of_iff (a = b) (by simp)
  | .num a, .num b => decidable_of_iff (a = b) (by simp)
  | .str a, .str b => decidable_of_iff (a = b) (by simp)
  | .arr a, .arr b =>
    have := decEqItems a b
    decidable_of_iff (a = b) (by simp)
  | .obj a, .obj b =>
    have := decEqFields a b
    decidable_of_iff (a = b) (by simp)
  | .null, .bool _ | .null, .num _ | .null, .str _ | .null, .arr _ | .null, .obj _
  | .bool _, .null | .bool _, .num _ | .bool _, .str _ | .bool _, .arr _ | .bool _, .obj _
  | .num _, .null | .num _, .bool _ | .num _, .str _ | .num _, .arr _ | .num _, .obj _
  | .str _, .null | .str _, .bool _ | .str _, .num _ | .str _, .arr _ | .str _, .obj _
  | .arr _, .null | .arr _, .bool _ | .arr _, .num _ | .arr _, .str _ | .arr _, .obj _
  | .obj _, .null | .obj _, .bool _ | .obj _, .num _ | .obj _, .str _ | .obj _, .arr _ =>
    isFalse (by simp)

/-- Equality of the items of arrays. -/
def decEqItems : (a b : List Json) → Decidable (a = b)
  | [], [] => isTrue rfl
  | [], _ :: _ => isFalse (by simp)
  | _ :: _, [] => isFalse (by simp)
  | v :: vs, w :: ws =>
    have := decEq v w
    have := decEqItems vs ws
    decidable_of_iff (v = w ∧ vs = ws) (by simp)

/-- Equality of the fields of objects. -/
def decEqFields : (a b : List (String × Json)) → Decidable (a = b)
  | [], [] => isTrue rfl
  | [], _ :: _ => isFalse (by simp)
  | _ :: _, [] => isFalse (by simp)
  | (k, v) :: vs, (l, w) :: ws =>
    have := decEq v w
    have := decEqFields vs ws
    decidable_of_iff (k = l ∧ v = w ∧ vs = ws) (by simp [and_assoc])
end

instance : DecidableEq Json := decEq

/-! ## Reading -/

/-- The value of a field of a field list. -/
def field? (key : String) : List (String × Json) → Option Json
  | [] => none
  | (k, v) :: rest => if k = key then some v else field? key rest

/-- Property access on an object; every other value has no own properties. -/
def get? : Json → String → Option Json
  | .obj fields, key => field? key fields
  | _, _ => none

/-- `typeof value === "string" ? value : undefined`. -/
def asString? : Option Json → Option String
  | some (.str s) => some s
  | _ => none

/-- `typeof value === "number" ? value : undefined`. -/
def asNumber? : Option Json → Option ℚ
  | some (.num n) => some n
  | _ => none

/-- Is the value an object other than an array and `null`? -/
def isRecord : Json → Bool
  | .obj _ => true
  | _ => false

/-! ## The text of a number -/

/-- Scale a positive decimal number up to an integer: its digits as a natural
number, and how many of them stand after the point. -/
def scaleUp : Nat → ℚ → Nat → Nat × Nat
  | 0, q, k => (q.num.natAbs, k)
  | fuel + 1, q, k => if q.den = 1 then (q.num.natAbs, k) else scaleUp fuel (q * 10) (k + 1)

/-- Drop the trailing zeros of a natural number, counting them. -/
def dropZeros : Nat → Nat → Nat → Nat × Nat
  | 0, s, k => (s, k)
  | fuel + 1, s, k => if s ≠ 0 ∧ s % 10 = 0 then dropZeros fuel (s / 10) (k + 1) else (s, k)

/-- The characters of `n` zeros. -/
def zeros (n : Nat) : List Char := List.replicate n '0'

/-- `Number::toString` on a positive number: its digits `s` (no trailing zero) and
the exponent `n` with value `0.s × 10ⁿ` select plain or exponent notation. -/
def positiveToString (q : ℚ) : List Char :=
  let (s₀, down) := scaleUp q.den q 0
  let (s, up) := dropZeros s₀ s₀ 0
  let digits := (toString s).toList
  let k := digits.length
  let n : Int := k + up - down
  if (k : Int) ≤ n ∧ n ≤ 21 then digits ++ zeros (n.toNat - k)
  else if 0 < n ∧ n ≤ 21 then digits.take n.toNat ++ ['.'] ++ digits.drop n.toNat
  else if -6 < n ∧ n ≤ 0 then '0' :: '.' :: (zeros (-n).toNat ++ digits)
  else
    let e := n - 1
    let sign := if e < 0 then '-' else '+'
    let point := if k = 1 then [] else '.' :: digits.drop 1
    digits.take 1 ++ point ++ ['e', sign] ++ (toString e.natAbs).toList

/-- `Number::toString`, on characters. -/
def numberText (q : ℚ) : List Char :=
  if q = 0 then ['0']
  else if q < 0 then '-' :: positiveToString (-q)
  else positiveToString q

/-! ## `JSON.stringify` -/

/-- A hexadecimal digit. -/
def hexDigit (n : Nat) : Char := if n < 10 then Char.ofNat (48 + n) else Char.ofNat (87 + n)

/-- How a character is written inside a JSON string. -/
def escapeChar (c : Char) : List Char :=
  if c = '"' then ['\\', '"']
  else if c = '\\' then ['\\', '\\']
  else if c = '\n' then ['\\', 'n']
  else if c = '\r' then ['\\', 'r']
  else if c = '\t' then ['\\', 't']
  else if c.toNat = 8 then ['\\', 'b']
  else if c.toNat = 12 then ['\\', 'f']
  else if c.toNat < 32 then ['\\', 'u', '0', '0', hexDigit (c.toNat / 16), hexDigit (c.toNat % 16)]
  else [c]

/-- The characters of a JSON string literal. -/
def quoteText (cs : List Char) : List Char := '"' :: (cs.flatMap escapeChar ++ ['"'])

/-- A JSON string literal. -/
def quote (s : String) : String := String.ofList (quoteText s.toList)

mutual
/-- The characters of `JSON.stringify` without indentation. -/
def text : Json → List Char
  | .null => ['n', 'u', 'l', 'l']
  | .bool true => ['t', 'r', 'u', 'e']
  | .bool false => ['f', 'a', 'l', 's', 'e']
  | .num n => numberText n
  | .str s => quoteText s.toList
  | .arr items => '[' :: ([','].intercalate (itemTexts items) ++ [']'])
  | .obj fields => '\x7b' :: ([','].intercalate (fieldTexts fields) ++ ['\x7d'])

/-- The texts of the items of an array. -/
def itemTexts : List Json → List (List Char)
  | [] => []
  | v :: vs => text v :: itemTexts vs

/-- The texts of the fields of an object. -/
def fieldTexts : List (String × Json) → List (List Char)
  | [] => []
  | (k, v) :: rest => (quoteText k.toList ++ ':' :: text v) :: fieldTexts rest
end

/-- `JSON.stringify`. -/
def stringify (value : Json) : String := String.ofList (text value)

/-! ## Writing -/

/-- A field that is left out when its value is `undefined`. -/
def optField (key : String) : Option Json → List (String × Json)
  | none => []
  | some v => [(key, v)]

/-- A JSON array of strings. -/
def strings (xs : List String) : Json := .arr (xs.map .str)

/-- A natural number as a JSON number. -/
def nat (n : Nat) : Json := .num n

end Json
end BeauPi
