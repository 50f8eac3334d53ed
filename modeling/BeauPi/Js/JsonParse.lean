import BeauPi.Js.Json
import BeauPi.Js.Text
import BeauPi.Machine.OrderedMap

/-!
# `JSON.parse`

A recursive-descent reader for JSON texts.  The recursion is on a fuel argument;
every call of a reader consumes a character or returns, so the length of the text
is enough fuel.  An unpaired surrogate escape becomes U+FFFD.
-/

namespace BeauPi.Json

/-- JSON white space. -/
def isJsonSpace (c : Char) : Bool := c == ' ' || c == '\t' || c == '\n' || c == '\r'

/-- Skip white space. -/
def skipSpace (cs : List Char) : List Char := cs.dropWhile isJsonSpace

/-- The value of a hexadecimal digit. -/
def hexValue? (c : Char) : Option Nat :=
  if Js.isDigit c then some (c.toNat - 48)
  else if 'a' ≤ c ∧ c ≤ 'f' then some (c.toNat - 87)
  else if 'A' ≤ c ∧ c ≤ 'F' then some (c.toNat - 55)
  else none

/-- Four hexadecimal digits. -/
def hex4? : List Char → Option (Nat × List Char)
  | a :: b :: c :: d :: rest => do
    let a ← hexValue? a
    let b ← hexValue? b
    let c ← hexValue? c
    let d ← hexValue? d
    some (((a * 16 + b) * 16 + c) * 16 + d, rest)
  | _ => none

/-- The character of a `\u` escape, joining a surrogate pair. -/
def unicodeEscape? (cs : List Char) : Option (Char × List Char) :=
  match hex4? cs with
  | none => none
  | some (hi, rest) =>
    if 0xd800 ≤ hi ∧ hi < 0xdc00 then
      match rest with
      | '\\' :: 'u' :: rest' =>
        match hex4? rest' with
        | some (lo, rest'') =>
          if 0xdc00 ≤ lo ∧ lo < 0xe000 then
            some (Char.ofNat (0x10000 + (hi - 0xd800) * 0x400 + (lo - 0xdc00)), rest'')
          else some (Char.ofNat 0xfffd, rest)
        | none => some (Char.ofNat 0xfffd, rest)
      | _ => some (Char.ofNat 0xfffd, rest)
    else if 0xdc00 ≤ hi ∧ hi < 0xe000 then some (Char.ofNat 0xfffd, rest)
    else some (Char.ofNat hi, rest)

/-- The rest of a string literal after its opening quote. -/
def readString : Nat → List Char → Option (List Char × List Char)
  | 0, _ => none
  | _, [] => none
  | _, '"' :: rest => some ([], rest)
  | fuel + 1, '\\' :: 'u' :: rest => do
    let (c, rest) ← unicodeEscape? rest
    let (cs, rest) ← readString fuel rest
    some (c :: cs, rest)
  | fuel + 1, '\\' :: c :: rest => do
    let d ← match c with
      | '"' => some '"'
      | '\\' => some '\\'
      | '/' => some '/'
      | 'b' => some (Char.ofNat 8)
      | 'f' => some (Char.ofNat 12)
      | 'n' => some '\n'
      | 'r' => some '\r'
      | 't' => some '\t'
      | _ => none
    let (cs, rest) ← readString fuel rest
    some (d :: cs, rest)
  | fuel + 1, c :: rest =>
    if c.toNat < 32 ∨ c = '\\' then none
    else do
      let (cs, rest) ← readString fuel rest
      some (c :: cs, rest)

/-- The value of a run of decimal digits. -/
def digitsValue (cs : List Char) : Nat := cs.foldl (fun n c => n * 10 + (c.toNat - 48)) 0

/-- A number without its sign. -/
def readUnsigned (cs : List Char) : Option (ℚ × List Char) :=
  let intPart := cs.takeWhile Js.isDigit
  let rest := cs.dropWhile Js.isDigit
  if intPart.isEmpty ∨ (intPart.head? = some '0' ∧ 1 < intPart.length) then none
  else
    let fraction : Option (List Char × List Char) :=
      match rest with
      | '.' :: more =>
        if (more.takeWhile Js.isDigit).isEmpty then none
        else some (more.takeWhile Js.isDigit, more.dropWhile Js.isDigit)
      | _ => some ([], rest)
    match fraction with
    | none => none
    | some (frac, rest) =>
      let mantissa : ℚ := digitsValue (intPart ++ frac) / 10 ^ frac.length
      match rest with
      | c :: more =>
        if c = 'e' ∨ c = 'E' then
          let (neg, more) := match more with
            | '+' :: m => (false, m)
            | '-' :: m => (true, m)
            | m => (false, m)
          let exponent := more.takeWhile Js.isDigit
          if exponent.isEmpty then none
          else
            let scale : ℚ := 10 ^ digitsValue exponent
            some (if neg then mantissa / scale else mantissa * scale, more.dropWhile Js.isDigit)
        else some (mantissa, rest)
      | [] => some (mantissa, [])

/-- The fields of an object that is read: a later field replaces an earlier one with the same
key. -/
def lastWins (fields : List (String × Json)) : List (String × Json) :=
  fields.foldl (fun object field => Machine.OrderedMap.setEntry field.1 field.2 object) []

mutual
/-- A value, after white space has been skipped. -/
def readValue : Nat → List Char → Option (Json × List Char)
  | 0, _ => none
  | fuel + 1, cs =>
    match cs with
    | 'n' :: 'u' :: 'l' :: 'l' :: rest => some (.null, rest)
    | 't' :: 'r' :: 'u' :: 'e' :: rest => some (.bool true, rest)
    | 'f' :: 'a' :: 'l' :: 's' :: 'e' :: rest => some (.bool false, rest)
    | '"' :: rest => do
      let (s, rest) ← readString (fuel + 1) rest
      some (.str (String.ofList s), rest)
    | '[' :: rest =>
      match skipSpace rest with
      | ']' :: rest => some (.arr [], rest)
      | rest => do
        let (items, rest) ← readItems fuel rest
        some (.arr items, rest)
    | c :: rest =>
      if c.toNat = 123 then
        match skipSpace rest with
        | d :: rest' =>
          if d.toNat = 125 then some (.obj [], rest')
          else do
            let (fields, rest) ← readFields fuel (d :: rest')
            some (.obj (lastWins fields), rest)
        | [] => none
      else if c = '-' then (readUnsigned rest).map fun p => (.num (-p.1), p.2)
      else (readUnsigned (c :: rest)).map fun p => (.num p.1, p.2)
    | [] => none

/-- The items of an array, up to and including its closing bracket. -/
def readItems : Nat → List Char → Option (List Json × List Char)
  | 0, _ => none
  | fuel + 1, cs => do
    let (v, rest) ← readValue fuel (skipSpace cs)
    match skipSpace rest with
    | ',' :: rest =>
      let (vs, rest) ← readItems fuel rest
      some (v :: vs, rest)
    | ']' :: rest => some ([v], rest)
    | _ => none

/-- The fields of an object, up to and including its closing brace. -/
def readFields : Nat → List Char → Option (List (String × Json) × List Char)
  | 0, _ => none
  | fuel + 1, cs =>
    match skipSpace cs with
    | '"' :: rest => do
      let (k, rest) ← readString (fuel + 1) rest
      match skipSpace rest with
      | ':' :: rest =>
        let (v, rest) ← readValue fuel (skipSpace rest)
        match skipSpace rest with
        | c :: rest =>
          if c = ',' then
            let (more, rest) ← readFields fuel rest
            some ((String.ofList k, v) :: more, rest)
          else if c.toNat = 125 then some ([(String.ofList k, v)], rest)
          else none
        | [] => none
      | _ => none
    | _ => none
end

/-- `JSON.parse`; `none` where it throws. -/
def parse (text : String) : Option Json :=
  let cs := text.toList
  match readValue (cs.length + 1) (skipSpace cs) with
  | some (v, rest) => if (skipSpace rest).isEmpty then some v else none
  | none => none

end BeauPi.Json
