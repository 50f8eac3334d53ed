import Mathlib.Data.List.Basic
import Mathlib.Data.Rat.Defs
import Mathlib.Algebra.GroupWithZero.Nat

/-!
# JavaScript strings

The string operations the repository uses, on texts without unpaired surrogates.
`String.length` counts characters; JavaScript's `length` counts UTF-16 code units
and is `utf16Length` here.

* `Units` — a text as its code units, where lone surrogates are allowed.
* `getTime` — the instant that a text of `Date.prototype.toISOString` names.
-/

namespace BeauPi.Js

/-- A character of the class `\s`: the white space and line terminators of
ECMAScript. -/
def isSpace (c : Char) : Bool :=
  let n := c.toNat
  (9 ≤ n && n ≤ 13) || n == 32 || n == 160 || n == 0x1680 || (0x2000 ≤ n && n ≤ 0x200a) ||
    n == 0x2028 || n == 0x2029 || n == 0x202f || n == 0x205f || n == 0x3000 || n == 0xfeff

/-- A character that `.` does not match. -/
def isLineTerminator (c : Char) : Bool :=
  c == '\n' || c == '\r' || c.toNat == 0x2028 || c.toNat == 0x2029

/-- An ASCII letter. -/
def isLetter (c : Char) : Bool := ('a' ≤ c && c ≤ 'z') || ('A' ≤ c && c ≤ 'Z')

/-- An ASCII digit. -/
def isDigit (c : Char) : Bool := '0' ≤ c && c ≤ '9'

/-- `String.prototype.trim`, on characters. -/
def trimChars (cs : List Char) : List Char :=
  ((cs.dropWhile isSpace).reverse.dropWhile isSpace).reverse

/-- `String.prototype.trim`. -/
def trim (s : String) : String := String.ofList (trimChars s.toList)

/-- The number of UTF-16 code units of a character. -/
def utf16Width (c : Char) : Nat := if c.toNat < 0x10000 then 1 else 2

/-- The number of UTF-16 code units of a text. -/
def utf16LengthChars (cs : List Char) : Nat := (cs.map utf16Width).sum

/-- `String.prototype.length`. -/
def utf16Length (s : String) : Nat := utf16LengthChars s.toList

/-- `^[A-Za-z][A-Za-z0-9_-]*$`, the shape of node and task ids. -/
def isIdentifier (s : String) : Bool :=
  match s.toList with
  | [] => false
  | c :: cs => isLetter c && cs.all fun d => isLetter d || isDigit d || d == '_' || d == '-'

/-- Does the text start with `p`? -/
def startsWith (p cs : List Char) : Bool := p.isPrefixOf cs

/-- One replacement text of `String.prototype.replaceAll` with a string pattern:
the `$` sequences refer to the match and to the text around it. -/
def getSubstitution (before matched after : List Char) : List Char → List Char
  | '$' :: '$' :: rest => '$' :: getSubstitution before matched after rest
  | '$' :: '&' :: rest => matched ++ getSubstitution before matched after rest
  | '$' :: c :: rest =>
    if c.toNat = 96 then before ++ getSubstitution before matched after rest
    else if c.toNat = 39 then after ++ getSubstitution before matched after rest
    else '$' :: getSubstitution before matched after (c :: rest)
  | c :: rest => c :: getSubstitution before matched after rest
  | [] => []
termination_by structural cs => cs

/-- `replaceAll` on characters: `done` is the text before the position reached. -/
def replaceAllFrom (pattern replacement : List Char) :
    Nat → List Char → List Char → List Char
  | 0, _, rest => rest
  | _, _, [] => []
  | fuel + 1, done, c :: cs =>
    if startsWith pattern (c :: cs) then
      let after := (c :: cs).drop pattern.length
      getSubstitution done pattern after replacement ++
        replaceAllFrom pattern replacement fuel (done ++ pattern) after
    else c :: replaceAllFrom pattern replacement fuel (done ++ [c]) cs

/-- `String.prototype.replaceAll` for a non-empty string pattern. -/
def replaceAll (text pattern replacement : String) : String :=
  String.ofList
    (replaceAllFrom pattern.toList replacement.toList text.toList.length [] text.toList)

/-- `slice(0, n)` on characters.  A surrogate pair of which only the first half is
kept leaves a replacement character, which counts as one code unit too. -/
def sliceToChars : Nat → List Char → List Char
  | 0, _ => []
  | _, [] => []
  | n + 1, c :: cs =>
    if utf16Width c = 1 then c :: sliceToChars n cs
    else if n = 0 then [Char.ofNat 0xfffd]
    else c :: sliceToChars (n - 1) cs

/-- `slice(n)` on characters. -/
def sliceFromChars : Nat → List Char → List Char
  | 0, cs => cs
  | _, [] => []
  | n + 1, c :: cs =>
    if utf16Width c = 1 then sliceFromChars n cs
    else if n = 0 then Char.ofNat 0xfffd :: cs
    else sliceFromChars (n - 1) cs

/-- `text.slice(0, n)`. -/
def sliceTo (n : Nat) (text : String) : String := String.ofList (sliceToChars n text.toList)

/-- `text.slice(n)`. -/
def sliceFrom (n : Nat) (text : String) : String := String.ofList (sliceFromChars n text.toList)

/-- `replace(/\s+/g, " ")` on characters; `inSpace` says that the last character
read was white space. -/
def collapseChars (inSpace : Bool) : List Char → List Char
  | [] => []
  | c :: cs =>
    if isSpace c then if inSpace then collapseChars true cs else ' ' :: collapseChars true cs
    else c :: collapseChars false cs

/-- `text.replace(/\s+/g, " ").trim()`. -/
def oneLine (text : String) : String :=
  String.ofList (trimChars (collapseChars false text.toList))

/-- The maximal runs of characters of a class, as `split` on the complement of the
class leaves them; `inGap` says that the last character read was not of the class,
and `run` holds the current run backwards. -/
def wordRuns (isWord : Char → Bool) (inGap : Bool) (run : List Char) :
    List Char → List (List Char)
  | [] => [run.reverse]
  | c :: cs =>
    if isWord c then wordRuns isWord false (c :: run) cs
    else if inGap then wordRuns isWord true [] cs
    else run.reverse :: wordRuns isWord true [] cs

/-- `[...new Set(values)]`: the values without repetitions, in order of first
occurrence. -/
def unique (values : List String) : List String := values.eraseDups

/-- `values.slice(-n)`, for a positive `n`. -/
def sliceLast {α : Type} (n : Nat) (values : List α) : List α :=
  values.drop (values.length - n)

/-- `String.prototype.includes`. -/
def includes (text pattern : String) : Bool :=
  text.toList.tails.any fun t => startsWith pattern.toList t

/-! ## Code units -/

/-- A string. -/
abbrev Units := List UInt16

/-- `/\s/` on one code unit, which is also what `trim` takes off. -/
def isSpaceUnit (unit : UInt16) : Bool :=
  (9 ≤ unit && unit ≤ 13) || unit == 32 || unit == 0xa0 || unit == 0x1680 ||
    (0x2000 ≤ unit && unit ≤ 0x200a) || unit == 0x2028 || unit == 0x2029 || unit == 0x202f ||
    unit == 0x205f || unit == 0x3000 || unit == 0xfeff

/-- `String.prototype.trimEnd` -/
def trimEndUnits (text : Units) : Units := (text.reverse.dropWhile isSpaceUnit).reverse

/-! ## Instants

`new Date(text).getTime()` on the texts that `Date.prototype.toISOString` writes for the years
from 0 to 9999: `YYYY-MM-DDTHH:mm:ss.sssZ`. -/

/-- The number that a run of decimal digits denotes. -/
def digits? (cs : List Char) : Option Nat :=
  if cs.all isDigit then some (cs.foldl (fun n c => n * 10 + (c.toNat - 48)) 0) else none

/-- The days from 1970-01-01 to a day of the Gregorian calendar. -/
def daysFromCivil (year month day : Nat) : Int :=
  let y := if month ≤ 2 then (year : Int) - 1 else year
  let era := y.fdiv 400
  let yearOfEra := y - era * 400
  let monthFromMarch := if month ≤ 2 then month + 9 else month - 3
  let dayOfYear : Int := (153 * monthFromMarch + 2) / 5 + day - 1
  era * 146097 + (yearOfEra * 365 + yearOfEra / 4 - yearOfEra / 100 + dayOfYear) - 719468

/-- The milliseconds of a calendar date and a time of day. -/
def utcMillis (year month day hour minute second milli : Nat) : Option ℚ :=
  if 1 ≤ month ∧ month ≤ 12 ∧ 1 ≤ day ∧ day ≤ 31 ∧ hour < 24 ∧ minute < 60 ∧ second < 60 then
    some (daysFromCivil year month day * 86400000 +
      (hour * 3600000 + minute * 60000 + second * 1000 + milli : Nat))
  else none

/-- `new Date(text).getTime()`; `none` is `NaN`. -/
def getTime (text : String) : Option ℚ :=
  match text.toList with
  | [y₁, y₂, y₃, y₄, '-', m₁, m₂, '-', d₁, d₂, 'T', h₁, h₂, ':', i₁, i₂, ':', s₁, s₂, '.',
      f₁, f₂, f₃, 'Z'] => do
    utcMillis (← digits? [y₁, y₂, y₃, y₄]) (← digits? [m₁, m₂]) (← digits? [d₁, d₂])
      (← digits? [h₁, h₂]) (← digits? [i₁, i₂]) (← digits? [s₁, s₂]) (← digits? [f₁, f₂, f₃])
  | _ => none

/-- 2024-02-29T12:00:00.500Z -/
example : getTime "2024-02-29T12:00:00.500Z" = some 1709208000500 := by decide +kernel

end BeauPi.Js
