import BeauPi.Js.Json
import BeauPi.Js.TextLength

/-!
# How long the text of a JSON value is

`JSON.stringify(value).length`, added up over the parts of the value.

* `width` — the sum.
* `utf16LengthChars_text` — it is the length of the text.
-/

namespace BeauPi.Json

open Js List

/-- The length of a string literal. -/
def quotedWidth (s : String) : Nat := utf16LengthChars (quoteText s.toList)

/-- The length of a number. -/
def numberWidth (q : ℚ) : Nat := utf16LengthChars (numberText q)

/-- A literal is the text of its characters. -/
theorem quotedWidth_literal {cs : List Char} {n : Nat} (h : utf16LengthChars (quoteText cs) = n) :
    quotedWidth (String.ofList cs) = n := by
  rw [quotedWidth, String.toList_ofList, h]

mutual
/-- The length of the text of a value. -/
def width : Json → Nat
  | .null => 4
  | .bool true => 4
  | .bool false => 5
  | .num n => numberWidth n
  | .str s => quotedWidth s
  | .arr items => 1 + max 1 (widthItems items)
  | .obj fields => 1 + max 1 (widthFields fields)

/-- The items of an array, each with the comma or the bracket behind it. -/
def widthItems : List Json → Nat
  | [] => 0
  | v :: vs => width v + 1 + widthItems vs

/-- The fields of an object, each with its colon and the comma or the brace behind it. -/
def widthFields : List (String × Json) → Nat
  | [] => 0
  | (k, v) :: rest => quotedWidth k + 1 + width v + 1 + widthFields rest
end

theorem width_obj_cons (k : String) (v : Json) (rest : List (String × Json)) :
    width (.obj ((k, v) :: rest)) = 1 + (quotedWidth k + 1 + width v + 1 + widthFields rest) := by
  rw [width, widthFields]
  omega

/-- Texts with a comma behind each but the last. -/
theorem utf16LengthChars_commas (ls : List (List Char)) :
    utf16LengthChars ([','].intercalate ls) + 1 =
      max 1 (ls.map fun l => utf16LengthChars l + 1).sum := by
  have hcomma : utf16LengthChars [','] = 1 := by decide
  cases ls with
  | nil => simp
  | cons l ls =>
    have h := utf16LengthChars_intercalate [','] (l :: ls) (by simp)
    rw [hcomma] at h
    rw [h, map_cons, sum_cons]
    omega

mutual
theorem utf16LengthChars_text : ∀ v : Json, utf16LengthChars (text v) = width v
  | .null => by decide
  | .bool true => by decide
  | .bool false => by decide
  | .num n => by rw [text, width, numberWidth]
  | .str s => by rw [text, width, quotedWidth]
  | .arr items => by
    have hcommas := utf16LengthChars_commas (itemTexts items)
    have hopen : utf16Width '[' = 1 := by decide
    have hclose : utf16Width ']' = 1 := by decide
    rw [sum_itemTexts items] at hcommas
    simp only [text, width, utf16LengthChars_cons, utf16LengthChars_append, utf16LengthChars_nil,
      hopen, hclose]
    omega
  | .obj fields => by
    have hcommas := utf16LengthChars_commas (fieldTexts fields)
    have hopen : utf16Width '\x7b' = 1 := by decide
    have hclose : utf16Width '\x7d' = 1 := by decide
    rw [sum_fieldTexts fields] at hcommas
    simp only [text, width, utf16LengthChars_cons, utf16LengthChars_append, utf16LengthChars_nil,
      hopen, hclose]
    omega

theorem sum_itemTexts : ∀ items : List Json,
    ((itemTexts items).map fun l => utf16LengthChars l + 1).sum = widthItems items
  | [] => rfl
  | v :: vs => by
    rw [itemTexts, map_cons, sum_cons, utf16LengthChars_text v, sum_itemTexts vs,
      widthItems]

theorem sum_fieldTexts : ∀ fields : List (String × Json),
    ((fieldTexts fields).map fun l => utf16LengthChars l + 1).sum = widthFields fields
  | [] => rfl
  | (k, v) :: rest => by
    have hcolon : utf16Width ':' = 1 := by decide
    rw [fieldTexts, map_cons, sum_cons, sum_fieldTexts rest, widthFields,
      utf16LengthChars_append, utf16LengthChars_cons, utf16LengthChars_text v, quotedWidth, hcolon]
    omega
end

end BeauPi.Json
