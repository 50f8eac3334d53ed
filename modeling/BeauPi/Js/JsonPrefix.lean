import BeauPi.Js.JsonRoundTrip
import Mathlib.Data.List.TakeWhile

/-!
# JSON texts cut short and run together

A reader looks no further than the value it reads, a number apart: what it reads from a text it
reads from every longer text.  So no text of an object is the beginning of another one.

* `readValue_append` — the text after a value that is read does not matter.
* `parse_prefix_text` — **an object's text that is cut short is no JSON text**.
* `parse_object_append` — **neither is an object followed by the text of another one**.
-/

namespace BeauPi.Json

open List
open Option (bind_eq_bind bind_eq_some_iff bind_some map_eq_some_iff some.injEq)

/-! ## White space -/

theorem dropWhile_append_of_ne_nil {p : Char → Bool} {cs : List Char} (x : List Char)
    (h : cs.dropWhile p ≠ []) :
    (cs ++ x).takeWhile p = cs.takeWhile p ∧
      (cs ++ x).dropWhile p = cs.dropWhile p ++ x := by
  induction cs with
  | nil => exact absurd rfl h
  | cons c cs ih =>
    by_cases hc : p c = true
    · rw [dropWhile_cons_of_pos hc] at h
      obtain ⟨htake, hdrop⟩ := ih h
      simp [hc, htake, hdrop]
    · simp [hc]

theorem skipSpace_append {cs : List Char} (x : List Char) (h : skipSpace cs ≠ []) :
    skipSpace (cs ++ x) = skipSpace cs ++ x :=
  (dropWhile_append_of_ne_nil x h).2

theorem skipSpace_append_of_nil {cs : List Char} (x : List Char) (h : skipSpace cs = []) :
    skipSpace (cs ++ x) = skipSpace x := by
  have hall : ∀ c ∈ cs, isJsonSpace c = true := List.dropWhile_eq_nil_iff.1 h
  exact dropWhile_append_of_pos hall

theorem skipSpace_append_cons {cs rest : List Char} {c : Char} (x : List Char)
    (h : skipSpace cs = c :: rest) : skipSpace (cs ++ x) = c :: (rest ++ x) := by
  rw [skipSpace_append x (by simp [h]), h, cons_append]

/-! ## Strings -/

theorem hex4?_append {cs rest : List Char} {n : Nat} (x : List Char)
    (h : hex4? cs = some (n, rest)) : hex4? (cs ++ x) = some (n, rest ++ x) := by
  match cs, h with
  | a :: b :: c :: d :: more, h =>
    simp only [hex4?, bind_eq_bind, bind_eq_some_iff, some.injEq,
      Prod.mk.injEq] at h
    obtain ⟨i, hi, j, hj, k, hk, l, hl, rfl, rfl⟩ := h
    simp [hex4?, hi, hj, hk, hl]

theorem readString_nil (fuel : Nat) : readString fuel [] = none := by
  cases fuel <;> simp [readString]

theorem readString_backslash (fuel : Nat) : readString fuel ['\\'] = none := by
  cases fuel <;> simp [readString]

theorem readString_escape (fuel : Nat) {cs : List Char} (h : hex4? cs = none) :
    readString fuel ('\\' :: 'u' :: cs) = none := by
  cases fuel <;> simp [readString, unicodeEscape?, h]

/-- An escape is read alike when the text goes on, unless the text ends within what could be the
second half of a surrogate pair; there the string has not ended. -/
theorem unicodeEscape?_append {cs rest : List Char} {c : Char} {fuel : Nat} (x : List Char)
    (h : unicodeEscape? cs = some (c, rest)) (hmore : readString fuel rest ≠ none) :
    unicodeEscape? (cs ++ x) = some (c, rest ++ x) := by
  unfold unicodeEscape? at h ⊢
  cases hhex : hex4? cs with
  | none => simp [hhex] at h
  | some pair =>
    obtain ⟨hi, more⟩ := pair
    rw [hex4?_append x hhex]
    simp only [hhex] at h ⊢
    by_cases hhigh : 0xd800 ≤ hi ∧ hi < 0xdc00
    · rw [if_pos hhigh] at h ⊢
      by_cases hpair : ∃ more', more = '\\' :: 'u' :: more'
      · obtain ⟨more', rfl⟩ := hpair
        simp only [cons_append] at h ⊢
        cases hlow : hex4? more' with
        | none =>
          simp only [hlow, some.injEq, Prod.mk.injEq] at h
          exact absurd (readString_escape fuel hlow) (h.2 ▸ hmore)
        | some pair' =>
          obtain ⟨lo, more''⟩ := pair'
          rw [hex4?_append x hlow]
          simp only [hlow] at h ⊢
          split_ifs at h ⊢ with hrange
          all_goals
            simp only [some.injEq, Prod.mk.injEq] at h ⊢
            obtain ⟨rfl, rfl⟩ := h
            simp
      · have hplain : some (Char.ofNat 0xfffd, more) = some (c, rest) := by
          rw [← h]
          split
          · exact absurd ⟨_, rfl⟩ hpair
          · rfl
        simp only [some.injEq, Prod.mk.injEq] at hplain
        obtain ⟨rfl, rfl⟩ := hplain
        -- `more` is not the beginning of an escape, since the string ends within it
        have hpair' : ∀ more', more ++ x ≠ '\\' :: 'u' :: more' := by
          intro more' heq
          cases more with
          | nil => exact hmore (readString_nil fuel)
          | cons a more =>
            obtain ⟨ha, heq⟩ := List.cons.inj heq
            cases more with
            | nil => exact hmore (ha ▸ readString_backslash fuel)
            | cons b more =>
              have hb := (List.cons.inj heq).1
              exact hpair ⟨more, by rw [ha, hb]⟩
        split
        · rename_i heq
          exact absurd heq (hpair' _)
        · rfl
    · rw [if_neg hhigh] at h ⊢
      split_ifs at h ⊢ with hlow
      all_goals
        simp only [some.injEq, Prod.mk.injEq] at h ⊢
        obtain ⟨rfl, rfl⟩ := h
        simp

/-- The escapes of one character. -/
def simpleEscape? (c : Char) : Option Char :=
  if c = '"' then some '"'
  else if c = '\\' then some '\\'
  else if c = '/' then some '/'
  else if c = 'b' then some (Char.ofNat 8)
  else if c = 'f' then some (Char.ofNat 12)
  else if c = 'n' then some '\n'
  else if c = 'r' then some '\r'
  else if c = 't' then some '\t'
  else none

theorem readString_simpleEscape {c : Char} (hc : c ≠ 'u') (fuel : Nat) (rest : List Char) :
    readString (fuel + 1) ('\\' :: c :: rest) =
      (simpleEscape? c).bind fun d => (readString fuel rest).map fun p => (d :: p.1, p.2) := by
  unfold simpleEscape?
  split_ifs with h₁ h₂ h₃ h₄ h₅ h₆ h₇ h₈
  · subst h₁; cases h : readString fuel rest <;> simp [readString, h]
  · subst h₂; cases h : readString fuel rest <;> simp [readString, h]
  · subst h₃; cases h : readString fuel rest <;> simp [readString, h]
  · subst h₄; cases h : readString fuel rest <;> simp [readString, h]
  · subst h₅; cases h : readString fuel rest <;> simp [readString, h]
  · subst h₆; cases h : readString fuel rest <;> simp [readString, h]
  · subst h₇; cases h : readString fuel rest <;> simp [readString, h]
  · subst h₈; cases h : readString fuel rest <;> simp [readString, h]
  · simp [readString]

theorem readString_unicodeEscape (fuel : Nat) (rest : List Char) :
    readString (fuel + 1) ('\\' :: 'u' :: rest) =
      (unicodeEscape? rest).bind fun p =>
        (readString fuel p.2).map fun q => (p.1 :: q.1, q.2) := by
  cases h : unicodeEscape? rest with
  | none => simp [readString, h]
  | some p => cases h' : readString fuel p.2 <;> simp [readString, h, h']

theorem readString_plain {c : Char} (hquote : c ≠ '"') (hbackslash : c ≠ '\\') (fuel : Nat)
    (rest : List Char) :
    readString (fuel + 1) (c :: rest) =
      if c.toNat < 32 then none
      else (readString fuel rest).map fun p => (c :: p.1, p.2) := by
  cases h : readString fuel rest <;> simp [readString, hbackslash, h]

/-- **The text after a string literal that is read does not matter.** -/
theorem readString_append {fuel fuel' : Nat} {cs rest s : List Char} (x : List Char)
    (h : readString fuel cs = some (s, rest)) (hle : fuel ≤ fuel') :
    readString fuel' (cs ++ x) = some (s, rest ++ x) := by
  induction fuel generalizing fuel' cs rest s with
  | zero => simp [readString] at h
  | succ fuel ih =>
    obtain ⟨fuel', rfl⟩ : ∃ k, fuel' = k + 1 := ⟨fuel' - 1, by omega⟩
    have hle : fuel ≤ fuel' := by omega
    cases cs with
    | nil => simp [readString] at h
    | cons c cs =>
      by_cases hquote : c = '"'
      · subst hquote
        simp only [readString, some.injEq, Prod.mk.injEq] at h
        simp [readString, ← h.1, ← h.2]
      by_cases hbackslash : c = '\\'
      · subst hbackslash
        cases cs with
        | nil => simp [readString] at h
        | cons d cs =>
          by_cases hu : d = 'u'
          · subst hu
            rw [readString_unicodeEscape, bind_eq_some_iff] at h
            obtain ⟨⟨e, more⟩, hescape, h⟩ := h
            obtain ⟨⟨s', rest'⟩, hmore, heq⟩ := map_eq_some_iff.1 h
            have hescape' := unicodeEscape?_append x hescape (by rw [hmore]; simp)
            cases heq
            rw [cons_append, cons_append, readString_unicodeEscape, hescape',
              bind_some, ih hmore hle]
            rfl
          · rw [readString_simpleEscape hu, bind_eq_some_iff] at h
            obtain ⟨e, hescape, h⟩ := h
            obtain ⟨⟨s', rest'⟩, hmore, heq⟩ := map_eq_some_iff.1 h
            cases heq
            rw [cons_append, cons_append, readString_simpleEscape hu, hescape,
              bind_some, ih hmore hle]
            rfl
      · rw [readString_plain hquote hbackslash] at h
        split_ifs at h with hcontrol
        obtain ⟨⟨s', rest'⟩, hmore, heq⟩ := map_eq_some_iff.1 h
        cases heq
        rw [cons_append, readString_plain hquote hbackslash, if_neg hcontrol, ih hmore hle]
        rfl

/-! ## Numbers -/

/-- The fraction of a number: its digits, and the text after it. -/
def readFraction : List Char → Option (List Char × List Char)
  | '.' :: more =>
    if (more.takeWhile Js.isDigit).isEmpty then none
    else some (more.takeWhile Js.isDigit, more.dropWhile Js.isDigit)
  | rest => some ([], rest)

theorem readFraction_plain {rest : List Char} (h : ∀ more, rest = '.' :: more → False) :
    readFraction rest = some ([], rest) := by
  unfold readFraction
  split
  · exact absurd rfl (h _)
  · rfl

/-- The sign of an exponent, and the text after it. -/
def readSign : List Char → Bool × List Char
  | '+' :: more => (false, more)
  | '-' :: more => (true, more)
  | more => (false, more)

/-- The exponent of a number: the factor it stands for, and the text after it. -/
def readExponent : List Char → Option (ℚ × List Char)
  | [] => some (1, [])
  | c :: more =>
    if c = 'e' ∨ c = 'E' then
      let (neg, more) := readSign more
      let exponent := more.takeWhile Js.isDigit
      if exponent.isEmpty then none
      else
        let scale : ℚ := 10 ^ digitsValue exponent
        some (if neg then scale⁻¹ else scale, more.dropWhile Js.isDigit)
    else some (1, c :: more)

/-- A number is read part by part. -/
theorem readUnsigned_parts (cs : List Char) :
    readUnsigned cs =
      let int := cs.takeWhile Js.isDigit
      if int.isEmpty ∨ (int.head? = some '0' ∧ 1 < int.length) then none
      else (readFraction (cs.dropWhile Js.isDigit)).bind fun p =>
        (readExponent p.2).map fun e =>
          ((digitsValue (int ++ p.1) : ℚ) / 10 ^ p.1.length * e.1, e.2) := by
  unfold readUnsigned
  simp only
  split_ifs with hstart
  · rfl
  · generalize cs.dropWhile Js.isDigit = rest
    split
    · rename_i heq
      have hnone : readFraction rest = none := by
        split at heq
        · exact heq
        · cases heq
      rw [hnone]
      rfl
    · rename_i frac rest' heq
      have hsome : readFraction rest = some (frac, rest') := by
        split at heq
        · exact heq
        · rename_i hpoint
          rw [readFraction_plain hpoint, heq]
      rw [hsome, bind_some]
      cases rest' with
      | nil => simp [readExponent]
      | cons c more =>
        by_cases hexp : c = 'e' ∨ c = 'E'
        · simp only [readExponent, if_pos hexp]
          cases more with
          | nil => simp [readSign]
          | cons d more =>
            by_cases hplus : d = '+'
            · subst hplus
              simp only [readSign]
              split_ifs <;> simp [div_eq_mul_inv]
            by_cases hminus : d = '-'
            · subst hminus
              simp only [readSign]
              split_ifs <;> simp [div_eq_mul_inv]
            have hsign : readSign (d :: more) = (false, d :: more) := by
              simp [readSign, hplus, hminus]
            rw [hsign]
            split
            · rename_i heq
              exact absurd (List.cons.inj heq).1 hplus
            · rename_i heq
              exact absurd (List.cons.inj heq).1 hminus
            · split_ifs <;> simp [div_eq_mul_inv]
        · simp [readExponent, hexp]

theorem readFraction_append {cs rest frac : List Char} (x : List Char)
    (h : readFraction cs = some (frac, rest)) (hrest : rest ≠ []) :
    readFraction (cs ++ x) = some (frac, rest ++ x) := by
  by_cases hpoint : ∃ more, cs = '.' :: more
  · obtain ⟨more, rfl⟩ := hpoint
    simp only [readFraction, cons_append] at h ⊢
    split_ifs at h with hempty
    cases h
    obtain ⟨htake, hdrop⟩ := dropWhile_append_of_ne_nil x hrest
    rw [htake, hdrop, if_neg hempty]
  · rw [readFraction_plain fun more heq => hpoint ⟨more, heq⟩] at h
    cases h
    cases cs with
    | nil => exact absurd rfl hrest
    | cons c cs =>
      have hc : c ≠ '.' := fun hc => hpoint ⟨cs, by rw [hc]⟩
      simp [readFraction, hc]

theorem readSign_append {cs : List Char} (x : List Char) (hcs : cs ≠ []) :
    readSign (cs ++ x) = ((readSign cs).1, (readSign cs).2 ++ x) := by
  cases cs with
  | nil => exact absurd rfl hcs
  | cons c cs =>
    by_cases hplus : c = '+'
    · subst hplus; simp [readSign]
    by_cases hminus : c = '-'
    · subst hminus; simp [readSign]
    simp [readSign, hplus, hminus]

theorem readExponent_append {cs rest : List Char} {q : ℚ} (x : List Char)
    (h : readExponent cs = some (q, rest)) (hrest : rest ≠ []) :
    readExponent (cs ++ x) = some (q, rest ++ x) := by
  cases cs with
  | nil =>
    cases h
    exact absurd rfl hrest
  | cons c more =>
    rw [cons_append]
    simp only [readExponent] at h ⊢
    by_cases hexp : c = 'e' ∨ c = 'E'
    · rw [if_pos hexp] at h ⊢
      by_cases hempty : ((readSign more).2.takeWhile Js.isDigit).isEmpty = true
      · rw [if_pos hempty] at h
        cases h
      rw [if_neg hempty] at h
      simp only [some.injEq, Prod.mk.injEq] at h
      obtain ⟨hvalue, hdrop⟩ := h
      rw [← hdrop] at hrest
      have hmore : more ≠ [] := by
        rintro rfl
        exact hrest rfl
      obtain ⟨htake, hdrop'⟩ := dropWhile_append_of_ne_nil x hrest
      rw [readSign_append x hmore]
      simp only
      rw [htake, hdrop', if_neg hempty, hvalue, hdrop]
    · rw [if_neg hexp] at h ⊢
      cases h
      rfl

/-- The text after a number that is read does not matter when the number has ended before it. -/
theorem readUnsigned_append {cs rest : List Char} {q : ℚ} (x : List Char)
    (h : readUnsigned cs = some (q, rest)) (hrest : rest ≠ []) :
    readUnsigned (cs ++ x) = some (q, rest ++ x) := by
  rw [readUnsigned_parts] at h ⊢
  simp only at h ⊢
  split_ifs at h with hstart
  obtain ⟨⟨frac, more⟩, hfraction, h⟩ := bind_eq_some_iff.1 h
  obtain ⟨⟨factor, rest'⟩, hexponent, heq⟩ := map_eq_some_iff.1 h
  cases heq
  have hmore : more ≠ [] := by
    rintro rfl
    cases hexponent
    exact hrest rfl
  have hint : cs.dropWhile Js.isDigit ≠ [] := by
    intro hnil
    rw [hnil] at hfraction
    cases hfraction
    exact hmore rfl
  obtain ⟨htake, hdrop⟩ := dropWhile_append_of_ne_nil x hint
  rw [htake, hdrop, if_neg hstart, readFraction_append x hfraction hmore, bind_some,
    readExponent_append x hexponent hrest]
  rfl

/-! ## Values -/

/-- Is the value a number? -/
def isNumber : Json → Bool
  | .num _ => true
  | _ => false

/-- What a reader of values has read. -/
inductive ReadValue (fuel : Nat) : List Char → Json → List Char → Prop
  | null {rest} : ReadValue fuel ('n' :: 'u' :: 'l' :: 'l' :: rest) .null rest
  | true {rest} : ReadValue fuel ('t' :: 'r' :: 'u' :: 'e' :: rest) (.bool true) rest
  | false {rest} : ReadValue fuel ('f' :: 'a' :: 'l' :: 's' :: 'e' :: rest) (.bool false) rest
  | str {cs s rest} (hs : readString (fuel + 1) cs = some (s, rest)) :
      ReadValue fuel ('"' :: cs) (.str (String.ofList s)) rest
  | emptyArr {cs rest} (hspace : skipSpace cs = ']' :: rest) :
      ReadValue fuel ('[' :: cs) (.arr []) rest
  | arr {cs cs' items rest} (hspace : skipSpace cs = cs') (hcs : cs'.head? ≠ some ']')
      (hitems : readItems fuel cs' = some (items, rest)) :
      ReadValue fuel ('[' :: cs) (.arr items) rest
  | emptyObj {cs d rest} (hspace : skipSpace cs = d :: rest) (hd : d.toNat = 125) :
      ReadValue fuel ('\x7b' :: cs) (.obj []) rest
  | obj {cs d cs' fields rest} (hspace : skipSpace cs = d :: cs') (hd : d.toNat ≠ 125)
      (hfields : readFields fuel (d :: cs') = some (fields, rest)) :
      ReadValue fuel ('\x7b' :: cs) (.obj (lastWins fields)) rest
  | negative {cs q rest} (hnumber : readUnsigned cs = some (q, rest)) :
      ReadValue fuel ('-' :: cs) (.num (-q)) rest
  | positive {c cs q rest} (hc : Js.isDigit c = Bool.true)
      (hnumber : readUnsigned (c :: cs) = some (q, rest)) :
      ReadValue fuel (c :: cs) (.num q) rest

/-- The reader of values, inverted. -/
theorem readValue_cases {fuel : Nat} {cs rest : List Char} {v : Json}
    (h : readValue (fuel + 1) cs = some (v, rest)) : ReadValue fuel cs v rest := by
  unfold readValue at h
  split at h
  · cases h
    exact .null
  · cases h
    exact .true
  · cases h
    exact .false
  · simp only [bind_eq_bind, bind_eq_some_iff] at h
    obtain ⟨⟨s, rest'⟩, hs, heq⟩ := h
    cases heq
    exact .str hs
  · split at h
    · rename_i hspace
      cases h
      exact .emptyArr hspace
    · rename_i hbracket
      simp only [bind_eq_bind, bind_eq_some_iff] at h
      obtain ⟨⟨items, rest'⟩, hitems, heq⟩ := h
      cases heq
      refine .arr rfl ?_ hitems
      intro hhead
      obtain ⟨more, hmore⟩ := List.head?_eq_some_iff.1 hhead
      exact hbracket more hmore
  · rename_i c cs _ _ _ _ _
    split_ifs at h with hbrace hminus
    · obtain rfl : c = '\x7b' := Char.ext (UInt32.toNat_inj.1 hbrace)
      split at h
      · rename_i hspace
        split_ifs at h with hd
        · cases h
          exact .emptyObj hspace hd
        · simp only [bind_eq_bind, bind_eq_some_iff] at h
          obtain ⟨⟨fields, rest'⟩, hfields, heq⟩ := h
          cases heq
          exact .obj hspace hd hfields
      · cases h
    · subst hminus
      obtain ⟨⟨q, rest'⟩, hnumber, heq⟩ := map_eq_some_iff.1 h
      cases heq
      exact .negative hnumber
    · obtain ⟨⟨q, rest'⟩, hnumber, heq⟩ := map_eq_some_iff.1 h
      cases heq
      obtain ⟨d, more, hcons, hd⟩ := readUnsigned_head hnumber
      cases hcons
      exact .positive hd hnumber
  · cases h

/-- The reader of items, inverted. -/
theorem readItems_cases {fuel : Nat} {cs rest : List Char} {items : List Json}
    (h : readItems (fuel + 1) cs = some (items, rest)) :
    ∃ v rest₁, readValue fuel (skipSpace cs) = some (v, rest₁) ∧
      ((skipSpace rest₁ = ']' :: rest ∧ items = [v]) ∨
        ∃ rest₂ more, skipSpace rest₁ = ',' :: rest₂ ∧
          readItems fuel rest₂ = some (more, rest) ∧ items = v :: more) := by
  simp only [readItems, bind_eq_bind, bind_eq_some_iff] at h
  obtain ⟨⟨v, rest₁⟩, hvalue, h⟩ := h
  refine ⟨v, rest₁, hvalue, ?_⟩
  simp only at h
  split at h
  · rename_i hspace
    obtain ⟨⟨more, rest'⟩, hmore, heq⟩ := bind_eq_some_iff.1 h
    cases heq
    exact .inr ⟨_, _, hspace, hmore, rfl⟩
  · rename_i hspace
    cases h
    exact .inl ⟨hspace, rfl⟩
  · cases h

/-- The reader of fields, inverted. -/
theorem readFields_cases {fuel : Nat} {cs rest : List Char} {fields : List (String × Json)}
    (h : readFields (fuel + 1) cs = some (fields, rest)) :
    ∃ cs₁ k rest₁ rest₂ v rest₃, skipSpace cs = '"' :: cs₁ ∧
      readString (fuel + 1) cs₁ = some (k, rest₁) ∧ skipSpace rest₁ = ':' :: rest₂ ∧
      readValue fuel (skipSpace rest₂) = some (v, rest₃) ∧
      ((∃ c, skipSpace rest₃ = c :: rest ∧ c.toNat = 125 ∧ fields = [(String.ofList k, v)]) ∨
        ∃ rest₄ more, skipSpace rest₃ = ',' :: rest₄ ∧
          readFields fuel rest₄ = some (more, rest) ∧
          fields = (String.ofList k, v) :: more) := by
  simp only [readFields] at h
  split at h
  · rename_i cs₁ hquote
    obtain ⟨⟨k, rest₁⟩, hkey, h⟩ := bind_eq_some_iff.1 h
    simp only at h
    split at h
    · rename_i rest₂ hcolon
      obtain ⟨⟨v, rest₃⟩, hvalue, h⟩ := bind_eq_some_iff.1 h
      refine ⟨cs₁, k, rest₁, rest₂, v, rest₃, hquote, hkey, hcolon, hvalue, ?_⟩
      simp only at h
      split at h
      · rename_i c rest₄ hspace
        split_ifs at h with hcomma hclose
        · subst hcomma
          obtain ⟨⟨more, rest'⟩, hmore, heq⟩ := bind_eq_some_iff.1 h
          cases heq
          exact .inr ⟨_, _, hspace, hmore, rfl⟩
        · cases h
          exact .inl ⟨c, hspace, hclose, rfl⟩
      · cases h
    · cases h
  · cases h

theorem readValue_nil (fuel : Nat) : readValue fuel [] = none := by
  cases fuel <;> simp [readValue]

theorem readItems_ne_nil {fuel : Nat} {cs rest : List Char} {items : List Json}
    (h : readItems fuel cs = some (items, rest)) : cs ≠ [] := by
  rintro rfl
  cases fuel <;> simp [readItems, skipSpace, readValue_nil] at h

theorem ne_nil_of_skipSpace {cs rest : List Char} {c : Char} (h : skipSpace cs = c :: rest) :
    cs ≠ [] := by
  rintro rfl
  cases h

/-- The three readers look no further than what they read, numbers apart.  The induction is on
the fuel, which they share. -/
theorem readers_append (x : List Char) (fuel : Nat) :
    (∀ fuel' cs v rest, fuel ≤ fuel' → readValue fuel cs = some (v, rest) →
      (rest ≠ [] ∨ isNumber v = false) → readValue fuel' (cs ++ x) = some (v, rest ++ x)) ∧
    (∀ fuel' cs items rest, fuel ≤ fuel' → readItems fuel cs = some (items, rest) →
      readItems fuel' (cs ++ x) = some (items, rest ++ x)) ∧
    (∀ fuel' cs fields rest, fuel ≤ fuel' → readFields fuel cs = some (fields, rest) →
      readFields fuel' (cs ++ x) = some (fields, rest ++ x)) := by
  induction fuel with
  | zero =>
    refine ⟨?_, ?_, ?_⟩
    · intro fuel' cs v rest _ h _
      simp [readValue] at h
    · intro fuel' cs items rest _ h
      simp [readItems] at h
    · intro fuel' cs fields rest _ h
      simp [readFields] at h
  | succ fuel ih =>
    obtain ⟨ihvalue, ihitems, ihfields⟩ := ih
    refine ⟨?_, ?_, ?_⟩
    · intro fuel' cs v rest hle h hend
      obtain ⟨fuel', rfl⟩ : ∃ k, fuel' = k + 1 := ⟨fuel' - 1, by omega⟩
      have hle' : fuel ≤ fuel' := by omega
      cases readValue_cases h with
      | null | true | false => simp [readValue]
      | str hs =>
        rw [cons_append, readValue_quote, readString_append x hs hle]
        rfl
      | emptyArr hspace =>
        exact readValue_bracket_close (skipSpace_append_cons x hspace) fuel'
      | arr hspace hcs hitems =>
        have hne := readItems_ne_nil hitems
        rw [← hspace] at hne
        rw [cons_append, readValue_bracket ((skipSpace_append x hne).trans (by rw [hspace])),
          ihitems fuel' _ _ _ hle' hitems]
        · rfl
        · rw [hspace] at hne
          rwa [head?_append_of_ne_nil _ hne]
      | emptyObj hspace hd =>
        exact readValue_brace_close (skipSpace_append_cons x hspace) hd fuel'
      | obj hspace hd hfields =>
        rw [cons_append, readValue_brace (skipSpace_append_cons x hspace) hd,
          ← cons_append, ihfields fuel' _ _ _ hle' hfields]
        rfl
      | negative hnumber =>
        have hrest : rest ≠ [] := hend.resolve_right (by simp [isNumber])
        rw [cons_append, readValue_minus, readUnsigned_append x hnumber hrest]
        rfl
      | positive hc hnumber =>
        have hrest : rest ≠ [] := hend.resolve_right (by simp [isNumber])
        rw [cons_append, readValue_digit hc, ← cons_append,
          readUnsigned_append x hnumber hrest]
        rfl
    · intro fuel' cs items rest hle h
      obtain ⟨fuel', rfl⟩ : ∃ k, fuel' = k + 1 := ⟨fuel' - 1, by omega⟩
      have hle' : fuel ≤ fuel' := by omega
      obtain ⟨v, rest₁, hvalue, hcase⟩ := readItems_cases h
      have hskip : skipSpace (cs ++ x) = skipSpace cs ++ x := by
        refine skipSpace_append x ?_
        intro hnil
        rw [hnil, readValue_nil] at hvalue
        cases hvalue
      rcases hcase with ⟨hspace, rfl⟩ | ⟨rest₂, more, hspace, hmore, rfl⟩
      · have hvalue' := ihvalue fuel' _ _ _ hle' hvalue (.inl (ne_nil_of_skipSpace hspace))
        exact readItems_last (hskip ▸ hvalue') (skipSpace_append_cons x hspace)
      · have hvalue' := ihvalue fuel' _ _ _ hle' hvalue (.inl (ne_nil_of_skipSpace hspace))
        rw [readItems_more (hskip ▸ hvalue') (skipSpace_append_cons x hspace),
          ihitems fuel' _ _ _ hle' hmore]
        rfl
    · intro fuel' cs fields rest hle h
      obtain ⟨fuel', rfl⟩ : ∃ k, fuel' = k + 1 := ⟨fuel' - 1, by omega⟩
      have hle' : fuel ≤ fuel' := by omega
      obtain ⟨cs₁, k, rest₁, rest₂, v, rest₃, hquote, hkey, hcolon, hvalue, hcase⟩ :=
        readFields_cases h
      have hskip : skipSpace (rest₂ ++ x) = skipSpace rest₂ ++ x := by
        refine skipSpace_append x ?_
        intro hnil
        rw [hnil, readValue_nil] at hvalue
        cases hvalue
      have hquote' := skipSpace_append_cons x hquote
      have hkey' := readString_append x hkey hle
      have hcolon' := skipSpace_append_cons x hcolon
      rcases hcase with ⟨c, hspace, hc, rfl⟩ | ⟨rest₄, more, hspace, hmore, rfl⟩
      · have hvalue' := ihvalue fuel' _ _ _ hle' hvalue (.inl (ne_nil_of_skipSpace hspace))
        exact readFields_last hquote' hkey' hcolon' (hskip ▸ hvalue')
          (skipSpace_append_cons x hspace) hc
      · have hvalue' := ihvalue fuel' _ _ _ hle' hvalue (.inl (ne_nil_of_skipSpace hspace))
        rw [readFields_more hquote' hkey' hcolon' (hskip ▸ hvalue')
          (skipSpace_append_cons x hspace), ihfields fuel' _ _ _ hle' hmore]
        rfl

/-- **The text after a value that is read does not matter**, unless a number could go on. -/
theorem readValue_append {fuel fuel' : Nat} {cs rest : List Char} {v : Json} (x : List Char)
    (h : readValue fuel cs = some (v, rest)) (hend : rest ≠ [] ∨ isNumber v = false)
    (hle : fuel ≤ fuel') : readValue fuel' (cs ++ x) = some (v, rest ++ x) :=
  (readers_append x fuel).1 fuel' cs v rest hle h hend

/-! ## Texts of objects -/

/-- What `JSON.parse` accepts: a value, with nothing but white space around it. -/
theorem parse_eq_some {cs : List Char} {v : Json} :
    parse (String.ofList cs) = some v ↔
      ∃ rest, readValue (cs.length + 1) (skipSpace cs) = some (v, rest) ∧ skipSpace rest = [] := by
  simp only [parse, String.toList_ofList]
  cases h : readValue (cs.length + 1) (skipSpace cs) with
  | none => simp
  | some p =>
    obtain ⟨w, rest⟩ := p
    by_cases hrest : skipSpace rest = [] <;> simp [hrest]

/-- **An object followed by anything but white space is no JSON text.** -/
theorem parse_object_append {cs x : List Char} {v : Json} (hv : isNumber v = false)
    (h : parse (String.ofList cs) = some v) (hx : skipSpace x ≠ []) :
    parse (String.ofList (cs ++ x)) = none := by
  obtain ⟨rest, hread, hrest⟩ := parse_eq_some.1 h
  have hcs : skipSpace cs ≠ [] := by
    intro hnil
    rw [hnil, readValue_nil] at hread
    cases hread
  rw [Option.eq_none_iff_forall_ne_some]
  intro w hw
  obtain ⟨rest', hread', hrest'⟩ := parse_eq_some.1 hw
  rw [skipSpace_append x hcs] at hread'
  have happend := readValue_append x hread (.inr hv)
    (show cs.length + 1 ≤ (cs ++ x).length + 1 by simp)
  rw [happend] at hread'
  cases hread'
  exact hx (by rw [← skipSpace_append_of_nil x hrest, hrest'])

/-- **The text of an object that is cut short is no JSON text.** -/
theorem parse_prefix_text {fields : List (String × Json)} {cs x : List Char}
    (hfields : wellFormed (.obj fields) = true) (h : cs ++ x = text (.obj fields))
    (hx : x ≠ []) : parse (String.ofList cs) = none := by
  rw [Option.eq_none_iff_forall_ne_some]
  intro v hv
  obtain ⟨rest, hread, -⟩ := parse_eq_some.1 hv
  cases cs with
  | nil => simp [skipSpace, readValue_nil] at hread
  | cons c cs =>
    have hc : c = '\x7b' := by
      rw [text, cons_append] at h
      exact (List.cons.inj h).1
    subst hc
    rw [skipSpace_of_startsPlain (startsPlain_cons (by decide) cs)] at hread
    have hnumber : isNumber v = false := by
      cases readValue_cases hread <;> first | rfl | contradiction
    have happend := readValue_append x hread (.inr hnumber)
      (show ('\x7b' :: cs).length + 1 ≤ ('\x7b' :: cs ++ x).length + 1 by simp)
    rw [h] at happend
    have hback := readValue_text (.obj fields) ((text (.obj fields)).length + 1) [] hfields
      (by omega) numberEnds_nil
    rw [append_nil, happend] at hback
    exact hx (List.append_eq_nil_iff.1 (Prod.mk.inj (Option.some.inj hback)).2).2

end BeauPi.Json
