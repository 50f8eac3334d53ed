import BeauPi.Js.JsonNumber

/-!
# JSON texts, written and read again

* `wellFormed` — the values that the language has: numbers are decimal, and no key of an object
  occurs twice.
* `readString_quoteText`, `readValue_text` — strings and values are read back.
* `parse_text` — **`JSON.parse` undoes `JSON.stringify`**.
* `newline_not_mem_text` — a text is one line.
-/

namespace BeauPi.Json

open Machine List

/-! ## Values of the language -/

mutual
/-- Numbers are decimal, and no key of an object occurs twice. -/
def wellFormed : Json → Bool
  | .num n => n == 0 || isDecimal |n|
  | .arr items => wellFormedItems items
  | .obj fields => decide (fields.map Prod.fst).Nodup && wellFormedFields fields
  | .null | .bool _ | .str _ => true

/-- All items are well-formed. -/
def wellFormedItems : List Json → Bool
  | [] => true
  | v :: vs => wellFormed v && wellFormedItems vs

/-- The values of all fields are well-formed. -/
def wellFormedFields : List (String × Json) → Bool
  | [] => true
  | (_, v) :: rest => wellFormed v && wellFormedFields rest
end

variable {fields : List (String × Json)}

theorem wellFormedFields_iff :
    wellFormedFields fields = true ↔ ∀ field ∈ fields, wellFormed field.2 = true := by
  induction fields with
  | nil => simp [wellFormedFields]
  | cons field rest ih => simp [wellFormedFields, ih]

/-! ## Strings -/

theorem unicodeEscape_control {n : Nat} (h : n < 32) (rest : List Char) :
    unicodeEscape? ('0' :: '0' :: hexDigit (n / 16) :: hexDigit (n % 16) :: rest) =
      some (Char.ofNat n, rest) := by
  have hhex : ∀ m < 32, hexValue? (hexDigit (m / 16)) = some (m / 16) ∧
      hexValue? (hexDigit (m % 16)) = some (m % 16) := by decide
  obtain ⟨hhigh, hlow⟩ := hhex n h
  have hzero : hexValue? '0' = some 0 := by decide
  have hhex4 : hex4? ('0' :: '0' :: hexDigit (n / 16) :: hexDigit (n % 16) :: rest) =
      some (n, rest) := by
    simp only [hex4?, hzero, hhigh, hlow, Option.bind_eq_bind, Option.bind_some]
    congr 2
    omega
  rw [unicodeEscape?, hhex4]
  simp only
  rw [if_neg (by omega), if_neg (by omega)]

/-- One character of a string literal is read. -/
theorem readString_escapeChar (c : Char) (fuel : Nat) (more : List Char) :
    readString (fuel + 1) (escapeChar c ++ more) =
      (readString fuel more).map fun p => (c :: p.1, p.2) := by
  unfold escapeChar
  split_ifs with hquote hbackslash hnewline hreturn htab hbell hfeed hcontrol
  · subst hquote
    cases h : readString fuel more <;> simp [readString, h]
  · subst hbackslash
    cases h : readString fuel more <;> simp [readString, h]
  · subst hnewline
    cases h : readString fuel more <;> simp [readString, h]
  · subst hreturn
    cases h : readString fuel more <;> simp [readString, h]
  · subst htab
    cases h : readString fuel more <;> simp [readString, h]
  · have hc : c = Char.ofNat 8 := by rw [← hbell, Char.ofNat_toNat]
    cases h : readString fuel more <;> simp [readString, h, hc]
  · have hc : c = Char.ofNat 12 := by rw [← hfeed, Char.ofNat_toNat]
    cases h : readString fuel more <;> simp [readString, h, hc]
  · simp only [cons_append, nil_append, readString, unicodeEscape_control hcontrol]
    cases h : readString fuel more <;> simp [h]
  · cases h : readString fuel more <;> simp [readString, h, hbackslash, hcontrol]

theorem length_flatMap_escapeChar (cs : List Char) :
    cs.length ≤ (cs.flatMap escapeChar).length := by
  induction cs with
  | nil => simp
  | cons c cs ih =>
    have hpos : 0 < (escapeChar c).length := by
      unfold escapeChar
      split_ifs <;> simp
    simp only [flatMap_cons, length_append, length_cons]
    omega

/-- **A string literal is read back.** -/
theorem readString_quoteText (cs : List Char) (fuel : Nat) (rest : List Char)
    (hfuel : cs.length < fuel) :
    readString fuel (cs.flatMap escapeChar ++ '"' :: rest) = some (cs, rest) := by
  induction cs generalizing fuel with
  | nil =>
    obtain ⟨fuel, rfl⟩ := Nat.exists_eq_add_of_lt hfuel
    simp [readString]
  | cons c cs ih =>
    cases fuel with
    | zero => exact absurd hfuel (Nat.not_lt_zero _)
    | succ fuel =>
      rw [flatMap_cons, append_assoc, readString_escapeChar,
        ih fuel (by simpa using hfuel)]
      rfl

/-! ## The reader of values, by the first character -/

/-- A text that does not start with white space. -/
def StartsPlain (cs : List Char) : Prop := ∀ c ∈ cs.head?, isJsonSpace c = false

variable {cs : List Char}

theorem skipSpace_of_startsPlain (h : StartsPlain cs) : skipSpace cs = cs := by
  cases cs with
  | nil => rfl
  | cons c cs =>
    have hc := h c rfl
    simp [skipSpace, hc]

-- the equations of the readers, once for all the lemmas below
section

attribute [local simp] readValue readItems readFields readString

end

theorem readValue_quote (fuel : Nat) (rest : List Char) :
    readValue (fuel + 1) ('"' :: rest) =
      (readString (fuel + 1) rest).map fun p => (.str (String.ofList p.1), p.2) := by
  cases h : readString (fuel + 1) rest <;> simp [readValue, h]

variable {rest : List Char}

/-- The rest of an array after its opening bracket and white space. -/
theorem readValue_bracket (hspace : skipSpace rest = cs)
    (hcs : cs.head? ≠ some ']') (fuel : Nat) :
    readValue (fuel + 1) ('[' :: rest) =
      (readItems fuel cs).map fun p => (.arr p.1, p.2) := by
  rw [readValue, hspace]
  split
  · exact absurd rfl hcs
  · cases h : readItems fuel cs <;> simp

theorem readValue_bracket_close (hspace : skipSpace rest = ']' :: cs)
    (fuel : Nat) : readValue (fuel + 1) ('[' :: rest) = some (.arr [], cs) := by
  simp [readValue, hspace]

variable {d : Char}

/-- The rest of an object after its opening brace and white space. -/
theorem readValue_brace (hspace : skipSpace rest = d :: cs) (hd : d.toNat ≠ 125) (fuel : Nat) :
    readValue (fuel + 1) ('\x7b' :: rest) =
      (readFields fuel (d :: cs)).map fun p => (.obj (lastWins p.1), p.2) := by
  cases h : readFields fuel (d :: cs) <;>
    simp [readValue, hspace, hd, h, show ('\x7b' : Char).toNat = 123 from rfl]

theorem readValue_brace_close (hspace : skipSpace rest = d :: cs) (hd : d.toNat = 125)
    (fuel : Nat) :
    readValue (fuel + 1) ('\x7b' :: rest) = some (.obj [], cs) := by
  simp [readValue, hspace, hd, show ('\x7b' : Char).toNat = 123 from rfl]

theorem readValue_minus (fuel : Nat) (rest : List Char) :
    readValue (fuel + 1) ('-' :: rest) =
      (readUnsigned rest).map fun p => (.num (-p.1), p.2) := by
  simp [readValue, show ('-' : Char).toNat = 45 from rfl]

variable {c : Char}

theorem readValue_digit (hc : Js.isDigit c = true) (fuel : Nat) (rest : List Char) :
    readValue (fuel + 1) (c :: rest) =
      (readUnsigned (c :: rest)).map fun p => (.num p.1, p.2) := by
  have hne : ∀ d, Js.isDigit d = false → c ≠ d := by
    rintro d hd rfl
    exact Bool.noConfusion (hc.symm.trans hd)
  have hbrace : c.toNat ≠ 123 := by
    intro h
    exact hne '\x7b' (by decide) (Char.ext (UInt32.toNat_inj.1 h))
  simp [readValue, hne 'n' (by decide), hne 't' (by decide), hne 'f' (by decide),
    hne '"' (by decide), hne '[' (by decide), hne '-' (by decide), hbrace]

/-! ## Values -/

/-- The fields of an object whose keys are distinct are kept as they are. -/
theorem lastWins_eq (h : (fields.map Prod.fst).Nodup) :
    lastWins fields = fields := by
  have hfold : ∀ done : List (String × Json), ((done ++ fields).map Prod.fst).Nodup →
      fields.foldl (fun object field => OrderedMap.setEntry field.1 field.2 object) done =
        done ++ fields := by
    clear h
    induction fields with
    | nil => simp
    | cons field rest ih =>
      intro done hnodup
      have hnew : OrderedMap.getEntry field.1 done = none := by
        rw [OrderedMap.getEntry_eq_none]
        intro hmem
        rw [map_append, nodup_append] at hnodup
        exact hnodup.2.2 field.1 hmem field.1 (by simp) rfl
      rw [foldl_cons, OrderedMap.setEntry_of_none hnew, ih]
      · simp
      · simpa using hnodup
  simpa [lastWins] using hfold [] (by simpa using h)

theorem readUnsigned_head {p : ℚ × List Char} (h : readUnsigned cs = some p) :
    ∃ c rest, cs = c :: rest ∧ Js.isDigit c = true := by
  cases cs with
  | nil => simp [readUnsigned] at h
  | cons c rest =>
    refine ⟨c, rest, rfl, ?_⟩
    cases hc : Js.isDigit c with
    | true => rfl
    | false => simp [readUnsigned, hc] at h

theorem numberEnds_nil : NumberEnds [] := by
  simp [NumberEnds]

theorem numberEnds_cons (h : Js.isDigit c = false ∧ c ≠ '.' ∧ c ≠ 'e' ∧ c ≠ 'E') :
    NumberEnds (c :: rest) := by
  rintro d hd
  cases hd
  exact h

/-- A printed number starts with a digit. -/
theorem positiveToString_head {q : ℚ} (hq : 0 < q) (hdecimal : isDecimal q = true) :
    ∃ c rest, positiveToString q = c :: rest ∧ Js.isDigit c = true := by
  have hread := readUnsigned_positiveToString hq hdecimal numberEnds_nil
  rw [append_nil] at hread
  exact readUnsigned_head hread

/-- **A number is read back.** -/
theorem readValue_numberText {n : ℚ} (hn : wellFormed (.num n) = true) (fuel : Nat)
    (hrest : NumberEnds rest) :
    readValue (fuel + 1) (numberText n ++ rest) = some (.num n, rest) := by
  unfold numberText
  split_ifs with hzero hneg
  · have hread : readUnsigned ('0' :: rest) = some (0, rest) := by
      have h := readUnsigned_eq [] none intDigits_zero (by simp) (by simp) hrest
      simpa [fractionText, exponentText, exponentValue, digitsValue, Js.isDigit] using h
    rw [singleton_append, readValue_digit (by decide), hread, hzero]
    rfl
  · have hdecimal : isDecimal (-n) = true := by
      simpa [wellFormed, hzero, abs_of_neg hneg] using hn
    rw [cons_append, readValue_minus,
      readUnsigned_positiveToString (neg_pos.2 hneg) hdecimal hrest]
    simp
  · have hpos : 0 < n := lt_of_le_of_ne (not_lt.1 hneg) (Ne.symm hzero)
    have hdecimal : isDecimal n = true := by
      simpa [wellFormed, hzero, abs_of_pos hpos] using hn
    obtain ⟨c, more, htext, hc⟩ := positiveToString_head hpos hdecimal
    have hread := readUnsigned_positiveToString hpos hdecimal hrest
    rw [htext, cons_append] at hread ⊢
    rw [readValue_digit hc, hread]
    rfl

variable {v : Json}

/-- The text of a value does not start with white space or a closing bracket. -/
theorem text_head (hv : wellFormed v = true) :
    ∃ c rest, text v = c :: rest ∧ isJsonSpace c = false ∧ c ≠ ']' := by
  have hdigit : ∀ c, Js.isDigit c = true → isJsonSpace c = false ∧ c ≠ ']' := by
    intro c hc
    constructor
    · cases hspace : isJsonSpace c with
      | false => rfl
      | true =>
        simp only [isJsonSpace, Bool.or_eq_true, beq_iff_eq] at hspace
        rcases hspace with ((rfl | rfl) | rfl) | rfl <;> exact absurd hc (by decide)
    · rintro rfl
      exact absurd hc (by decide)
  cases v with
  | null | str | arr | obj => exact ⟨_, _, rfl, by decide, by decide⟩
  | bool b => cases b <;> exact ⟨_, _, rfl, by decide, by decide⟩
  | num n =>
    rw [text]
    unfold numberText
    split_ifs with hzero hneg
    · exact ⟨_, _, rfl, by decide, by decide⟩
    · exact ⟨_, _, rfl, by decide, by decide⟩
    · have hpos : 0 < n := lt_of_le_of_ne (not_lt.1 hneg) (Ne.symm hzero)
      have hdecimal : isDecimal n = true := by
        simpa [wellFormed, hzero, abs_of_pos hpos] using hv
      obtain ⟨c, more, htext, hc⟩ := positiveToString_head hpos hdecimal
      exact ⟨c, more, htext, hdigit c hc⟩

theorem intercalate_comma_cons (a : List Char) (as : List (List Char)) :
    [','].intercalate (a :: as) = a ++ as.flatMap (',' :: ·) := by
  induction as generalizing a with
  | nil => simp
  | cons b as ih => rw [intercalate_cons_cons, ih]; simp

variable {fuel : Nat}

variable {rest' : List Char}

theorem readItems_last
    (hvalue : readValue fuel (skipSpace cs) = some (v, rest))
    (hspace : skipSpace rest = ']' :: rest') :
    readItems (fuel + 1) cs = some ([v], rest') := by
  simp [readItems, hvalue, hspace]

theorem readItems_more (hvalue : readValue fuel (skipSpace cs) = some (v, rest))
    (hspace : skipSpace rest = ',' :: rest') :
    readItems (fuel + 1) cs = (readItems fuel rest').map fun p => (v :: p.1, p.2) := by
  cases h : readItems fuel rest' <;> simp [readItems, hvalue, hspace, h]

variable {rest₁ rest₂ rest₃ rest₄ k : List Char}

/-- The reader of fields, up to the value of the first one. -/
theorem readFields_last (hquote : skipSpace cs = '"' :: rest)
    (hkey : readString (fuel + 1) rest = some (k, rest₁)) (hcolon : skipSpace rest₁ = ':' :: rest₂)
    (hvalue : readValue fuel (skipSpace rest₂) = some (v, rest₃))
    (hspace : skipSpace rest₃ = c :: rest₄) (hc : c.toNat = 125) :
    readFields (fuel + 1) cs = some ([(String.ofList k, v)], rest₄) := by
  have hcomma : c ≠ ',' := by
    rintro rfl
    exact absurd hc (by decide)
  simp [readFields, hquote, hkey, hcolon, hvalue, hspace, hc, hcomma]

theorem readFields_more (hquote : skipSpace cs = '"' :: rest)
    (hkey : readString (fuel + 1) rest = some (k, rest₁)) (hcolon : skipSpace rest₁ = ':' :: rest₂)
    (hvalue : readValue fuel (skipSpace rest₂) = some (v, rest₃))
    (hspace : skipSpace rest₃ = ',' :: rest₄) :
    readFields (fuel + 1) cs =
      (readFields fuel rest₄).map fun p => ((String.ofList k, v) :: p.1, p.2) := by
  cases h : readFields fuel rest₄ <;>
    simp [readFields, hquote, hkey, hcolon, hvalue, hspace, h]

theorem startsPlain_text_append (hv : wellFormed v = true) (rest : List Char) :
    StartsPlain (text v ++ rest) := by
  obtain ⟨c, more, htext, hc, -⟩ := text_head hv
  intro d hd
  rw [htext] at hd
  cases hd
  exact hc

theorem startsPlain_cons (hc : isJsonSpace c = false) (rest : List Char) :
    StartsPlain (c :: rest) := by
  intro d hd
  cases hd
  exact hc

mutual
/-- **A value is read back** by a reader with enough fuel. -/
theorem readValue_text : ∀ (v : Json) (fuel : Nat) (rest : List Char), wellFormed v = true →
    (text v).length ≤ fuel → NumberEnds rest → readValue fuel (text v ++ rest) = some (v, rest)
  | v, 0, rest, hv, hfuel, _ => by
    obtain ⟨c, more, htext, -⟩ := text_head hv
    rw [htext] at hfuel
    exact absurd hfuel (by simp)
  | .null, fuel + 1, rest, _, _, _ => by simp [text, readValue]
  | .bool true, fuel + 1, rest, _, _, _ => by simp [text, readValue]
  | .bool false, fuel + 1, rest, _, _, _ => by simp [text, readValue]
  | .num n, fuel + 1, rest, hv, _, hrest => readValue_numberText hv fuel hrest
  | .str s, fuel + 1, rest, _, hfuel, _ => by
    have hlength := length_flatMap_escapeChar s.toList
    simp only [text, quoteText, length_cons, length_append, length_nil] at hfuel
    rw [text, quoteText, cons_append, readValue_quote, append_assoc,
      singleton_append, readString_quoteText _ _ _ (by omega)]
    simp
  | .arr [], fuel + 1, rest, _, _, _ =>
    readValue_bracket_close (skipSpace_of_startsPlain (by simp [StartsPlain, isJsonSpace])) fuel
  | .arr (v :: vs), fuel + 1, rest, hv, hfuel, _ => by
    simp only [wellFormed] at hv
    simp only [text, length_cons] at hfuel
    have hitems := readItems_text v vs fuel rest hv (by omega)
    simp only [wellFormedItems, Bool.and_eq_true] at hv
    obtain ⟨c, more, htext, hspace, hbracket⟩ := text_head hv.1
    have hplain : skipSpace ([','].intercalate (itemTexts (v :: vs)) ++ ']' :: rest) =
        [','].intercalate (itemTexts (v :: vs)) ++ ']' :: rest := by
      rw [itemTexts, intercalate_comma_cons, append_assoc]
      exact skipSpace_of_startsPlain (startsPlain_text_append hv.1 _)
    rw [text, cons_append, append_assoc, singleton_append,
      readValue_bracket hplain, hitems]
    · rfl
    · rw [itemTexts, intercalate_comma_cons, htext]
      simpa using hbracket
  | .obj [], fuel + 1, rest, _, _, _ =>
    readValue_brace_close
      (skipSpace_of_startsPlain (startsPlain_cons (by decide) rest)) rfl fuel
  | .obj ((k, v) :: fields), fuel + 1, rest, hv, hfuel, _ => by
    simp only [wellFormed, Bool.and_eq_true, decide_eq_true_eq] at hv
    simp only [text, length_cons] at hfuel
    have hfields := readFields_text k v fields fuel rest hv.2 (by omega)
    rw [fieldTexts, intercalate_comma_cons, quoteText, cons_append, cons_append,
      cons_append] at hfields
    rw [text, fieldTexts, intercalate_comma_cons, quoteText, cons_append, append_assoc,
      singleton_append, cons_append, cons_append, cons_append,
      readValue_brace (skipSpace_of_startsPlain (startsPlain_cons (by decide) _)) (by decide),
      hfields, Option.map_some, lastWins_eq hv.1]

/-- The items of an array are read back. -/
theorem readItems_text : ∀ (v : Json) (vs : List Json) (fuel : Nat) (rest : List Char),
    wellFormedItems (v :: vs) = true →
    ([','].intercalate (itemTexts (v :: vs)) ++ [']']).length ≤ fuel →
    readItems fuel ([','].intercalate (itemTexts (v :: vs)) ++ ']' :: rest) =
      some (v :: vs, rest)
  | v, vs, 0, rest, _, hfuel => absurd hfuel (by simp)
  | v, [], fuel + 1, rest, hv, hfuel => by
    simp only [wellFormedItems, Bool.and_eq_true] at hv
    simp only [itemTexts, intercalate_comma_cons, flatMap_nil, append_nil,
      length_append, length_singleton] at hfuel ⊢
    have hvalue := readValue_text v fuel (']' :: rest) hv.1 (by omega)
      (numberEnds_cons (by decide))
    rw [← skipSpace_of_startsPlain (startsPlain_text_append hv.1 (']' :: rest))] at hvalue
    exact readItems_last hvalue (skipSpace_of_startsPlain (startsPlain_cons (by decide) rest))
  | v, w :: vs, fuel + 1, rest, hv, hfuel => by
    simp only [wellFormedItems, Bool.and_eq_true] at hv
    have hmore := readItems_text w vs fuel rest (by simpa [wellFormedItems] using hv.2) (by
      simp only [itemTexts, intercalate_comma_cons, flatMap_cons, length_append,
        length_cons, length_nil] at hfuel ⊢
      omega)
    simp only [itemTexts, intercalate_comma_cons, flatMap_cons, length_append,
      length_cons, cons_append, append_assoc] at hfuel hmore ⊢
    generalize text w ++ ((itemTexts vs).flatMap (',' :: ·) ++ ']' :: rest) = more at hmore ⊢
    have hvalue := readValue_text v fuel (',' :: more) hv.1 (by omega) (numberEnds_cons (by decide))
    rw [← skipSpace_of_startsPlain (startsPlain_text_append hv.1 (',' :: more))] at hvalue
    rw [readItems_more hvalue (skipSpace_of_startsPlain (startsPlain_cons (by decide) more)), hmore]
    rfl

/-- The fields of an object are read back. -/
theorem readFields_text : ∀ (k : String) (v : Json) (fields : List (String × Json)) (fuel : Nat)
    (rest : List Char), wellFormedFields ((k, v) :: fields) = true →
    ([','].intercalate (fieldTexts ((k, v) :: fields)) ++ ['\x7d']).length ≤ fuel →
    readFields fuel ([','].intercalate (fieldTexts ((k, v) :: fields)) ++ '\x7d' :: rest) =
      some ((k, v) :: fields, rest)
  | k, v, fields, 0, rest, _, hfuel => absurd hfuel (by simp)
  | k, v, [], fuel + 1, rest, hv, hfuel => by
    simp only [wellFormedFields, Bool.and_eq_true] at hv
    have hlength := length_flatMap_escapeChar k.toList
    simp only [fieldTexts, intercalate_comma_cons, flatMap_nil, append_nil, quoteText,
      length_append, length_cons, cons_append, append_assoc,
      nil_append] at hfuel ⊢
    have hvalue := readValue_text v fuel ('\x7d' :: rest) hv.1 (by omega)
      (numberEnds_cons (by decide))
    rw [← skipSpace_of_startsPlain (startsPlain_text_append hv.1 _)] at hvalue
    rw [readFields_last (skipSpace_of_startsPlain (startsPlain_cons (by decide) _))
      (readString_quoteText k.toList (fuel + 1) _ (by omega))
      (skipSpace_of_startsPlain (startsPlain_cons (by decide) _)) hvalue
      (skipSpace_of_startsPlain (startsPlain_cons (by decide) _)) rfl, String.ofList_toList]
  | k, v, (l, w) :: fields, fuel + 1, rest, hv, hfuel => by
    simp only [wellFormedFields, Bool.and_eq_true] at hv
    have hlength := length_flatMap_escapeChar k.toList
    have hmore := readFields_text l w fields fuel rest (by simpa [wellFormedFields] using hv.2) (by
      simp only [fieldTexts, intercalate_comma_cons, flatMap_cons, length_append,
        length_cons, length_nil] at hfuel ⊢
      omega)
    rw [fieldTexts, intercalate_comma_cons, fieldTexts, flatMap_cons]
    rw [fieldTexts, intercalate_comma_cons] at hmore
    have htotal : (quoteText k.toList).length + (text v).length + 2 ≤ fuel + 1 := by
      simp only [fieldTexts, intercalate_comma_cons, flatMap_cons, length_append,
        length_cons] at hfuel
      omega
    simp only [quoteText, length_append, length_cons, length_nil] at htotal
    simp only [cons_append, append_assoc] at hmore ⊢
    generalize quoteText l.toList ++ (':' :: (text w ++
      ((fieldTexts fields).flatMap (',' :: ·) ++ '\x7d' :: rest))) = more at hmore ⊢
    have hvalue := readValue_text v fuel (',' :: more) hv.1 (by omega) (numberEnds_cons (by decide))
    rw [← skipSpace_of_startsPlain (startsPlain_text_append hv.1 _)] at hvalue
    simp only [quoteText, cons_append, append_assoc, nil_append]
    rw [readFields_more (skipSpace_of_startsPlain (startsPlain_cons (by decide) _))
      (readString_quoteText k.toList (fuel + 1) _ (by omega))
      (skipSpace_of_startsPlain (startsPlain_cons (by decide) _)) hvalue
      (skipSpace_of_startsPlain (startsPlain_cons (by decide) _)), hmore, String.ofList_toList]
    rfl
end

/-- **`JSON.parse` undoes `JSON.stringify`.** -/
theorem parse_text (hv : wellFormed v = true) :
    parse (String.ofList (text v)) = some v := by
  have hplain := skipSpace_of_startsPlain (startsPlain_text_append hv [])
  have hread := readValue_text v ((text v).length + 1) [] hv (by omega) numberEnds_nil
  rw [append_nil] at hplain hread
  have hend : (skipSpace []).isEmpty = true := rfl
  simp only [parse, String.toList_ofList, hplain, hread, hend, if_true]

/-! ## A text is one line -/

theorem newline_not_mem_escapeChar (c : Char) : '\n' ∉ escapeChar c := by
  have hhex : ∀ m < 16, hexDigit m ≠ '\n' := by decide
  unfold escapeChar
  split_ifs with hquote hbackslash hnewline hreturn htab hbell hfeed hcontrol
  · decide
  · decide
  · decide
  · decide
  · decide
  · decide
  · decide
  · have hhigh := hhex (c.toNat / 16) (by omega)
    have hlow := hhex (c.toNat % 16) (by omega)
    simp [hhigh.symm, hlow.symm]
  · simpa using Ne.symm hnewline

theorem newline_not_mem_quoteText (cs : List Char) : '\n' ∉ quoteText cs := by
  simp [quoteText, newline_not_mem_escapeChar]

theorem newline_not_mem_numberText (q : ℚ) : '\n' ∉ numberText q := by
  have hdigits : ∀ n, '\n' ∉ natDigits n := by
    intro n hmem
    exact absurd (isDigit_natDigits _ hmem) (by decide)
  have hzeros : ∀ n, '\n' ∉ zeros n := by
    intro n hmem
    exact absurd (isDigit_zeros _ hmem) (by decide)
  have hpositive : ∀ q, '\n' ∉ positiveToString q := by
    intro q
    unfold positiveToString
    simp only [show ∀ n : Nat, (toString n).toList = natDigits n from fun _ => rfl]
    have hdrop : ∀ n m, '\n' ∉ (natDigits n).drop m :=
      fun n m hmem => hdigits n (mem_of_mem_drop hmem)
    have htake : ∀ n m, '\n' ∉ (natDigits n).take m :=
      fun n m hmem => hdigits n (mem_of_mem_take hmem)
    have htail : ∀ n, '\n' ∉ (natDigits n).tail :=
      fun n hmem => hdigits n (mem_of_mem_tail hmem)
    split_ifs <;> simp [hdigits, hzeros, hdrop, htake, htail]
  unfold numberText
  split_ifs <;> simp [hpositive]

theorem newline_not_mem_intercalate {ts : List (List Char)} (h : ∀ t ∈ ts, '\n' ∉ t) :
    '\n' ∉ [','].intercalate ts := by
  cases ts with
  | nil => simp
  | cons t ts =>
    rw [intercalate_comma_cons, mem_append, mem_flatMap]
    rintro (hmem | ⟨u, hu, hmem⟩)
    · exact h t mem_cons_self hmem
    · exact h u (mem_cons_of_mem t hu) (by simpa using hmem)

mutual
/-- **The text of a value is one line.** -/
theorem newline_not_mem_text : ∀ v : Json, '\n' ∉ text v
  | .null => by decide
  | .bool true => by decide
  | .bool false => by decide
  | .num n => newline_not_mem_numberText n
  | .str s => newline_not_mem_quoteText s.toList
  | .arr items => by
    have hitems := newline_not_mem_intercalate (newline_not_mem_itemTexts items)
    simp [text, hitems]
  | .obj fields => by
    have hfields := newline_not_mem_intercalate (newline_not_mem_fieldTexts fields)
    simp [text, hfields]

theorem newline_not_mem_itemTexts : ∀ (vs : List Json), ∀ t ∈ itemTexts vs, '\n' ∉ t
  | [], _, ht => by simp [itemTexts] at ht
  | v :: vs, t, ht => by
    rw [itemTexts, mem_cons] at ht
    rcases ht with rfl | ht
    · exact newline_not_mem_text v
    · exact newline_not_mem_itemTexts vs t ht

theorem newline_not_mem_fieldTexts : ∀ (fields : List (String × Json)),
    ∀ t ∈ fieldTexts fields, '\n' ∉ t
  | [], _, ht => by simp [fieldTexts] at ht
  | (k, v) :: fields, t, ht => by
    rw [fieldTexts, mem_cons] at ht
    rcases ht with rfl | ht
    · simp [newline_not_mem_quoteText, newline_not_mem_text v]
    · exact newline_not_mem_fieldTexts fields t ht
end

end BeauPi.Json
