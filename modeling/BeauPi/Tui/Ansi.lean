import Mathlib.Algebra.BigOperators.Group.List.Basic
import Mathlib.Data.List.Basic
import Mathlib.Algebra.GroupWithZero.Nat

/-!
# Escape sequences in a text

A text is read from left to right: where an escape sequence begins, it is taken as a whole, and
every other character counts for itself.

* `extractAnsiCode` — the escape sequence that a text begins with.
* `Token`, `tokens` — what a text consists of.
* `tokens_render` — escape sequences that are complete are read as they were written.
* `Widths`, `visibleWidth`, `visibleWidth_eq` — the columns that a text takes.
-/

namespace BeauPi.Tui.Ansi

open List

/-! ## Escape sequences -/

/-- `"\x1b"` -/
def escape : Char := Char.ofNat 0x1B

/-- `"\x07"` -/
def bell : Char := Char.ofNat 0x07

/-- The second character of the string terminator. -/
def backslash : Char := Char.ofNat 0x5C

/-- What is left of a control sequence, up to its last character. -/
def csiLength : List Char → Option Nat
  | [] => none
  | c :: cs => if c ∈ ['m', 'G', 'K', 'H', 'J'] then some 1 else (csiLength cs).map (· + 1)

/-- What is left of a string sequence, up to its terminator. -/
def stringLength : List Char → Option Nat
  | [] => none
  | c :: cs =>
    if c = bell then some 1
    else if c = escape ∧ cs.head? = some backslash then some 2
    else (stringLength cs).map (· + 1)

/-- `extractAnsiCode`: the length of the escape sequence that a text begins with. -/
def extractAnsiCode : List Char → Option Nat
  | c :: next :: rest =>
    if c ≠ escape then none
    else if next = '[' then (csiLength rest).map (· + 2)
    else if next = ']' ∨ next = '_' then (stringLength rest).map (· + 2)
    else none
  | _ => none

/-- `TUI.SEGMENT_RESET` -/
def segmentReset : String := "\x1b[0m\x1b]8;;\x07"

/-! ## Tokens -/

/-- An escape sequence or a character. -/
inductive Token
  | code (text : List Char)
  | char (c : Char)
  deriving DecidableEq, Repr

/-- The text of a token. -/
def Token.text : Token → List Char
  | .code text => text
  | .char c => [c]

/-- The character that a token shows. -/
def Token.char? : Token → Option Char
  | .code _ => none
  | .char c => some c

/-- The text of some tokens. -/
def render (ts : List Token) : List Char := ts.flatMap Token.text

/-- The tokens of a text behind an escape sequence, of which some characters are left. -/
def scan : Nat → List Char → List Token
  | _, [] => []
  | n + 1, _ :: cs => scan n cs
  | 0, c :: cs =>
    match extractAnsiCode (c :: cs) with
    | some n => .code ((c :: cs).take n) :: scan (n - 1) cs
    | none => .char c :: scan 0 cs

/-- The tokens of a text. -/
def tokens (text : List Char) : List Token := scan 0 text

/-- The characters of a text that are not part of an escape sequence. -/
def visibleChars (text : List Char) : List Char := (tokens text).filterMap Token.char?

/-- The token is an escape sequence as a whole, or no part of one. -/
def Token.Complete : Token → Prop
  | .code text => extractAnsiCode text = some text.length
  | .char c => c ≠ escape

instance (t : Token) : Decidable t.Complete :=
  match t with
  | .code text => inferInstanceAs (Decidable (extractAnsiCode text = some text.length))
  | .char c => inferInstanceAs (Decidable (c ≠ escape))

/-- All escape sequences of the text are complete. -/
def Complete (text : List Char) : Prop := ∀ t ∈ tokens text, t.Complete

instance (text : List Char) : Decidable (Complete text) :=
  inferInstanceAs (Decidable (∀ t ∈ tokens text, t.Complete))

variable {text rest cs : List Char} {ts : List Token} {t : Token} {n : Nat}

theorem csiLength_take (h : csiLength cs = some n) (rest : List Char) :
    csiLength (cs.take n ++ rest) = some n ∧ n ≤ cs.length ∧ 0 < n := by
  induction cs generalizing n with
  | nil => cases h
  | cons c cs ih =>
    rw [csiLength] at h
    split_ifs at h with hlast
    · cases h
      exact ⟨if_pos hlast, Nat.le_add_left _ _, Nat.one_pos⟩
    · obtain ⟨m, hm, rfl⟩ := Option.map_eq_some_iff.1 h
      obtain ⟨htake, hle, hpos⟩ := ih hm
      refine ⟨?_, Nat.succ_le_succ hle, Nat.succ_pos m⟩
      rw [take_succ_cons, cons_append, csiLength, if_neg hlast, htake]
      rfl

theorem stringLength_take (h : stringLength cs = some n) (rest : List Char) :
    stringLength (cs.take n ++ rest) = some n ∧ n ≤ cs.length ∧ 0 < n := by
  induction cs generalizing n with
  | nil => cases h
  | cons c cs ih =>
    rw [stringLength] at h
    split_ifs at h with hbell hend
    · cases h
      exact ⟨if_pos hbell, Nat.le_add_left _ _, Nat.one_pos⟩
    · cases h
      obtain ⟨rfl, hhead⟩ := hend
      obtain ⟨cs, rfl⟩ := head?_eq_some_iff.1 hhead
      refine ⟨?_, by simp, Nat.two_pos⟩
      show stringLength (escape :: backslash :: ([] ++ rest)) = some 2
      rw [stringLength, if_neg hbell, if_pos ⟨rfl, rfl⟩]
    · obtain ⟨m, hm, rfl⟩ := Option.map_eq_some_iff.1 h
      obtain ⟨htake, hle, hpos⟩ := ih hm
      refine ⟨?_, Nat.succ_le_succ hle, Nat.succ_pos m⟩
      have hhead : (cs.take m ++ rest).head? = cs.head? := by
        cases cs with
        | nil => cases hm
        | cons d cs =>
          obtain ⟨m, rfl⟩ := Nat.exists_eq_succ_of_ne_zero (Nat.ne_of_gt hpos)
          rfl
      rw [take_succ_cons, cons_append, stringLength, if_neg hbell, hhead, if_neg hend,
        htake]
      rfl

/-- What follows an escape sequence does not matter for it. -/
theorem extractAnsiCode_take (h : extractAnsiCode text = some n) (rest : List Char) :
    extractAnsiCode (text.take n ++ rest) = some n ∧ n ≤ text.length ∧ 0 < n := by
  match text, h with
  | c :: next :: tail, h =>
    rw [extractAnsiCode] at h
    split_ifs at h with hescape hcsi hstring
    · obtain ⟨m, hm, rfl⟩ := Option.map_eq_some_iff.1 h
      obtain ⟨htake, hle, -⟩ := csiLength_take hm rest
      refine ⟨?_, Nat.add_le_add_right hle 2, Nat.succ_pos _⟩
      show extractAnsiCode (c :: next :: (tail.take m ++ rest)) = _
      rw [extractAnsiCode, if_neg hescape, if_pos hcsi, htake]
      rfl
    · obtain ⟨m, hm, rfl⟩ := Option.map_eq_some_iff.1 h
      obtain ⟨htake, hle, -⟩ := stringLength_take hm rest
      refine ⟨?_, Nat.add_le_add_right hle 2, Nat.succ_pos _⟩
      show extractAnsiCode (c :: next :: (tail.take m ++ rest)) = _
      rw [extractAnsiCode, if_neg hescape, if_neg hcsi, if_pos hstring, htake]
      rfl

theorem scan_append (skipped rest : List Char) :
    scan skipped.length (skipped ++ rest) = scan 0 rest := by
  induction skipped with
  | nil => rfl
  | cons c skipped ih => rw [length_cons, cons_append, scan, ih]

theorem extractAnsiCode_of_ne {c : Char} (h : c ≠ escape) (cs : List Char) :
    extractAnsiCode (c :: cs) = none := by
  cases cs with
  | nil => rfl
  | cons next cs => exact if_pos h

/-- A token that is complete is read as it was written. -/
theorem tokens_append (h : t.Complete) (rest : List Char) :
    tokens (t.text ++ rest) = t :: tokens rest := by
  cases t with
  | char c =>
    rw [Token.text, singleton_append, tokens, scan, extractAnsiCode_of_ne h]
    rfl
  | code text =>
    obtain ⟨htake, -, hpos⟩ := extractAnsiCode_take h rest
    rw [take_length] at htake
    obtain ⟨c, text, rfl⟩ := exists_cons_of_length_pos hpos
    rw [Token.text, tokens, cons_append, scan, ← cons_append, htake]
    show .code ((c :: text ++ rest).take (c :: text).length) :: scan text.length (text ++ rest) = _
    rw [take_left, scan_append]
    rfl

/-- **Tokens that are complete are read as they were written.** -/
theorem tokens_render (h : ∀ t ∈ ts, t.Complete) (rest : List Char) :
    tokens (render ts ++ rest) = ts ++ tokens rest := by
  induction ts with
  | nil => rfl
  | cons t ts ih =>
    rw [render, flatMap_cons, append_assoc, tokens_append (h t mem_cons_self)]
    rw [render] at ih
    rw [ih fun t ht => h t (mem_cons_of_mem _ ht), cons_append]

theorem render_scan (n : Nat) (text : List Char) : render (scan n text) = text.drop n := by
  induction text generalizing n with
  | nil => simp [scan, render]
  | cons c cs ih =>
    cases n with
    | succ n => rw [scan, ih, drop_succ_cons]
    | zero =>
      rw [scan]
      cases hcode : extractAnsiCode (c :: cs) with
      | none =>
        show [c] ++ render (scan 0 cs) = _
        rw [ih]
        rfl
      | some n =>
        obtain ⟨m, rfl⟩ := Nat.exists_eq_succ_of_ne_zero
          (Nat.ne_of_gt (extractAnsiCode_take hcode []).2.2)
        show (c :: cs).take (m + 1) ++ render (scan m cs) = _
        rw [ih, take_succ_cons, cons_append, take_append_drop]
        rfl

@[simp] theorem render_tokens (text : List Char) : render (tokens text) = text := render_scan 0 text

/-- Complete texts one after the other. -/
theorem tokens_concat (h : Complete text) (rest : List Char) :
    tokens (text ++ rest) = tokens text ++ tokens rest := by
  conv_lhs => rw [← render_tokens text]
  exact tokens_render h rest

theorem complete_append (h : Complete text) (hrest : Complete rest) : Complete (text ++ rest) := by
  intro t ht
  rw [tokens_concat h] at ht
  rcases mem_append.1 ht with ht | ht
  · exact h t ht
  · exact hrest t ht

theorem complete_render (h : ∀ t ∈ ts, t.Complete) : Complete (render ts) := by
  have htokens := tokens_render h []
  rw [append_nil] at htokens
  unfold Complete
  rw [htokens]
  exact fun t ht => h t ((mem_append.1 ht).resolve_right (not_mem_nil))

theorem visibleChars_append (h : Complete text) (rest : List Char) :
    visibleChars (text ++ rest) = visibleChars text ++ visibleChars rest := by
  rw [visibleChars, tokens_concat h, filterMap_append]
  rfl

theorem visibleChars_render (h : ∀ t ∈ ts, t.Complete) :
    visibleChars (render ts) = ts.filterMap Token.char? := by
  have htokens := tokens_render h []
  rw [append_nil] at htokens
  rw [visibleChars, htokens, filterMap_append]
  exact append_nil _

/-- A text without escapes. -/
theorem tokens_plain (h : escape ∉ text) : tokens text = text.map .char := by
  have hall : ∀ t ∈ text.map Token.char, t.Complete := by
    intro t ht
    obtain ⟨c, hc, rfl⟩ := mem_map.1 ht
    exact fun heq => h (heq ▸ hc)
  have htokens := tokens_render hall []
  have hrender : render (text.map .char) = text := by
    rw [render, flatMap_map]
    exact flatMap_singleton' text
  rw [append_nil, hrender] at htokens
  rw [htokens]
  exact append_nil _

theorem visibleChars_plain (h : escape ∉ text) : visibleChars text = text := by
  rw [visibleChars, tokens_plain h, filterMap_map]
  exact filterMap_some

theorem complete_plain (h : escape ∉ text) : Complete text := by
  intro t ht
  rw [tokens_plain h] at ht
  obtain ⟨c, hc, rfl⟩ := mem_map.1 ht
  exact fun heq => h (heq ▸ hc)

/-! ## Widths -/

/-- A character of printable ASCII. -/
def isPrintable (c : Char) : Bool := 0x20 ≤ c.toNat && c.toNat ≤ 0x7E

/-- `isPrintableAscii` -/
def isPrintableAscii (str : List Char) : Bool := str.all isPrintable

/-- `graphemeWidth`, where a character is a grapheme. -/
structure Widths where
  graphemeWidth : Char → Nat
  ascii : ∀ c, isPrintable c = true → graphemeWidth c = 1
  tab : graphemeWidth '\t' = 3

/-- `replace(/\t/g, "   ")` -/
def expandTabs (str : List Char) : List Char :=
  str.flatMap fun c => if c = '\t' then [' ', ' ', ' '] else [c]

/-- The columns of some characters. -/
def Widths.textWidth (W : Widths) (cs : List Char) : Nat := (cs.map W.graphemeWidth).sum

/-- `visibleWidth` -/
def Widths.visibleWidth (W : Widths) (str : List Char) : Nat :=
  if str = [] then 0
  else if isPrintableAscii str then str.length
  else
    let clean := if '\t' ∈ str then expandTabs str else str
    let clean := if escape ∈ clean then visibleChars clean else clean
    W.textWidth clean

variable {W : Widths}

@[simp] theorem Widths.textWidth_nil : W.textWidth [] = 0 := rfl

@[simp] theorem Widths.textWidth_cons (c : Char) (cs : List Char) :
    W.textWidth (c :: cs) = W.graphemeWidth c + W.textWidth cs := rfl

@[simp] theorem Widths.textWidth_append (cs ds : List Char) :
    W.textWidth (cs ++ ds) = W.textWidth cs + W.textWidth ds := by
  rw [textWidth, map_append, sum_append]
  rfl

theorem expandTabs_cons (c : Char) (cs : List Char) :
    expandTabs (c :: cs) = (if c = '\t' then [' ', ' ', ' '] else [c]) ++ expandTabs cs :=
  flatMap_cons

theorem mem_expandTabs {c : Char} (hblank : c ≠ ' ') (htab : c ≠ '\t') :
    c ∈ expandTabs text ↔ c ∈ text := by
  induction text with
  | nil => exact Iff.rfl
  | cons d text ih =>
    rw [expandTabs_cons, mem_append, ih, mem_cons]
    split_ifs with hd <;> simp [hblank, htab, hd]

theorem Widths.textWidth_expandTabs (W : Widths) (cs : List Char) :
    W.textWidth (expandTabs cs) = W.textWidth cs := by
  have hblank : W.graphemeWidth ' ' = 1 := W.ascii ' ' (by decide)
  induction cs with
  | nil => rfl
  | cons c cs ih =>
    rw [expandTabs_cons, textWidth_append, ih, textWidth_cons]
    split_ifs with hc
    · simp [hc, hblank, W.tab]
    · simp

theorem Widths.textWidth_ascii (W : Widths) (h : isPrintableAscii text = true) :
    W.textWidth text = text.length := by
  induction text with
  | nil => rfl
  | cons c text ih =>
    rw [isPrintableAscii, all_cons, Bool.and_eq_true] at h
    rw [textWidth_cons, W.ascii c h.1, ih h.2, length_cons, Nat.add_comm]

theorem escape_not_mem_ascii (h : isPrintableAscii text = true) : escape ∉ text := fun hmem =>
  absurd (all_eq_true.1 h escape hmem) (by decide)

theorem csiLength_expandTabs (h : csiLength cs = some cs.length) :
    csiLength (expandTabs cs) = some (expandTabs cs).length := by
  induction cs with
  | nil => cases h
  | cons c cs ih =>
    rw [csiLength] at h
    rw [expandTabs_cons]
    split_ifs at h with hlast
    · have hnil : cs = [] := length_eq_zero_iff.1 (by simpa using h.symm)
      have hc : c ≠ '\t' := by
        rintro rfl
        exact absurd hlast (by decide)
      rw [if_neg hc, hnil]
      exact if_pos hlast
    · have hrest := ih (by simpa using h)
      split_ifs with hc
      · show csiLength (' ' :: ' ' :: ' ' :: expandTabs cs) = _
        simp [csiLength, hrest]
      · show csiLength (c :: expandTabs cs) = _
        rw [csiLength, if_neg hlast, hrest]
        rfl

theorem head?_expandTabs (c : Char) (hblank : c ≠ ' ') (htab : c ≠ '\t') :
    (expandTabs cs).head? = some c ↔ cs.head? = some c := by
  cases cs with
  | nil => exact Iff.rfl
  | cons d cs =>
    rw [expandTabs_cons]
    split_ifs with hd
    · simp [hd, Ne.symm hblank, Ne.symm htab]
    · simp

theorem stringLength_expandTabs (h : stringLength cs = some cs.length) :
    stringLength (expandTabs cs) = some (expandTabs cs).length := by
  induction cs with
  | nil => cases h
  | cons c cs ih =>
    rw [stringLength] at h
    rw [expandTabs_cons]
    split_ifs at h with hbell hend
    · have hnil : cs = [] := length_eq_zero_iff.1 (by simpa using h.symm)
      rw [if_neg (by rw [hbell]; decide), hnil]
      exact if_pos hbell
    · obtain ⟨rfl, hhead⟩ := hend
      obtain ⟨cs, rfl⟩ := head?_eq_some_iff.1 hhead
      have hnil : cs = [] := length_eq_zero_iff.1 (by simpa using h.symm)
      subst hnil
      decide
    · have hrest := ih (by simpa using h)
      split_ifs with hc
      · show stringLength (' ' :: ' ' :: ' ' :: expandTabs cs) = _
        have hspace : ∀ ds : List Char,
            stringLength (' ' :: ds) = (stringLength ds).map (· + 1) := by
          intro ds
          rw [stringLength, if_neg (by decide), if_neg (fun hand => absurd hand.1 (by decide))]
        rw [hspace, hspace, hspace, hrest]
        rfl
      · show stringLength (c :: expandTabs cs) = _
        have hend' : ¬(c = escape ∧ (expandTabs cs).head? = some backslash) := fun hand =>
          hend ⟨hand.1, (head?_expandTabs _ (by decide) (by decide)).1 hand.2⟩
        rw [stringLength, if_neg hbell, if_neg hend', hrest]
        rfl

/-- Tabs within an escape sequence do not matter for it. -/
theorem extractAnsiCode_expandTabs (h : extractAnsiCode text = some text.length) :
    extractAnsiCode (expandTabs text) = some (expandTabs text).length := by
  match text, h with
  | c :: next :: tail, h =>
    rw [extractAnsiCode] at h
    split_ifs at h with hescape hcsi hstring
    · have hc : c = escape := not_not.1 hescape
      rw [expandTabs_cons, expandTabs_cons, if_neg (by rw [hc]; decide),
        if_neg (by rw [hcsi]; decide)]
      show extractAnsiCode (c :: next :: expandTabs tail) = _
      rw [extractAnsiCode, if_neg hescape, if_pos hcsi, csiLength_expandTabs (by simpa using h)]
      rfl
    · have hc : c = escape := not_not.1 hescape
      have hnext : next ≠ '\t' := by
        rintro rfl
        exact absurd hstring (by decide)
      rw [expandTabs_cons, expandTabs_cons, if_neg (by rw [hc]; decide), if_neg hnext]
      show extractAnsiCode (c :: next :: expandTabs tail) = _
      rw [extractAnsiCode, if_neg hescape, if_neg hcsi, if_pos hstring,
        stringLength_expandTabs (by simpa using h)]
      rfl

/-- The tokens of a token whose tabs are expanded. -/
def Token.expand : Token → List Token
  | .code text => [.code (expandTabs text)]
  | .char c => (expandTabs [c]).map .char

theorem Token.Complete.expand (h : t.Complete) : ∀ u ∈ t.expand, u.Complete := by
  cases t with
  | code text =>
    intro u hu
    obtain rfl := mem_singleton.1 hu
    exact extractAnsiCode_expandTabs h
  | char c =>
    intro u hu
    obtain ⟨d, hd, rfl⟩ := mem_map.1 hu
    intro heq
    rw [heq, mem_expandTabs (by decide) (by decide), mem_singleton] at hd
    exact h hd.symm

theorem Token.text_expand (t : Token) : render t.expand = expandTabs t.text := by
  cases t with
  | code text => exact append_nil _
  | char c =>
    rw [expand, render, flatMap_map]
    exact flatMap_singleton' _

/-- The characters that are shown where the tabs are expanded. -/
theorem visibleChars_expandTabs (h : Complete text) :
    visibleChars (expandTabs text) = expandTabs (visibleChars text) := by
  have htext : expandTabs text = render ((tokens text).flatMap Token.expand) := by
    conv_lhs => rw [← render_tokens text]
    rw [expandTabs, render, flatMap_assoc, render, flatMap_assoc]
    refine flatMap_congr fun t _ => ?_
    exact t.text_expand.symm
  have hall : ∀ t ∈ (tokens text).flatMap Token.expand, t.Complete := by
    intro u hu
    obtain ⟨t, ht, hut⟩ := mem_flatMap.1 hu
    exact (h t ht).expand u hut
  rw [htext, visibleChars_render hall, visibleChars]
  induction tokens text with
  | nil => rfl
  | cons t ts ih =>
    rw [flatMap_cons, filterMap_append, ih]
    cases t with
    | code text => rfl
    | char c =>
      have hself : (Token.char c).expand.filterMap Token.char? = expandTabs [c] := by
        rw [Token.expand, filterMap_map]
        exact filterMap_some
      rw [hself]
      exact flatMap_append.symm

/-- **A text takes the columns of its visible characters.** -/
theorem Widths.visibleWidth_eq (W : Widths) (h : Complete text) :
    W.visibleWidth text = W.textWidth (visibleChars text) := by
  unfold visibleWidth
  dsimp only
  split_ifs with hnil hascii htab hescape hescape
  · rw [hnil]
    rfl
  · rw [visibleChars_plain (escape_not_mem_ascii hascii), W.textWidth_ascii hascii]
  · rw [visibleChars_expandTabs h, W.textWidth_expandTabs]
  · rw [mem_expandTabs (by decide) (by decide)] at hescape
    rw [visibleChars_plain hescape, W.textWidth_expandTabs]
  · rfl
  · rw [visibleChars_plain hescape]

end BeauPi.Tui.Ansi
