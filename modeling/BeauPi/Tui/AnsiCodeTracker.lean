import BeauPi.Tui.TruncateToWidth
import Mathlib.Tactic.SplitIfs

/-!
# The style of a text

* `AnsiCodeTracker` — the attributes, colours and link that the code takes note of.
* `Token.Styled` — an SGR sequence, or a character.
* `AnsiCodeTracker.styled_activeCodes` — what the tracker replays is an SGR sequence.
* `Emulator` — what escape sequences mean to a terminal; `sampleEmulator` reads SGR sequences.
-/

namespace BeauPi.Tui.Ansi

open List

/-! ## The tracker -/

/-- `ActiveHyperlink` -/
structure ActiveHyperlink where
  params : List Char
  url : List Char
  terminator : List Char
  deriving DecidableEq, Repr

/-- `parseOsc8Hyperlink`; the outer `none` is `undefined`, the inner one `null`. -/
def parseOsc8Hyperlink (ansiCode : List Char) : Option (Option ActiveHyperlink) :=
  if ¬[escape, ']', '8', ';'] <+: ansiCode then none
  else
    let terminator := if ansiCode.getLast? = some bell then [bell] else [escape, backslash]
    let body := (ansiCode.take (ansiCode.length - terminator.length)).drop 4
    if ';' ∉ body then none
    else
      let url := (body.dropWhile (· ≠ ';')).tail
      if url = [] then some none
      else some (some ⟨body.takeWhile (· ≠ ';'), url, terminator⟩)

/-- The attributes that are on; a colour is the list of its parameters. -/
structure AnsiCodeTracker where
  bold : Bool := false
  dim : Bool := false
  italic : Bool := false
  underline : Bool := false
  blink : Bool := false
  inverse : Bool := false
  hidden : Bool := false
  strikethrough : Bool := false
  fgColor : Option (List (List Char)) := none
  bgColor : Option (List (List Char)) := none
  activeHyperlink : Option ActiveHyperlink := none
  deriving DecidableEq, Repr

/-- `[\d;]` -/
def isParam (c : Char) : Bool := c.isDigit || c = ';'

/-- `match(/\x1b\[([\d;]*)m/)` -/
def matchParams : List Char → Option (List Char)
  | [] => none
  | c :: cs =>
    if c = escape ∧ cs.head? = some '[' ∧ (cs.tail.dropWhile isParam).head? = some 'm' then
      some (cs.tail.takeWhile isParam)
    else matchParams cs

/-- `Number.parseInt(part, 10)` of some digits; `none` is `NaN`. -/
def parseInt (part : List Char) : Option Nat :=
  if part = [] then none else some (part.foldl (fun n c => 10 * n + (c.toNat - 48)) 0)

namespace AnsiCodeTracker

variable {t : AnsiCodeTracker}

def reset (t : AnsiCodeTracker) : AnsiCodeTracker := { activeHyperlink := t.activeHyperlink }

/-- The `switch` over the standard SGR codes. -/
def standard (t : AnsiCodeTracker) (code : Nat) : AnsiCodeTracker :=
  match code with
  | 0 => t.reset
  | 1 => { t with bold := true }
  | 2 => { t with dim := true }
  | 3 => { t with italic := true }
  | 4 => { t with underline := true }
  | 5 => { t with blink := true }
  | 7 => { t with inverse := true }
  | 8 => { t with hidden := true }
  | 9 => { t with strikethrough := true }
  | 21 => { t with bold := false }
  | 22 => { t with bold := false, dim := false }
  | 23 => { t with italic := false }
  | 24 => { t with underline := false }
  | 25 => { t with blink := false }
  | 27 => { t with inverse := false }
  | 28 => { t with hidden := false }
  | 29 => { t with strikethrough := false }
  | 39 => { t with fgColor := none }
  | 49 => { t with bgColor := none }
  | code =>
    if 30 ≤ code ∧ code ≤ 37 ∨ 90 ≤ code ∧ code ≤ 97 then
      { t with fgColor := some [Nat.toDigits 10 code] }
    else if 40 ≤ code ∧ code ≤ 47 ∨ 100 ≤ code ∧ code ≤ 107 then
      { t with bgColor := some [Nat.toDigits 10 code] }
    else t

/-- How many parameters a 256-color or RGB code takes behind `38` or `48`. -/
def colorLength (parts : List (List Char)) : Nat :=
  if parts[0]? = some ['5'] ∧ parts[1]?.isSome then 2
  else if parts[0]? = some ['2'] ∧ parts[3]?.isSome then 4
  else 0

/-- The loop over the parameters, of which some are still to be left out. -/
def processParts : Nat → List (List Char) → AnsiCodeTracker → AnsiCodeTracker
  | _, [], t => t
  | skip + 1, _ :: parts, t => processParts skip parts t
  | 0, part :: parts, t =>
    if 0 < colorLength parts ∧ parseInt part = some 38 then
      processParts (colorLength parts) parts
        { t with fgColor := some (part :: parts.take (colorLength parts)) }
    else if 0 < colorLength parts ∧ parseInt part = some 48 then
      processParts (colorLength parts) parts
        { t with bgColor := some (part :: parts.take (colorLength parts)) }
    else
      match parseInt part with
      | none => processParts 0 parts t
      | some code => processParts 0 parts (t.standard code)

def process (t : AnsiCodeTracker) (ansiCode : List Char) : AnsiCodeTracker :=
  match parseOsc8Hyperlink ansiCode with
  | some hyperlink => { t with activeHyperlink := hyperlink }
  | none =>
    if ansiCode.getLast? ≠ some 'm' then t
    else
      match matchParams ansiCode with
      | none => t
      | some params =>
        if params = [] ∨ params = ['0'] then t.reset
        else processParts 0 (params.splitOn ';') t

/-- The parameters of what is on. -/
def activeParts (t : AnsiCodeTracker) : List (List Char) :=
  [(t.bold, '1'), (t.dim, '2'), (t.italic, '3'), (t.underline, '4'), (t.blink, '5'),
    (t.inverse, '7'), (t.hidden, '8'), (t.strikethrough, '9')].flatMap
    (fun flag => if flag.1 then [[flag.2]] else []) ++ t.fgColor.getD [] ++ t.bgColor.getD []

end AnsiCodeTracker

/-- The SGR sequence with some parameters. -/
def sgrCode (parts : List (List Char)) : List Char :=
  [escape, '['] ++ [';'].intercalate parts ++ ['m']

/-- `formatOsc8Hyperlink` -/
def formatOsc8Hyperlink (link : ActiveHyperlink) : List Char :=
  [escape, ']', '8', ';'] ++ link.params ++ [';'] ++ link.url ++ link.terminator

def AnsiCodeTracker.getActiveCodes (t : AnsiCodeTracker) : List Token :=
  (if t.activeParts = [] then [] else [.code (sgrCode t.activeParts)]) ++
    t.activeHyperlink.toList.map fun link => .code (formatOsc8Hyperlink link)

/-- What is left of a state that takes in the escape sequences of some tokens. -/
def readCodes {σ : Type} (read : σ → List Char → σ) : σ → List Token → σ
  | state, [] => state
  | state, .code text :: ts => readCodes read (read state text) ts
  | state, .char _ :: ts => readCodes read state ts

theorem readCodes_append {σ : Type} (read : σ → List Char → σ) (state : σ) (ts us : List Token) :
    readCodes read state (ts ++ us) = readCodes read (readCodes read state ts) us := by
  fun_induction readCodes read state ts with
  | case1 state => rfl
  | case2 state text ts ih => exact ih
  | case3 state c ts ih => exact ih

/-- The tracker behind some tokens. -/
def AnsiCodeTracker.after : AnsiCodeTracker → List Token → AnsiCodeTracker :=
  readCodes AnsiCodeTracker.process

/-! ## SGR sequences -/

/-- A character of SGR parameters. -/
def isSgrParam (c : Char) : Bool := isParam c || c = ':'

/-- The token is an SGR sequence or no part of an escape sequence. -/
def Token.Styled : Token → Prop
  | .code text => ∃ params : List Char, params.all isSgrParam = true ∧
      text = escape :: '[' :: (params ++ ['m'])
  | .char c => c ≠ escape

instance (t : Token) : Decidable t.Styled :=
  match t with
  | .code text =>
    decidable_of_iff ((text.drop 2).dropLast.all isSgrParam = true ∧
        text = escape :: '[' :: ((text.drop 2).dropLast ++ ['m']))
      ⟨fun h => ⟨_, h⟩, by rintro ⟨params, h, rfl⟩; simp_all⟩
  | .char c => inferInstanceAs (Decidable (c ≠ escape))

variable {t : AnsiCodeTracker}

theorem csiLength_params {params : List Char} (h : params.all isSgrParam = true) :
    csiLength (params ++ ['m']) = some (params.length + 1) := by
  induction params with
  | nil => rfl
  | cons c params ih =>
    rw [all_cons, Bool.and_eq_true] at h
    obtain ⟨hc, hparams⟩ := h
    have hnot : c ∉ ['m', 'G', 'K', 'H', 'J'] := by
      intro hmem
      simp only [mem_cons, not_mem_nil, or_false] at hmem
      rcases hmem with rfl | rfl | rfl | rfl | rfl <;> exact absurd hc (by decide)
    rw [cons_append, csiLength, if_neg hnot, ih hparams]
    rfl

/-- SGR sequences are complete. -/
theorem Token.Styled.complete {u : Token} (h : u.Styled) : u.Complete := by
  cases u with
  | char c => exact h
  | code text =>
    obtain ⟨params, hparams, rfl⟩ := h
    show extractAnsiCode (escape :: '[' :: (params ++ ['m'])) = _
    rw [extractAnsiCode, if_neg (by simp), if_pos rfl, csiLength_params hparams]
    simp

/-! ## What the tracker replays -/

namespace AnsiCodeTracker

/-- The colours are parameters of SGR sequences, and there is no link. -/
structure Tidy (t : AnsiCodeTracker) : Prop where
  colors : ∀ part ∈ t.fgColor.getD [] ++ t.bgColor.getD [], part.all isParam = true
  link : t.activeHyperlink = none

theorem tidy_empty : Tidy {} := ⟨by simp, rfl⟩

theorem Tidy.setFg (h : t.Tidy) {parts : List (List Char)}
    (hparts : ∀ part ∈ parts, part.all isParam = true) :
    Tidy { t with fgColor := some parts } :=
  ⟨forall_mem_append.2 ⟨hparts, (forall_mem_append.1 h.colors).2⟩, h.link⟩

theorem Tidy.setBg (h : t.Tidy) {parts : List (List Char)}
    (hparts : ∀ part ∈ parts, part.all isParam = true) :
    Tidy { t with bgColor := some parts } :=
  ⟨forall_mem_append.2 ⟨(forall_mem_append.1 h.colors).1, hparts⟩, h.link⟩

theorem isParam_toDigits (code : Nat) :
    ∀ part ∈ [Nat.toDigits 10 code], part.all isParam = true := by
  refine forall_mem_singleton.2 (all_eq_true.2 fun c hc => ?_)
  rw [isParam, Nat.isDigit_of_mem_toDigits (by decide) (by decide) hc, Bool.true_or]

theorem Tidy.standard (h : t.Tidy) (code : Nat) : (t.standard code).Tidy := by
  unfold AnsiCodeTracker.standard
  split
  case h_1 => exact ⟨by simp [reset], h.link⟩
  case h_18 => exact ⟨(forall_mem_append.1 h.colors).2, h.link⟩
  case h_19 => exact ⟨fun part hpart => h.colors part (by simp_all), h.link⟩
  case h_20 =>
    split_ifs
    · exact h.setFg (isParam_toDigits code)
    · exact h.setBg (isParam_toDigits code)
    · exact h
  all_goals exact ⟨h.colors, h.link⟩

theorem Tidy.processParts (h : t.Tidy) {parts : List (List Char)}
    (hparts : ∀ part ∈ parts, part.all isParam = true) (skip : Nat) :
    (processParts skip parts t).Tidy := by
  have htake : ∀ {part : List Char} {parts : List (List Char)} (n : Nat),
      (∀ p ∈ part :: parts, p.all isParam = true) →
      ∀ p ∈ part :: parts.take n, p.all isParam = true := fun n hall p hp =>
    hall p ((List.Sublist.cons_cons _ (take_sublist n _)).subset hp)
  fun_induction AnsiCodeTracker.processParts skip parts t with
  | case1 => exact h
  | case2 _ _ parts t ih | case5 part parts t _ _ _ ih =>
    exact ih h (forall_mem_cons.1 hparts).2
  | case3 part parts t hcode ih =>
    exact ih (h.setFg (htake _ hparts)) (forall_mem_cons.1 hparts).2
  | case4 part parts t _ hcode ih =>
    exact ih (h.setBg (htake _ hparts)) (forall_mem_cons.1 hparts).2
  | case6 part parts t _ _ code _ ih =>
    exact ih (h.standard code) (forall_mem_cons.1 hparts).2

theorem matchParams_isParam {text params : List Char} (h : matchParams text = some params) :
    params.all isParam = true := by
  fun_induction matchParams text with
  | case1 => cases h
  | case2 c cs hmatch =>
    obtain rfl := Option.some.inj h
    exact all_takeWhile
  | case3 c cs hmatch ih => exact ih h

theorem all_intercalate {p : Char → Bool} (hp : p ';' = true) (parts : List (List Char)) :
    ([';'].intercalate parts).all p = parts.all (List.all · p) := by
  induction parts with
  | nil => rfl
  | cons part parts ih =>
    cases parts with
    | nil => simp
    | cons next parts =>
      rw [intercalate_cons_cons, all_append, all_append, ih, all_cons, all_nil, hp, Bool.and_true,
        Bool.and_true]
      rfl

theorem isParam_splitOn {params : List Char} (h : params.all isParam = true) :
    ∀ part ∈ params.splitOn ';', part.all isParam = true := by
  rw [← @intercalate_splitOn _ params _ _ ';', all_intercalate rfl] at h
  exact all_eq_true.1 h

/-- SGR sequences keep a tracker tidy. -/
theorem Tidy.process (h : t.Tidy) {text : List Char} (htext : (Token.code text).Styled) :
    (t.process text).Tidy := by
  obtain ⟨params, -, rfl⟩ := htext
  have hlink : parseOsc8Hyperlink (escape :: '[' :: (params ++ ['m'])) = none := by
    rw [parseOsc8Hyperlink, if_pos]
    simp
  rw [AnsiCodeTracker.process, hlink]
  dsimp only
  split_ifs
  · exact h
  · cases hmatch : matchParams (escape :: '[' :: (params ++ ['m'])) with
    | none => exact h
    | some found =>
      dsimp only
      split_ifs
      · exact ⟨by simp [reset], h.link⟩
      · exact h.processParts (isParam_splitOn (matchParams_isParam hmatch)) 0

theorem Tidy.after (h : t.Tidy) {ts : List Token} (hts : ∀ u ∈ ts, u.Styled) :
    (t.after ts).Tidy := by
  unfold AnsiCodeTracker.after
  fun_induction readCodes AnsiCodeTracker.process t ts with
  | case1 => exact h
  | case2 t text ts ih =>
    obtain ⟨htext, hrest⟩ := forall_mem_cons.1 hts
    exact ih (h.process htext) hrest
  | case3 t c ts ih => exact ih h (forall_mem_cons.1 hts).2

theorem isParam_activeParts (h : t.Tidy) : ∀ part ∈ t.activeParts, part.all isParam = true := by
  intro part hpart
  rw [activeParts, append_assoc] at hpart
  rcases mem_append.1 hpart with hpart | hpart
  · obtain ⟨flag, hflag, hpart⟩ := mem_flatMap.1 hpart
    split_ifs at hpart
    · obtain rfl := mem_singleton.1 hpart
      simp only [mem_cons, not_mem_nil, or_false] at hflag
      rcases hflag with rfl | rfl | rfl | rfl | rfl | rfl | rfl | rfl <;> rfl
    · cases hpart
  · exact h.colors part hpart

theorem char?_activeCodes (t : AnsiCodeTracker) : ∀ u ∈ t.getActiveCodes, u.char? = none := by
  intro u hu
  rw [getActiveCodes] at hu
  rcases mem_append.1 hu with hu | hu
  · split_ifs at hu
    · cases hu
    · rw [mem_singleton.1 hu]
      rfl
  · obtain ⟨link, -, rfl⟩ := mem_map.1 hu
    rfl

/-- **The active codes are an SGR sequence, if anything.** -/
theorem Tidy.styled_activeCodes (h : t.Tidy) : ∀ u ∈ t.getActiveCodes, u.Styled := by
  intro u hu
  rw [getActiveCodes, h.link] at hu
  split_ifs at hu with hnil
  · cases hu
  · obtain rfl := mem_singleton.1 hu
    refine ⟨[';'].intercalate t.activeParts, all_eq_true.2 fun c hc => ?_, rfl⟩
    have hparts := (all_intercalate rfl t.activeParts).trans
      (all_eq_true.2 (isParam_activeParts h))
    rw [isSgrParam, all_eq_true.1 hparts c hc, Bool.true_or]

end AnsiCodeTracker

/-! ## What a terminal reads -/

/-- The escape sequences of `SEGMENT_RESET`. -/
def resetTokens : List Token := tokens segmentReset.toList

/-- A terminal, as far as the style of its text goes. -/
structure Emulator where
  Style : Type
  /-- The style of a line that begins. -/
  plain : Style
  read : Style → List Char → Style
  reset : ∀ style, readCodes read style resetTokens = plain

variable {T : Emulator}

/-- The style behind some tokens. -/
def Emulator.after (T : Emulator) : T.Style → List Token → T.Style := readCodes T.read

/-- The styles of the characters. -/
def Emulator.styles (T : Emulator) : T.Style → List Token → List T.Style
  | _, [] => []
  | style, .code text :: ts => T.styles (T.read style text) ts
  | style, .char _ :: ts => style :: T.styles style ts

/-- A color of a palette, or one that is given by its parts. -/
inductive Color
  | index (n : Nat)
  | rgb (r g b : Nat)
  deriving DecidableEq, Repr

/-- What SGR sequences turn on and off. -/
structure Rendition where
  bold : Bool := false
  dim : Bool := false
  italic : Bool := false
  /-- The lines below the text, or their form. -/
  underline : Nat := 0
  blink : Nat := 0
  inverse : Bool := false
  hidden : Bool := false
  strikethrough : Bool := false
  overline : Bool := false
  font : Nat := 0
  fgColor : Option Color := none
  bgColor : Option Color := none
  underlineColor : Option Color := none
  deriving DecidableEq, Repr

namespace Rendition

/-- A longer color. -/
def color (old : Option Color) : List Nat → Option Color
  | 5 :: n :: _ => some (.index n)
  | [2, r, g, b] | [2, _, r, g, b] => some (.rgb r g b)
  | _ => old

/-- A parameter with its parts. -/
def set (style : Rendition) : List Nat → Rendition
  | 38 :: parts => { style with fgColor := color style.fgColor parts }
  | 48 :: parts => { style with bgColor := color style.bgColor parts }
  | 58 :: parts => { style with underlineColor := color style.underlineColor parts }
  | [4, form] => { style with underline := form }
  | [0] => {}
  | [1] => { style with bold := true }
  | [2] => { style with dim := true }
  | [3] => { style with italic := true }
  | [4] => { style with underline := 1 }
  | [5] => { style with blink := 1 }
  | [6] => { style with blink := 2 }
  | [7] => { style with inverse := true }
  | [8] => { style with hidden := true }
  | [9] => { style with strikethrough := true }
  | [21] => { style with underline := 2 }
  | [22] => { style with bold := false, dim := false }
  | [23] => { style with italic := false }
  | [24] => { style with underline := 0 }
  | [25] => { style with blink := 0 }
  | [27] => { style with inverse := false }
  | [28] => { style with hidden := false }
  | [29] => { style with strikethrough := false }
  | [39] => { style with fgColor := none }
  | [49] => { style with bgColor := none }
  | [53] => { style with overline := true }
  | [55] => { style with overline := false }
  | [59] => { style with underlineColor := none }
  | [code] =>
    if 10 ≤ code ∧ code ≤ 19 then { style with font := code - 10 }
    else if 30 ≤ code ∧ code ≤ 37 then { style with fgColor := some (.index (code - 30)) }
    else if 40 ≤ code ∧ code ≤ 47 then { style with bgColor := some (.index (code - 40)) }
    else if 90 ≤ code ∧ code ≤ 97 then { style with fgColor := some (.index (code - 82)) }
    else if 100 ≤ code ∧ code ≤ 107 then { style with bgColor := some (.index (code - 92)) }
    else style
  | _ => style

/-- How many parameters the color in front of some others takes. -/
def colorLength (params : List (List Nat)) : Nat :=
  if params.head? = some [5] then 2 else if params.head? = some [2] then 4 else 0

/-- The parameters of a sequence, of which some are still to be left out. -/
def setAll : Nat → List (List Nat) → Rendition → Rendition
  | _, [], style => style
  | skip + 1, _ :: params, style => setAll skip params style
  | 0, param :: params, style =>
    if param ∈ [[38], [48], [58]] then
      setAll (colorLength params) params
        (style.set (param ++ (params.take (colorLength params)).flatten))
    else setAll 0 params (style.set param)

/-- A sequence comes in; a parameter that is missing is `0`. -/
def read (style : Rendition) (text : List Char) : Rendition :=
  if text.take 2 = [escape, '['] ∧ text.getLast? = some 'm' then
    setAll 0 (((text.drop 2).dropLast.splitOn ';').map fun param =>
      (param.splitOn ':').map fun part => (parseInt part).getD 0) style
  else style

end Rendition

/-- A terminal that reads SGR sequences. -/
def sampleEmulator : Emulator where
  Style := Rendition
  plain := {}
  read := Rendition.read
  reset _ := rfl

instance : DecidableEq sampleEmulator.Style := inferInstanceAs (DecidableEq Rendition)

end BeauPi.Tui.Ansi
