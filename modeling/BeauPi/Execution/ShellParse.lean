import BeauPi.Js.Text

/-!
# Splitting a shell command into tokens

`tokenizeShell` reads a command line one code unit at a time.  The classification of
commands looks at the words it yields, so they should be the words that the shell sees.

* `shellQuote` — a word in single quotes, as the privilege terminal writes it.
* `Lexer`, `step`, `run` — the loop of `tokenizeShell`.
* `run_shellQuote` — the loop reads a quoted word back into the current token.
* `tokenizeShell_commandLine` — what a line of quoted words is read as: an empty word is
  lost, every other word comes back.
-/

namespace BeauPi.Execution

open List

/-- The text of a command. -/
abbrev Command := Js.Units

/-! ## Code units -/

namespace CodeUnit

def nul : UInt16 := 0
def newline : UInt16 := 10
def blank : UInt16 := 32
def doubleQuote : UInt16 := 34
def dollar : UInt16 := 36
def ampersand : UInt16 := 38
def quote : UInt16 := 39
def openParen : UInt16 := 40
def closeParen : UInt16 := 41
def semicolon : UInt16 := 59
def less : UInt16 := 60
def greater : UInt16 := 62
def backslash : UInt16 := 92
def backtick : UInt16 := 96
def bar : UInt16 := 124

end CodeUnit

open CodeUnit

/-! ## Tokens -/

inductive TokenKind
  | word
  | operator
  | redirect
  deriving DecidableEq, Repr

/-- `ShellToken` -/
structure ShellToken where
  kind : TokenKind
  value : Command
  deriving DecidableEq, Repr

/-- `ShellParseResult` -/
structure ShellParseResult where
  tokens : List ShellToken
  isOpaque : Bool
  deriving DecidableEq, Repr

/-- The token of a word. -/
def wordToken (value : Command) : ShellToken := ⟨.word, value⟩

/-- The tokens of words: none for an empty one. -/
def wordTokens (words : List Command) : List ShellToken :=
  (words.filter (· ≠ [])).map wordToken

/-- The operators and redirections of two characters. -/
def pairs : List Command :=
  [[ampersand, ampersand], [bar, bar], [greater, greater], [less, less], [greater, ampersand],
    [less, ampersand], [bar, ampersand], [semicolon, semicolon]]

/-! ## The loop -/

/-- The variables of the loop of `tokenizeShell`. -/
structure Lexer where
  tokens : List ShellToken
  current : Command
  quoted : Option UInt16
  escaped : Bool
  isOpaque : Bool
  deriving DecidableEq, Repr

namespace Lexer

variable (s : Lexer)

/-- `flush` -/
def flush : Lexer :=
  if s.current = [] then s
  else { s with tokens := s.tokens ++ [wordToken s.current], current := [] }

/-- `flush` and a token of its own. -/
def emit (kind : TokenKind) (value : Command) : Lexer :=
  let s := s.flush
  { s with tokens := s.tokens ++ [⟨kind, value⟩] }

/-- `current += character` -/
def push (unit : UInt16) : Lexer := { s with current := s.current ++ [unit] }

/-- A command or a variable is substituted here: a backquote, or a dollar before a
parenthesis. -/
def substitutes (unit : UInt16) (rest : Command) : Bool :=
  unit == backtick || (unit == dollar && rest.head? == some openParen)

/-- The body of the loop for a character inside quotes. -/
def stepQuoted (mark unit : UInt16) (rest : Command) : Lexer :=
  if unit = mark then { s with quoted := none }
  else
    { s with
      isOpaque := s.isOpaque || (mark == doubleQuote && substitutes unit rest)
      current := s.current ++ [unit] }

/-- A quote is opened; a dollar before it goes. -/
def openQuote (unit : UInt16) : Lexer :=
  { s with
    current := if s.current.getLast? = some dollar then s.current.dropLast else s.current
    quoted := some unit }

/-- The body of the loop for a character outside quotes, and how many further characters
it uses up. -/
def stepPlain (unit : UInt16) (rest : Command) : Lexer × Nat :=
  if unit = quote ∨ unit = doubleQuote then (s.openQuote unit, 0)
  else
    let s := { s with isOpaque := s.isOpaque || substitutes unit rest }
    if unit = newline then (s.emit .operator [newline], 0)
    else if Js.isSpaceUnit unit then (s.flush, 0)
    else
      let three := unit :: rest.take 2
      if three = [less, less, less] then (s.emit .redirect three, 2)
      else
        let two := unit :: rest.take 1
        if two ∈ pairs then
          let kind := if greater ∈ two ∨ less ∈ two then .redirect else .operator
          (s.emit kind two, 1)
        else if unit ∈ [semicolon, bar, ampersand, openParen, closeParen] then
          let s := s.emit .operator [unit]
          ({ s with isOpaque := s.isOpaque || unit ∈ [openParen, closeParen] }, 0)
        else if unit = greater ∨ unit = less then (s.emit .redirect [unit], 0)
        else (s.push unit, 0)

/-- The body of the loop at a character, and how many further characters it uses up. -/
def step (unit : UInt16) (rest : Command) : Lexer × Nat :=
  if s.escaped then
    ({ (if unit = newline then s else s.push unit) with escaped := false }, 0)
  else if unit = backslash ∧ s.quoted ≠ some quote then ({ s with escaped := true }, 0)
  else
    match s.quoted with
    | some mark => (s.stepQuoted mark unit rest, 0)
    | none => s.stepPlain unit rest

/-- The loop; the number says how many characters are used up already. -/
def run (s : Lexer) : Nat → Command → Lexer
  | _, [] => s
  | skipped + 1, _ :: rest => run s skipped rest
  | 0, unit :: rest => run (s.step unit rest).1 (s.step unit rest).2 rest

/-- What follows the loop. -/
def finish : ShellParseResult :=
  let s := if s.escaped then s.push backslash else s
  let s := { s with isOpaque := s.isOpaque || s.quoted.isSome }
  ⟨s.flush.tokens, s.flush.isOpaque⟩

end Lexer

/-- The variables before the loop. -/
def lexer (command : Command) : Lexer where
  tokens := []
  current := []
  quoted := none
  escaped := false
  isOpaque := nul ∈ command

/-- `tokenizeShell` -/
def tokenizeShell (command : Command) : ShellParseResult :=
  ((lexer command).run 0 command).finish

/-! ## Quoting -/

/-- `value.replaceAll("'", "'\\''")` -/
def escapeQuotes (value : Command) : Command :=
  value.flatMap fun unit => if unit = quote then [quote, backslash, quote, quote] else [unit]

/-- `shellQuote` -/
def shellQuote (value : Command) : Command := quote :: escapeQuotes value ++ [quote]

/-- The words in quotes, with a blank between each two. -/
def commandLine (words : List Command) : Command := [blank].intercalate (words.map shellQuote)

theorem commandLine_cons_cons (word next : Command) (words : List Command) :
    commandLine (word :: next :: words) =
      shellQuote word ++ blank :: commandLine (next :: words) := by
  simp [commandLine, intercalate_cons_cons]

@[simp] theorem escapeQuotes_nil : escapeQuotes [] = [] := rfl

theorem escapeQuotes_quote (value : Command) :
    escapeQuotes (quote :: value) = quote :: backslash :: quote :: quote :: escapeQuotes value :=
  rfl

theorem escapeQuotes_cons {unit : UInt16} (h : unit ≠ quote) (value : Command) :
    escapeQuotes (unit :: value) = unit :: escapeQuotes value := by
  simp [escapeQuotes, h]

/-- Quoting brings no character that is not in the word, but quotes and backslashes. -/
theorem mem_shellQuote {unit : UInt16} (hq : unit ≠ quote) (hb : unit ≠ backslash)
    (value : Command) : unit ∈ shellQuote value ↔ unit ∈ value := by
  have hiff : unit ∈ escapeQuotes value ↔ unit ∈ value := by
    simp only [escapeQuotes, mem_flatMap]
    constructor
    · rintro ⟨other, hother, hmem⟩
      by_cases h : other = quote
      · simp [h, hq, hb] at hmem
      · simp only [h, if_false, mem_singleton] at hmem
        rwa [hmem]
    · intro h
      exact ⟨unit, h, by simp [hq]⟩
  simp [shellQuote, hq, hiff]

/-! ## Reading a quoted word -/

namespace Lexer

variable {s : Lexer} {unit : UInt16} {rest : Command}

/-- One turn of the loop. -/
theorem run_of_step {next : Lexer} {skipped : Nat} (h : s.step unit rest = (next, skipped)) :
    s.run 0 (unit :: rest) = next.run skipped rest := by
  simp only [run, h]

/-- Within single quotes every character but the quote is taken as it is. -/
theorem step_inside (he : s.escaped = false) (hs : s.quoted = some quote) (hu : unit ≠ quote) :
    s.step unit rest = (s.push unit, 0) := by
  have hmark : (quote == doubleQuote) = false := by decide
  simp [step, he, hs, stepQuoted, hu, hmark, push]

/-- A single quote ends the quoted text. -/
theorem step_close (he : s.escaped = false) (hs : s.quoted = some quote) :
    s.step quote rest = ({ s with quoted := none }, 0) := by
  have hne : quote ≠ backslash := by decide
  simp [step, he, hs, stepQuoted]

/-- A single quote opens quoted text. -/
theorem step_open (he : s.escaped = false) (hs : s.quoted = none)
    (hd : s.current.getLast? ≠ some dollar) :
    s.step quote rest = ({ s with quoted := some quote }, 0) := by
  have hne : quote ≠ backslash := by decide
  simp [step, he, hs, stepPlain, openQuote, hne, hd]

/-- A backslash outside quotes escapes the next character. -/
theorem step_backslash (he : s.escaped = false) (hs : s.quoted = none) :
    s.step backslash rest = ({ s with escaped := true }, 0) := by
  simp [step, he, hs]

theorem step_escaped (he : s.escaped = true) (hu : unit ≠ newline) :
    s.step unit rest = ({ s.push unit with escaped := false }, 0) := by
  simp [step, he, hu]

/-- Inside single quotes the loop reads an escaped word back. -/
theorem run_escapeQuotes : ∀ (value : Command) (s : Lexer), s.escaped = false →
    s.quoted = some quote → ∀ rest,
      s.run 0 (escapeQuotes value ++ rest) = ({ s with current := s.current ++ value }).run 0 rest
  | [], s, _, _, rest => by simp
  | unit :: value, ⟨tokens, current, quoted, escaped, isOpaque⟩, he, hs, rest => by
    subst he hs
    by_cases hu : unit = quote
    · -- the quote is closed, the escaped quote pushed and a new quote opened
      subst hu
      simp only [escapeQuotes_quote, cons_append]
      rw [run_of_step (step_close rfl rfl), run_of_step (step_backslash rfl rfl),
        run_of_step (step_escaped rfl (by decide)),
        run_of_step (step_open rfl rfl (by simp [push]; decide)),
        run_escapeQuotes value _ rfl rfl]
      simp [push]
    · rw [escapeQuotes_cons hu, cons_append, run_of_step (step_inside rfl rfl hu),
        run_escapeQuotes value _ rfl rfl]
      simp [push]

/-- At the start of a word the loop reads a quoted word back into the current token. -/
theorem run_shellQuote (he : s.escaped = false) (hs : s.quoted = none) (hc : s.current = [])
    (value rest : Command) :
    s.run 0 (shellQuote value ++ rest) = ({ s with current := value }).run 0 rest := by
  obtain ⟨tokens, current, quoted, escaped, isOpaque⟩ := s
  subst he hs hc
  rw [shellQuote, cons_append, cons_append,
    run_of_step (step_open rfl rfl (by simp)), append_assoc,
    run_escapeQuotes value _ rfl rfl, singleton_append, run_of_step (step_close rfl rfl)]
  simp

/-- A blank outside quotes ends the word. -/
theorem step_blank (he : s.escaped = false) (hs : s.quoted = none) :
    s.step blank rest = (s.flush, 0) := by
  obtain ⟨tokens, current, quoted, escaped, isOpaque⟩ := s
  subst he hs
  have hblank : Js.isSpaceUnit blank = true := by decide
  have hb : blank ≠ backslash := by decide
  have hq : blank ≠ quote := by decide
  have hd : blank ≠ doubleQuote := by decide
  have hn : blank ≠ newline := by decide
  have hsub : substitutes blank rest = false := by
    have h₁ : (blank == backtick) = false := by decide
    have h₂ : (blank == dollar) = false := by decide
    simp [substitutes, h₁, h₂]
  simp [step, stepPlain, hb, hq, hd, hn, hsub, hblank]

theorem flush_word (s : Lexer) (word : Command) :
    ({ s with current := word }).flush =
      { s with tokens := s.tokens ++ wordTokens [word], current := [] } := by
  by_cases h : word = [] <;> simp [flush, wordTokens, h]

theorem finish_word (he : s.escaped = false) (hs : s.quoted = none) (word : Command) :
    ({ s with current := word }).finish =
      ⟨s.tokens ++ wordTokens [word], s.isOpaque⟩ := by
  have h := flush_word s word
  simp only [he, hs] at h
  simp [finish, he, hs, h]

/-- A line of quoted words is read as these words, without the empty ones. -/
theorem run_commandLine : ∀ (words : List Command) (s : Lexer), s.escaped = false →
    s.quoted = none → s.current = [] →
      (s.run 0 (commandLine words)).finish = ⟨s.tokens ++ wordTokens words, s.isOpaque⟩
  | [], s, he, hs, hc => by
    obtain ⟨tokens, current, quoted, escaped, isOpaque⟩ := s
    subst hc
    exact finish_word he hs []
  | [word], s, he, hs, hc => by
    have h := run_shellQuote he hs hc word []
    simp only [append_nil] at h
    simp only [commandLine, map_cons, map_nil, intercalate_singleton, h, run]
    exact finish_word he hs word
  | word :: next :: words, ⟨tokens, current, quoted, escaped, isOpaque⟩, he, hs, hc => by
    subst he hs hc
    have hwords : wordTokens (word :: next :: words) =
        wordTokens [word] ++ wordTokens (next :: words) := by
      simp only [wordTokens, ← map_append, ← filter_append, singleton_append]
    rw [commandLine_cons_cons, run_shellQuote rfl rfl rfl, run_of_step (step_blank rfl rfl),
      flush_word, run_commandLine (next :: words) _ rfl rfl rfl, hwords, append_assoc]

end Lexer

/-! ## Reading a line of quoted words -/

open Lexer

theorem nul_mem_commandLine (words : List Command) :
    nul ∈ commandLine words ↔ ∃ word ∈ words, nul ∈ word := by
  have hq : nul ≠ quote := by decide
  have hb : nul ≠ backslash := by decide
  have hblank : nul ≠ blank := by decide
  induction words with
  | nil => simp [commandLine]
  | cons word words ih =>
    cases words with
    | nil => simp [commandLine, mem_shellQuote hq hb]
    | cons next words =>
      simp only [commandLine_cons_cons, mem_append, mem_cons, ih, hblank, false_or,
        mem_shellQuote hq hb, exists_eq_or_imp]

/-- What `tokenizeShell` makes of a line of quoted words: an empty word is lost, and the
line is opaque only for a NUL. -/
theorem tokenizeShell_commandLine (words : List Command) :
    tokenizeShell (commandLine words) =
      ⟨wordTokens words, decide (∃ word ∈ words, nul ∈ word)⟩ := by
  rw [tokenizeShell, run_commandLine words _ rfl rfl rfl]
  simp [lexer, nul_mem_commandLine]

theorem wordTokens_eq_map_iff {words : List Command} :
    wordTokens words = words.map wordToken ↔ ∀ word ∈ words, word ≠ [] := by
  have hinj : Function.Injective wordToken := fun _ _ h => (ShellToken.mk.inj h).2
  rw [wordTokens, (map_injective_iff.mpr hinj).eq_iff, filter_eq_self]
  simp

/-- Words without a NUL come back from the line of the quoted words, as words and in their
order, exactly if none of them is empty. -/
theorem tokenizeShell_quoted_iff (words : List Command) (hnul : ∀ word ∈ words, nul ∉ word) :
    ((tokenizeShell (commandLine words)).isOpaque = false ∧
        (tokenizeShell (commandLine words)).tokens = words.map wordToken) ↔
      ∀ word ∈ words, word ≠ [] := by
  have hplain : ¬ ∃ word ∈ words, nul ∈ word := by
    rintro ⟨word, hmem, hword⟩
    exact hnul word hmem hword
  rw [tokenizeShell_commandLine, ← wordTokens_eq_map_iff]
  simp [hplain]

/-- The line `'a b' ';' '$('` is read as its three words. -/
theorem tokenizeShell_quoted_operators :
    (∀ word ∈ ([[97, blank, 98], [semicolon], [dollar, openParen]] : List Command),
        nul ∉ word) ∧
      (((tokenizeShell (commandLine [[97, blank, 98], [semicolon], [dollar, openParen]])).isOpaque
          = false ∧
        (tokenizeShell (commandLine [[97, blank, 98], [semicolon], [dollar, openParen]])).tokens
          = [wordToken [97, blank, 98], wordToken [semicolon], wordToken [dollar, openParen]]) ↔
        ∀ word ∈ ([[97, blank, 98], [semicolon], [dollar, openParen]] : List Command),
          word ≠ []) :=
  ⟨by decide, tokenizeShell_quoted_iff _ (by decide)⟩

/-- `shellQuote` makes a word of the empty text, but the line `''` is read as no word. -/
theorem tokenizeShell_drops_empty :
    ¬ ∀ words : List Command, (∀ word ∈ words, nul ∉ word) →
      (tokenizeShell (commandLine words)).isOpaque = false ∧
        (tokenizeShell (commandLine words)).tokens = words.map wordToken := by
  intro h
  exact absurd (h [[]] (by decide)).2 (by decide)

end BeauPi.Execution
