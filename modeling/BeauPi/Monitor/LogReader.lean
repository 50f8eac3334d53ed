import Mathlib.Data.List.Basic
import Mathlib.Data.Rat.Defs
import Mathlib.Algebra.Order.Ring.Unbundled.Rat
import Mathlib.Algebra.Order.Ring.Rat
import Mathlib.Data.Nat.Cast.Order.Ring

/-!
# Reading log files incrementally

`IncrementalLogReader.read` reads the whole file every time and decides from hashes which
part of it is new.  What it remembers — a cursor, the hash of the file and the hash of the
text before the cursor — belongs to the monitor, while the cursor it starts from comes
from the caller.

* `read` in two parts: `previousState`, before the file is read, and `readFile`, after.
* `Remembers` — what a remembered state says about a log that only grows.
* `Fits` — the caller's cursor fits what is remembered.
* `readFile_exact`, `fits_of_exact` — a read of a growing log is exact if its cursor
  fits and, unless two hashes collide, only then.
-/

namespace BeauPi.Monitor

open List

/-- The text of a file, as JavaScript sees it: a list of UTF-16 code units. -/
abbrev Text := List UInt16

/-! ## The reader -/

inductive LogMode
  | incremental
  | full
  deriving DecidableEq, Repr

/-- `LogCursorState`; device and inode are known together or not at all. -/
structure LogCursorState where
  cursor : Nat
  hash : Option String
  prefixHash : Option String
  identity : Option (Nat × Nat)
  deriving DecidableEq, Repr

/-- `IncrementalLogReadOptions`, without the names of the monitor and the file. -/
structure ReadOptions where
  cursor : Option ℚ
  hash : Option String
  prefixHash : Option String
  mode : LogMode
  deriving DecidableEq, Repr

/-- `IncrementalLogReadResult`, without the name of the file. -/
structure ReadResult where
  content : Text
  cursor : Nat
  hash : String
  prefixHash : String
  changed : Bool
  truncated : Bool
  rotated : Bool
  missing : Bool
  diagnostic : Option String
  deriving DecidableEq, Repr

/-- `asNonNegativeInteger` -/
def asNonNegativeInteger (value : Option ℚ) : Option Nat :=
  match value with
  | some number => if number.isInt = false ∨ number < 0 then none else some number.num.toNat
  | none => none

/-- The part of `read` before the file is read: what the reader remembers of the monitor,
or else what the caller says. -/
def previousState (cached : Option LogCursorState) (options : ReadOptions) : LogCursorState :=
  cached.getD {
    cursor := (asNonNegativeInteger options.cursor).getD 0
    hash := options.hash
    prefixHash := options.prefixHash
    identity := none }

variable (hashText : Text → String)

/-- The part of `read` after the file was read: the result, and what is remembered. -/
def readFile (options : ReadOptions) (previous : LogCursorState) (file : Text)
    (fileStat : Option (Nat × Nat)) : ReadResult × LogCursorState :=
  let currentHash := hashText file
  let full := options.mode = .full
  let baseCursor := (asNonNegativeInteger options.cursor).getD previous.cursor
  let currentPrefixHash := hashText (file.take (min baseCursor file.length))
  let identityChanged := fileStat ≠ none ∧ previous.identity ≠ none ∧ fileStat ≠ previous.identity
  let truncated := baseCursor > file.length
  let prefixChanged :=
    baseCursor > 0 ∧ previous.prefixHash ≠ none ∧ some currentPrefixHash ≠ previous.prefixHash
  let rotated := identityChanged ∨ (baseCursor > 0 ∧ prefixChanged)
  let changed := some currentHash ≠ previous.hash ∨ truncated ∨ rotated
  let start := if full ∨ rotated ∨ truncated then 0 else min baseCursor file.length
  let content := if full then file else if changed then file.drop start else []
  let nextCursor := if full then file.length else if changed then file.length else baseCursor
  let nextPrefixHash := hashText (file.take nextCursor)
  ({ content := content
     cursor := nextCursor
     hash := currentHash
     prefixHash := nextPrefixHash
     changed := full ∨ changed
     truncated := truncated
     rotated := rotated
     missing := false
     diagnostic := none },
   { cursor := nextCursor
     hash := some currentHash
     prefixHash := some nextPrefixHash
     identity := fileStat })

@[simp] theorem asNonNegativeInteger_natCast (n : Nat) :
    asNonNegativeInteger (some (n : ℚ)) = some n := by
  have hnonneg : ¬((n : ℚ) < 0) := not_lt.2 (Nat.cast_nonneg n)
  simp [asNonNegativeInteger, hnonneg, Rat.isInt]

/-! ## What is remembered of a growing log -/

/-- The state was remembered by a read of some earlier content of the file. -/
structure Remembers (identity : Nat × Nat) (state : LogCursorState) (file : Text) : Prop where
  seen : ∃ seen : Text, seen <+: file ∧ state.cursor ≤ seen.length ∧
    state.hash = some (hashText seen) ∧ state.prefixHash = some (hashText (seen.take state.cursor))
  identity : state.identity = none ∨ state.identity = some identity

/-- The state a read starts from: nothing was remembered, or an earlier read. -/
def StartsFrom (identity : Nat × Nat) (cursor : Nat) (state : LogCursorState) (file : Text) :
    Prop :=
  state = ⟨cursor, none, none, none⟩ ∨ Remembers hashText identity state file

/-- The cursor of an incremental read fits what is remembered: it is zero or the remembered
one, and the file has changed since unless nothing is left to read. -/
def Fits (cursor : Nat) (state : LogCursorState) (file : Text) : Prop :=
  (cursor = 0 ∨ cursor = state.cursor) ∧
    (state.hash ≠ some (hashText file) ∨ cursor = file.length)

instance (cursor : Nat) (state : LogCursorState) (file : Text) :
    Decidable (Fits hashText cursor state file) :=
  inferInstanceAs (Decidable (_ ∧ _))

/-- The result is exactly the text between the cursor and the end of the file. -/
structure ExactRead (cursor : Nat) (file : Text) (result : ReadResult) : Prop where
  content : result.content = file.drop cursor
  cursor : result.cursor = file.length
  rotated : result.rotated = false
  truncated : result.truncated = false

/-- No two different prefixes of the text have the same hash. -/
def NoCollision (text : Text) : Prop :=
  ∀ i j, i ≤ text.length → j ≤ text.length → hashText (text.take i) = hashText (text.take j) →
    i = j

variable {hashText} {identity : Nat × Nat} {state : LogCursorState} {file more : Text}
  {cursor : Nat} {stat : Option (Nat × Nat)}

/-- What was remembered stays true while the file grows. -/
theorem Remembers.mono (h : Remembers hashText identity state file) (hmore : file <+: more) :
    Remembers hashText identity state more := by
  obtain ⟨⟨seen, hseen, hrest⟩, hidentity⟩ := h
  exact ⟨⟨seen, hseen.trans hmore, hrest⟩, hidentity⟩

theorem StartsFrom.mono (h : StartsFrom hashText identity cursor state file)
    (hmore : file <+: more) : StartsFrom hashText identity cursor state more :=
  h.imp_right fun hstate => hstate.mono hmore

theorem NoCollision.mono (h : NoCollision hashText more) (hmore : file <+: more) :
    NoCollision hashText file := by
  obtain ⟨rest, rfl⟩ := hmore
  intro i j hi hj hsame
  refine h i j ?_ ?_ ?_
  · rw [length_append]; omega
  · rw [length_append]; omega
  · rwa [take_append_of_le_length hi, take_append_of_le_length hj]

/-- The hash before the remembered cursor is that of the file itself. -/
theorem Remembers.prefixHash_eq (h : Remembers hashText identity state file) :
    state.cursor ≤ file.length ∧ state.prefixHash = some (hashText (file.take state.cursor)) := by
  obtain ⟨⟨seen, ⟨added, rfl⟩, hle, -, hinitial⟩, -⟩ := h
  refine ⟨?_, ?_⟩
  · rw [length_append]
    omega
  · rw [take_append_of_le_length hle]
    exact hinitial

/-! ## Exact reads -/

/-- The options of an incremental read with a cursor. -/
def incremental (cursor : Nat) (hash ph : Option String) : ReadOptions :=
  ⟨some (cursor : ℚ), hash, ph, .incremental⟩

/-- Nobody replaced the file. -/
theorem identity_unchanged (hstart : StartsFrom hashText identity cursor state file)
    (hstat : stat = none ∨ stat = some identity) :
    ¬(stat ≠ none ∧ state.identity ≠ none ∧ stat ≠ state.identity) := by
  rintro ⟨hsome, hprevious, hne⟩
  have hstat' := hstat.resolve_left hsome
  rcases hstart with rfl | hremembers
  · exact hprevious rfl
  · rcases hremembers.identity with hnone | hsame
    · exact hprevious hnone
    · exact hne (hstat'.trans hsame.symm)

/-- The text before the cursor is not the text the reader remembers. -/
def PrefixChanged (hashText : Text → String) (cursor : Nat) (state : LogCursorState)
    (file : Text) : Prop :=
  cursor > 0 ∧ state.prefixHash ≠ none ∧ some (hashText (file.take cursor)) ≠ state.prefixHash

/-- **What an incremental read of a growing log does**: it starts over if the text before
the cursor seems changed, goes on if the file has changed, and else returns nothing. -/
theorem readFile_incremental (hash ph : Option String)
    (hstart : StartsFrom hashText identity cursor state file) (hle : cursor ≤ file.length)
    (hstat : stat = none ∨ stat = some identity) :
    let result := (readFile hashText (incremental cursor hash ph) state file stat).1
    (result.rotated = true ↔ PrefixChanged hashText cursor state file) ∧
      result.truncated = false ∧
      (¬PrefixChanged hashText cursor state file → state.hash ≠ some (hashText file) →
        result.content = file.drop cursor ∧ result.cursor = file.length) ∧
      (¬PrefixChanged hashText cursor state file → state.hash = some (hashText file) →
        result.content = [] ∧ result.cursor = cursor) := by
  have hidentity := identity_unchanged hstart hstat
  have htruncated : ¬cursor > file.length := by omega
  have hmin : min cursor file.length = cursor := min_eq_left hle
  simp only [readFile, incremental, asNonNegativeInteger_natCast, Option.getD_some, hmin,
    hidentity, htruncated, false_or, or_false, and_self_left, reduceCtorEq, if_false]
  refine ⟨by simp [PrefixChanged], by simp, ?_, ?_⟩
  · intro hinitial hchanged
    have hkept : ¬(cursor > 0 ∧ state.prefixHash ≠ none ∧
        some (hashText (file.take cursor)) ≠ state.prefixHash) := hinitial
    simp [hkept, Ne.symm hchanged]
  · intro hinitial hsame
    have hkept : ¬(cursor > 0 ∧ state.prefixHash ≠ none ∧
        some (hashText (file.take cursor)) ≠ state.prefixHash) := hinitial
    simp [hkept, hsame]

/-- The text before the remembered cursor never seems changed. -/
theorem not_prefixChanged (hstart : StartsFrom hashText identity cursor state file)
    (hcursor : cursor = 0 ∨ cursor = state.cursor) : ¬PrefixChanged hashText cursor state file := by
  rintro ⟨hpos, hsome, hne⟩
  have hsame : cursor = state.cursor := hcursor.resolve_left (by omega)
  rcases hstart with rfl | hremembers
  · exact hsome rfl
  · rw [hremembers.prefixHash_eq.2, ← hsame] at hne
    exact hne rfl

/-- The text before any other cursor does, as long as no hashes collide. -/
theorem prefixChanged_of_other (hcollision : NoCollision hashText file)
    (hstart : StartsFrom hashText identity cursor state file) (hle : cursor ≤ file.length)
    (hpos : cursor ≠ 0) (hother : cursor ≠ state.cursor) :
    PrefixChanged hashText cursor state file := by
  rcases hstart with rfl | hremembers
  · exact absurd rfl hother
  · obtain ⟨hcursor, hinitial⟩ := hremembers.prefixHash_eq
    refine ⟨by omega, by simp [hinitial], ?_⟩
    rw [hinitial]
    intro hsame
    exact hother (hcollision cursor state.cursor hle hcursor (Option.some.inj hsame))

/-- **A cursor that fits gives an exact read.** -/
theorem readFile_exact (hash ph : Option String)
    (hstart : StartsFrom hashText identity cursor state file) (hle : cursor ≤ file.length)
    (hstat : stat = none ∨ stat = some identity) (hfits : Fits hashText cursor state file) :
    ExactRead cursor file (readFile hashText (incremental cursor hash ph) state file stat).1 := by
  obtain ⟨hrotated, htruncated, hgrown, hsame⟩ := readFile_incremental hash ph hstart hle hstat
  have hinitial := not_prefixChanged hstart hfits.1
  have hnot := Bool.eq_false_iff.2 (mt hrotated.1 hinitial)
  by_cases hhash : state.hash = some (hashText file)
  · -- nothing is new, and nothing is left to read
    obtain ⟨hcontent, hcursor⟩ := hsame hinitial hhash
    have hend : cursor = file.length := hfits.2.resolve_left fun hne => hne hhash
    refine ⟨?_, hcursor.trans hend, hnot, htruncated⟩
    rw [hcontent, hend, drop_length]
  · obtain ⟨hcontent, hcursor⟩ := hgrown hinitial hhash
    exact ⟨hcontent, hcursor, hnot, htruncated⟩

/-- **An exact read has a cursor that fits.** -/
theorem fits_of_exact (hash ph : Option String) (hcollision : NoCollision hashText file)
    (hstart : StartsFrom hashText identity cursor state file) (hle : cursor ≤ file.length)
    (hstat : stat = none ∨ stat = some identity)
    (hexact : ExactRead cursor file
      (readFile hashText (incremental cursor hash ph) state file stat).1) :
    Fits hashText cursor state file := by
  obtain ⟨hrotated, -, -, hsame⟩ := readFile_incremental hash ph hstart hle hstat
  have hinitial : ¬PrefixChanged hashText cursor state file := by
    intro hchanged
    exact absurd ((hrotated.2 hchanged).symm.trans hexact.rotated) (by simp)
  refine ⟨?_, ?_⟩
  · by_contra hother
    rw [not_or] at hother
    exact hinitial (prefixChanged_of_other hcollision hstart hle hother.1 hother.2)
  · by_contra hnot
    rw [not_or, not_not] at hnot
    exact hnot.2 ((hsame hinitial hnot.1).2.symm.trans hexact.cursor)

/-- The cursor a read returns is never past the end of the file. -/
theorem readFile_cursor_le (options : ReadOptions) (state : LogCursorState) (file : Text)
    (stat : Option (Nat × Nat)) :
    (readFile hashText options state file stat).1.cursor ≤ file.length := by
  simp only [readFile]
  split
  · exact le_refl _
  · split
    · exact le_refl _
    · rename_i hsame
      rw [not_or, not_or] at hsame
      exact not_lt.1 hsame.2.1

/-- What a read remembers, whatever its mode and its cursor. -/
theorem readFile_remembers (options : ReadOptions) (state : LogCursorState) (file : Text)
    (hstat : stat = none ∨ stat = some identity) :
    Remembers hashText identity (readFile hashText options state file stat).2 file := by
  refine ⟨⟨file, prefix_refl file, ?_, rfl, rfl⟩, hstat⟩
  exact readFile_cursor_le options state file stat

end BeauPi.Monitor
