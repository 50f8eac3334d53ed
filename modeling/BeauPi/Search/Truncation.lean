import BeauPi.Tools.Truncate

/-!
# Truncating web content

Texts of the web are sequences of UTF-16 code units, which a character limit may cut anywhere.

* `byteLength` — `Buffer.byteLength`, the number of bytes in UTF-8.
* `truncateHead` — the first lines of a text within a number of lines and a number of bytes.
* `truncateByCharacters` — the same within a number of code units.
* `truncateByCharacters_length` — **the limit is kept**.
-/

namespace BeauPi.Search

open Tools

/-! ## Code units -/

/-- A JavaScript string. -/
abbrev Text := List UInt16

/-- `0xd800`–`0xdbff` -/
def isHighSurrogate (unit : UInt16) : Bool := 0xd800 ≤ unit && unit ≤ 0xdbff

/-- `0xdc00`–`0xdfff` -/
def isLowSurrogate (unit : UInt16) : Bool := 0xdc00 ≤ unit && unit ≤ 0xdfff

/-- The bytes of a code unit that is not half of a pair; a lone surrogate becomes U+FFFD. -/
def unitBytes (unit : UInt16) : Nat := if unit < 0x80 then 1 else if unit < 0x800 then 2 else 3

/-- `Buffer.byteLength(text, "utf-8")` -/
def byteLength : Text → Nat
  | [] => 0
  | [unit] => unitBytes unit
  | first :: second :: rest =>
    if isHighSurrogate first && isLowSurrogate second then 4 + byteLength rest
    else unitBytes first + byteLength (second :: rest)

/-- The code unit of a line feed. -/
def newline : UInt16 := 10

/-! ## Truncation -/

/-- `truncateHead` -/
def truncateHead (content : Text) (maxLines maxBytes : Nat) : TruncationResult UInt16 :=
  truncateHeadOf byteLength [newline].intercalate (splitLinesAt newline content) content
    maxLines maxBytes

/-- `DEFAULT_MAX_LINES` -/
def defaultMaxLines : Nat := 2000

/-- `DEFAULT_MAX_BYTES` -/
def defaultMaxBytes : Nat := 50 * 1024

/-- `text.split("\n").length`, and nothing for no text. -/
def countLines (text : Text) : Nat := if text = [] then 0 else (text.splitOn newline).length

/-- `truncateByCharacters` -/
def truncateByCharacters (content : Text) (maxCharacters : Nat) : TruncationResult UInt16 :=
  let standard := truncateHead content defaultMaxLines defaultMaxBytes
  if standard.content.length ≤ maxCharacters then standard
  else
    let truncatedContent := standard.content.take maxCharacters
    { content := truncatedContent
      truncated := true
      truncatedBy := some .bytes
      totalLines := countLines content
      totalBytes := byteLength content
      outputLines := countLines truncatedContent
      outputBytes := byteLength truncatedContent
      lastLinePartial := truncatedContent.length > 0 && truncatedContent.getLast? ≠ some newline
      firstLineExceedsLimit := false
      maxLines := defaultMaxLines
      maxBytes := min defaultMaxBytes (byteLength truncatedContent) }

/-- **The limit is kept.** -/
theorem truncateByCharacters_length (content : Text) (maxCharacters : Nat) :
    (truncateByCharacters content maxCharacters).content.length ≤ maxCharacters := by
  unfold truncateByCharacters
  dsimp only
  split
  · next h => exact h
  · exact List.length_take_le _ _

end BeauPi.Search
