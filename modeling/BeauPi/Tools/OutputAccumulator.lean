import BeauPi.Tools.Truncate

/-!
# The output accumulator

`OutputAccumulator` follows an output that comes in chunks.  It decodes the chunks as they come,
keeps only the end of the text, counts lines and bytes, and writes the chunks to a temporary file
once the output is too long to be shown.

* `OutputAccumulator` — the fields of the class.
* `append`, `finish`, `snapshot` — its methods.
* `accumulate` — the chunks of an output, one after the other, and its end.
-/

namespace BeauPi.Tools

open Utf8

/-- The fields of `OutputAccumulator`.  `tempFile` is what was written to the temporary file, once
there is one, and `tempFileOpen` tells that its stream is open. -/
structure OutputAccumulator where
  maxLines : Nat
  maxBytes : Nat
  maxRollingBytes : Nat
  decoder : TextDecoder
  rawChunks : List (List UInt8)
  tailText : List Char
  tailBytes : Nat
  tailStartsAtLineBoundary : Bool
  totalRawBytes : Nat
  totalDecodedBytes : Nat
  completedLines : Nat
  totalLines : Nat
  currentLineBytes : Nat
  hasOpenLine : Bool
  finished : Bool
  tempFile : Option (List UInt8)
  tempFileOpen : Bool
  deriving DecidableEq, Repr

namespace OutputAccumulator

/-- The constructor. -/
def new (maxLines maxBytes : Nat) : OutputAccumulator where
  maxLines := maxLines
  maxBytes := maxBytes
  maxRollingBytes := max (maxBytes * 2) 1
  decoder := .new
  rawChunks := []
  tailText := []
  tailBytes := 0
  tailStartsAtLineBoundary := true
  totalRawBytes := 0
  totalDecodedBytes := 0
  completedLines := 0
  totalLines := 0
  currentLineBytes := 0
  hasOpenLine := false
  finished := false
  tempFile := none
  tempFileOpen := false

/-- `trimTail` -/
def trimTail (o : OutputAccumulator) : OutputAccumulator :=
  let buffer := encode o.tailText
  if buffer.length ≤ o.maxRollingBytes then { o with tailBytes := buffer.length }
  else
    let start := skipContinuation buffer (buffer.length - o.maxRollingBytes)
    let tailText := decode (buffer.drop start)
    { o with
      tailStartsAtLineBoundary :=
        if start = 0 then o.tailStartsAtLineBoundary
        else decide (buffer[start - 1]? = some 0x0A)
      tailText := tailText
      tailBytes := byteLength tailText }

/-- The text behind the last newline. -/
def afterLastNewline (text : List Char) : List Char :=
  (text.reverse.takeWhile (· != '\n')).reverse

/-- The counts of `appendDecodedText`. -/
def countLines (o : OutputAccumulator) (text : List Char) : OutputAccumulator :=
  let newlines := text.count '\n'
  let o :=
    if newlines = 0 then
      { o with
        currentLineBytes := o.currentLineBytes + byteLength text
        hasOpenLine := true }
    else
      let tail := afterLastNewline text
      { o with
        completedLines := o.completedLines + newlines
        currentLineBytes := byteLength tail
        hasOpenLine := !tail.isEmpty }
  { o with totalLines := o.completedLines + if o.hasOpenLine then 1 else 0 }

/-- The tail of `appendDecodedText`. -/
def extendTail (o : OutputAccumulator) (text : List Char) : OutputAccumulator :=
  let bytes := byteLength text
  let o :=
    { o with
      totalDecodedBytes := o.totalDecodedBytes + bytes
      tailText := o.tailText ++ text
      tailBytes := o.tailBytes + bytes }
  if o.tailBytes > o.maxRollingBytes * 2 then o.trimTail else o

/-- `appendDecodedText` -/
def appendDecodedText (o : OutputAccumulator) (text : List Char) : OutputAccumulator :=
  if text = [] then o else (o.extendTail text).countLines text

/-- `shouldUseTempFile` -/
def shouldUseTempFile (o : OutputAccumulator) : Bool :=
  decide (o.totalRawBytes > o.maxBytes) || decide (o.totalDecodedBytes > o.maxBytes) ||
    decide (o.totalLines > o.maxLines)

/-- `ensureTempFile` -/
def ensureTempFile (o : OutputAccumulator) : OutputAccumulator :=
  if o.tempFile.isSome then o
  else
    { o with
      tempFile := some o.rawChunks.flatten
      tempFileOpen := true
      rawChunks := [] }

/-- The stream, when it is open, takes the data. -/
def writeTempFile (o : OutputAccumulator) (data : List UInt8) : OutputAccumulator :=
  if o.tempFileOpen then { o with tempFile := o.tempFile.map (· ++ data) } else o

/-- `append` -/
def append (o : OutputAccumulator) (data : List UInt8) : Except String OutputAccumulator :=
  if o.finished then .error "Cannot append to a finished output accumulator"
  else
    let (decoder, text) := o.decoder.decodeStream data
    let o := { o with totalRawBytes := o.totalRawBytes + data.length, decoder := decoder }
    let o := o.appendDecodedText text
    .ok
      (if o.tempFileOpen || o.shouldUseTempFile then o.ensureTempFile.writeTempFile data
      else if data.length > 0 then { o with rawChunks := o.rawChunks ++ [data] }
      else o)

/-- `finish` -/
def finish (o : OutputAccumulator) : OutputAccumulator :=
  if o.finished then o
  else
    let text := o.decoder.flush
    let o := { o with finished := true, decoder := .new }
    let o := o.appendDecodedText text
    if o.shouldUseTempFile then o.ensureTempFile else o

/-- The text behind the first newline. -/
def afterFirstNewline (text : List Char) : List Char := (text.dropWhile (· != '\n')).tail

/-- `getSnapshotText` -/
def getSnapshotText (o : OutputAccumulator) : List Char :=
  if o.tailStartsAtLineBoundary then o.tailText
  else if '\n' ∈ o.tailText then afterFirstNewline o.tailText
  else o.tailText

/-- `snapshot`: the truncation, whose content is that of the snapshot, and the accumulator, which
may have opened its temporary file. -/
def snapshot (o : OutputAccumulator) (persistIfTruncated : Bool) :
    OutputAccumulator × TruncationResult Char :=
  let tailTruncation := truncateTail o.getSnapshotText o.maxLines o.maxBytes
  let truncated := decide (o.totalLines > o.maxLines) || decide (o.totalDecodedBytes > o.maxBytes)
  let truncation : TruncationResult Char :=
    { tailTruncation with
      truncated := truncated
      truncatedBy :=
        if truncated then
          tailTruncation.truncatedBy <|>
            some (if o.totalDecodedBytes > o.maxBytes then .bytes else .lines)
        else none
      totalLines := o.totalLines
      totalBytes := o.totalDecodedBytes
      maxLines := o.maxLines
      maxBytes := o.maxBytes }
  (if persistIfTruncated && truncation.truncated then o.ensureTempFile else o, truncation)

/-- The chunks of an output are appended, and the output ends. -/
def accumulate (maxLines maxBytes : Nat) (chunks : List (List UInt8)) :
    Except String OutputAccumulator :=
  (chunks.foldlM append (new maxLines maxBytes)).map finish

end OutputAccumulator

end BeauPi.Tools
