import BeauPi.Tui.Ansi

/-!
# Truncating a text to a width

A text that is too wide is cut before the first character that does not fit in front of the
ellipsis.

* `truncateToWidth` — the truncation, with its fast path for ASCII and its general path.
* `LongestPrefix` — the most characters that a width leaves.
* `keep_spec`, `fragment_spec` — what the loops find.
* `truncateToWidth_spec` — what is returned for every text, width and ellipsis.
-/

namespace BeauPi.Tui.Ansi

open List Widths
open Nat (not_le_of_lt sub_le zero_le)

/-! ## The truncation -/

/-- The loop of `truncateFragmentToWidth`. -/
def Widths.fragment (W : Widths) (maxWidth : Nat) :
    List Token → List Char → List Char → Nat → List Char × Nat
  | [], result, _, width => (result, width)
  | .code code :: ts, result, pendingAnsi, width =>
    W.fragment maxWidth ts result (pendingAnsi ++ code) width
  | .char c :: ts, result, pendingAnsi, width =>
    if width + W.graphemeWidth c > maxWidth then (result, width)
    else W.fragment maxWidth ts (result ++ pendingAnsi ++ [c]) [] (width + W.graphemeWidth c)

/-- The tokens that the loops run over: characters, where nothing calls for more. -/
def loopTokens (text : List Char) : List Token :=
  if escape ∉ text ∧ '\t' ∉ text then text.map .char else tokens text

/-- `truncateFragmentToWidth` -/
def Widths.truncateFragmentToWidth (W : Widths) (text : List Char) (maxWidth : Nat) :
    List Char × Nat :=
  if maxWidth = 0 ∨ text = [] then ([], 0)
  else if isPrintableAscii text then (text.take maxWidth, (text.take maxWidth).length)
  else W.fragment maxWidth (loopTokens text) [] [] 0

/-- Blanks. -/
def spaces (n : Nat) : List Char := List.replicate n ' '

/-- `"\x1b[0m"` -/
def resetCode : List Char := [escape, '[', '0', 'm']

/-- `finalizeTruncatedResult` -/
def finalizeTruncatedResult (front : List Char) (frontWidth : Nat) (ellipsis : List Char)
    (ellipsisWidth maxWidth : Nat) (pad : Bool) : List Char :=
  let result :=
    if ellipsis.length > 0 then front ++ resetCode ++ ellipsis ++ resetCode
    else front ++ resetCode
  if pad then result ++ spaces (maxWidth - (frontWidth + ellipsisWidth)) else result

/-- The variables of the loop of `truncateToWidth`. -/
structure Keep where
  result : List Char
  pendingAnsi : List Char
  visibleSoFar : Nat
  keptWidth : Nat
  keepContiguousPrefix : Bool
  overflowed : Bool
  deriving DecidableEq, Repr

/-- A character comes in; `width` is its width. -/
def Keep.take (targetWidth : Nat) (c : Char) (width : Nat) (s : Keep) : Keep :=
  if s.keepContiguousPrefix ∧ s.keptWidth + width ≤ targetWidth then
    { s with
      result := s.result ++ s.pendingAnsi ++ [c]
      pendingAnsi := []
      keptWidth := s.keptWidth + width
      visibleSoFar := s.visibleSoFar + width }
  else
    { s with
      keepContiguousPrefix := false
      pendingAnsi := []
      visibleSoFar := s.visibleSoFar + width }

/-- The loop of `truncateToWidth`. -/
def Widths.keep (W : Widths) (targetWidth maxWidth : Nat) : List Token → Keep → Keep
  | [], s => s
  | .code code :: ts, s =>
    W.keep targetWidth maxWidth ts { s with pendingAnsi := s.pendingAnsi ++ code }
  | .char c :: ts, s =>
    let s := s.take targetWidth c (W.graphemeWidth c)
    if s.visibleSoFar > maxWidth then { s with overflowed := true }
    else W.keep targetWidth maxWidth ts s

/-- The general path of `truncateToWidth`; the input is exhausted unless it overflows. -/
def Widths.truncateGeneral (W : Widths) (text : List Char) (maxWidth : Nat) (ellipsis : List Char)
    (pad : Bool) : List Char :=
  let ellipsisWidth := W.visibleWidth ellipsis
  let s := W.keep (maxWidth - ellipsisWidth) maxWidth (loopTokens text) ⟨[], [], 0, 0, true, false⟩
  if !s.overflowed then if pad then text ++ spaces (maxWidth - s.visibleSoFar) else text
  else finalizeTruncatedResult s.result s.keptWidth ellipsis ellipsisWidth maxWidth pad

/-- `truncateToWidth` -/
def Widths.truncateToWidth (W : Widths) (text : List Char) (maxWidth : Nat) (ellipsis : List Char)
    (pad : Bool) : List Char :=
  if maxWidth = 0 then []
  else if text = [] then if pad then spaces maxWidth else []
  else
    let ellipsisWidth := W.visibleWidth ellipsis
    if ellipsisWidth ≥ maxWidth then
      let textWidth := W.visibleWidth text
      if textWidth ≤ maxWidth then if pad then text ++ spaces (maxWidth - textWidth) else text
      else
        let clippedEllipsis := W.truncateFragmentToWidth ellipsis maxWidth
        if clippedEllipsis.2 = 0 then if pad then spaces maxWidth else []
        else finalizeTruncatedResult [] 0 clippedEllipsis.1 clippedEllipsis.2 maxWidth pad
    else if isPrintableAscii text then
      if text.length ≤ maxWidth then
        if pad then text ++ spaces (maxWidth - text.length) else text
      else
        let targetWidth := maxWidth - ellipsisWidth
        finalizeTruncatedResult (text.take targetWidth) targetWidth ellipsis ellipsisWidth maxWidth
          pad
    else W.truncateGeneral text maxWidth ellipsis pad

/-! ## What is kept -/

/-- Of `all` the characters `kept` are the most from the front that fit in a width. -/
structure LongestPrefix (W : Widths) (limit : Nat) (all kept : List Char) : Prop where
  front : kept <+: all
  fits : W.textWidth kept ≤ limit
  longest : ∀ p, p <+: all → W.textWidth p ≤ limit → p <+: kept

/-- A text that is cut consists of the most characters that fit in front of the ellipsis, and of
that; where the ellipsis leaves no room, of the most characters of the ellipsis that fit, if they
take any column.  With `pad` blanks take the other columns. -/
def CutTo (W : Widths) (text : List Char) (maxWidth : Nat) (ellipsis : List Char) (pad : Bool)
    (result : List Char) : Prop :=
  ∃ kept shown, visibleChars result =
      kept ++ shown ++ spaces (if pad then maxWidth - W.textWidth (kept ++ shown) else 0) ∧
    if W.visibleWidth ellipsis < maxWidth then
      shown = visibleChars ellipsis ∧
        LongestPrefix W (maxWidth - W.visibleWidth ellipsis) (visibleChars text) kept
    else
      kept = [] ∧ ∃ clipped, LongestPrefix W maxWidth (visibleChars ellipsis) clipped ∧
        shown = if W.textWidth clipped = 0 then [] else clipped

/-- What the truncation should return: the text, if it is not too wide, and otherwise one that is
cut; with `pad` it takes all columns. -/
structure Truncates (W : Widths) (text : List Char) (maxWidth : Nat) (ellipsis : List Char)
    (pad : Bool) (result : List Char) : Prop where
  whole : result = text ++ spaces (if pad then maxWidth - W.visibleWidth text else 0) ↔
    W.visibleWidth text ≤ maxWidth
  cut : maxWidth < W.visibleWidth text → CutTo W text maxWidth ellipsis pad result
  fits : W.visibleWidth result ≤ maxWidth
  padded : pad = true → W.visibleWidth result = maxWidth

variable {W : Widths} {text ellipsis result all kept rest : List Char} {ts : List Token}
  {limit maxWidth targetWidth n : Nat} {pad : Bool}

theorem textWidth_le_of_front {p q : List Char} (h : p <+: q) : W.textWidth p ≤ W.textWidth q := by
  obtain ⟨rest, rfl⟩ := h
  rw [textWidth_append]
  exact Nat.le_add_right _ _

theorem LongestPrefix.of_fits (h : W.textWidth all ≤ limit) : LongestPrefix W limit all all :=
  ⟨prefix_refl all, h, fun _ hp _ => hp⟩

variable {c : Char}

/-- What does not fit any more ends the longest part. -/
theorem LongestPrefix.of_next (hfits : W.textWidth kept ≤ limit)
    (hnext : limit < W.textWidth kept + W.graphemeWidth c) :
    LongestPrefix W limit (kept ++ c :: rest) kept where
  front := prefix_append _ _
  fits := hfits
  longest p hp hwidth := by
    rcases prefix_or_prefix_of_prefix hp (prefix_append kept (c :: rest)) with h | h
    · exact h
    · obtain ⟨more, rfl⟩ := h
      cases more with
      | nil => simp
      | cons d more =>
        obtain ⟨rfl, -⟩ := cons_prefix_cons.1 ((prefix_append_right_inj kept).1 hp)
        rw [textWidth_append, textWidth_cons] at hwidth
        omega

theorem LongestPrefix.unique {kept' : List Char} (h : LongestPrefix W limit all kept)
    (h' : LongestPrefix W limit all kept') : kept = kept' :=
  List.IsPrefix.eq_of_length (h'.longest kept h.front h.fits)
    (Nat.le_antisymm (h'.longest kept h.front h.fits).length_le
      (h.longest kept' h'.front h'.fits).length_le)

/-! ## Blanks and codes -/

theorem escape_not_mem_spaces (n : Nat) : escape ∉ spaces n := fun h =>
  absurd (eq_of_mem_replicate h) (by decide)

@[simp] theorem visibleChars_spaces (n : Nat) : visibleChars (spaces n) = spaces n :=
  visibleChars_plain (escape_not_mem_spaces n)

@[simp] theorem textWidth_spaces (n : Nat) : W.textWidth (spaces n) = n := by
  have hblank : W.graphemeWidth ' ' = 1 := W.ascii ' ' (by decide)
  rw [textWidth, spaces, map_replicate, hblank, sum_replicate]
  simp

theorem complete_resetCode : Complete resetCode := by decide

theorem visibleChars_resetCode : visibleChars resetCode = [] := by decide

theorem loopTokens_eq (text : List Char) : loopTokens text = tokens text := by
  unfold loopTokens
  split_ifs with h
  · exact (tokens_plain h.1).symm
  · rfl

/-- What the result of a cut shows. -/
theorem visibleChars_finalize (hfront : Complete kept) (hellipsis : Complete ellipsis)
    (frontWidth ellipsisWidth maxWidth : Nat) (pad : Bool) :
    Complete (finalizeTruncatedResult kept frontWidth ellipsis ellipsisWidth maxWidth pad) ∧
    visibleChars (finalizeTruncatedResult kept frontWidth ellipsis ellipsisWidth maxWidth pad) =
      visibleChars kept ++ visibleChars ellipsis ++
        spaces (if pad then maxWidth - (frontWidth + ellipsisWidth) else 0) := by
  have hreset := complete_append hfront complete_resetCode
  have hresult : ∀ front, front = (if ellipsis.length > 0 then
      kept ++ resetCode ++ ellipsis ++ resetCode else kept ++ resetCode) →
      Complete front ∧ visibleChars front = visibleChars kept ++ visibleChars ellipsis := by
    rintro front rfl
    split_ifs with hlength
    · have hboth := complete_append hreset hellipsis
      refine ⟨complete_append hboth complete_resetCode, ?_⟩
      rw [visibleChars_append hboth, visibleChars_append hreset, visibleChars_append hfront,
        visibleChars_resetCode, append_nil, append_nil]
    · have hnil : ellipsis = [] := length_eq_zero_iff.1 (by omega)
      refine ⟨hreset, ?_⟩
      rw [visibleChars_append hfront, visibleChars_resetCode, hnil]
      rfl
  obtain ⟨hcomplete, hvisible⟩ := hresult _ rfl
  unfold finalizeTruncatedResult
  dsimp only
  generalize (if ellipsis.length > 0 then
    kept ++ resetCode ++ ellipsis ++ resetCode else kept ++ resetCode) = front
    at hcomplete hvisible ⊢
  rw [← hvisible]
  cases pad with
  | true =>
    rw [if_pos rfl, if_pos rfl, visibleChars_append hcomplete, visibleChars_spaces]
    exact ⟨complete_append hcomplete (complete_plain (escape_not_mem_spaces _)), rfl⟩
  | false => exact ⟨hcomplete, (append_nil _).symm⟩

/-! ## The loops -/

/-- Codes that wait to be put before a character. -/
def Codes (pendingAnsi : List Char) : Prop := Complete pendingAnsi ∧ visibleChars pendingAnsi = []

theorem codes_nil : Codes [] := ⟨by decide, rfl⟩

variable {code : List Char}

theorem complete_code (h : (Token.code code).Complete) : Codes code := by
  have htokens := tokens_append h []
  rw [Token.text, append_nil] at htokens
  have hone : tokens code = [.code code] := htokens
  refine ⟨fun t ht => ?_, by rw [visibleChars, hone]; rfl⟩
  rw [hone, mem_singleton] at ht
  rw [ht]
  exact h

variable {pendingAnsi : List Char}

theorem Codes.append (h : Codes pendingAnsi) (hcode : (Token.code code).Complete) :
    Codes (pendingAnsi ++ code) := by
  obtain ⟨hcomplete, hvisible⟩ := complete_code hcode
  exact ⟨complete_append h.1 hcomplete, by rw [visibleChars_append h.1, h.2, hvisible]; rfl⟩

/-- A character is put behind the result, with the codes that wait for it. -/
theorem Codes.put (h : Codes pendingAnsi) (hresult : Complete result)
    (hc : (Token.char c).Complete) :
    Complete (result ++ pendingAnsi ++ [c]) ∧
    visibleChars (result ++ pendingAnsi ++ [c]) = visibleChars result ++ [c] := by
  have hplain : escape ∉ [c] := fun hmem => hc (mem_singleton.1 hmem).symm
  have hboth := complete_append hresult h.1
  refine ⟨complete_append hboth (complete_plain hplain), ?_⟩
  rw [visibleChars_append hboth, visibleChars_append hresult, h.2, visibleChars_plain hplain,
    append_nil]

/-- **A fragment is the longest part that fits.** -/
theorem fragment_spec (hts : ∀ t ∈ ts, t.Complete) {width : Nat} (hresult : Complete result)
    (hpending : Codes pendingAnsi) (hwidth : width = W.textWidth (visibleChars result))
    (hle : width ≤ maxWidth) :
    Complete (W.fragment maxWidth ts result pendingAnsi width).1 ∧
    (W.fragment maxWidth ts result pendingAnsi width).2 =
      W.textWidth (visibleChars (W.fragment maxWidth ts result pendingAnsi width).1) ∧
    LongestPrefix W maxWidth (visibleChars result ++ ts.filterMap Token.char?)
      (visibleChars (W.fragment maxWidth ts result pendingAnsi width).1) := by
  induction ts generalizing result pendingAnsi width with
  | nil =>
    rw [filterMap_nil, append_nil]
    exact ⟨hresult, hwidth, .of_fits (hwidth ▸ hle)⟩
  | cons t ts ih =>
    have hlater := fun u hu => hts u (mem_cons_of_mem t hu)
    have ht := hts t mem_cons_self
    cases t with
    | code code => exact ih hlater hresult (hpending.append ht) hwidth hle
    | char c =>
      rw [fragment]
      split_ifs with hlong
      · exact ⟨hresult, hwidth, .of_next (hwidth ▸ hle) (hwidth ▸ hlong)⟩
      · obtain ⟨hput, hvisible⟩ := hpending.put hresult ht
        have hnext := ih hlater hput codes_nil
          (by rw [hvisible, textWidth_append, hwidth]; rfl) (Nat.le_of_not_lt hlong)
        rw [hvisible, append_assoc (visibleChars result)] at hnext
        exact hnext

/-- What the loop has seen are the characters `seen`. -/
structure Keep.Seen (W : Widths) (targetWidth maxWidth : Nat) (seen : List Char) (s : Keep) :
    Prop where
  complete : Complete s.result
  pending : Codes s.pendingAnsi
  visibleSoFar : s.visibleSoFar = W.textWidth seen
  keptWidth : s.keptWidth = W.textWidth (visibleChars s.result)
  fits : s.keptWidth ≤ targetWidth
  all : s.keepContiguousPrefix = true → visibleChars s.result = seen
  part : s.keepContiguousPrefix = false → ∃ c rest, seen = visibleChars s.result ++ c :: rest ∧
    targetWidth < s.keptWidth + W.graphemeWidth c

variable {s : Keep} {seen : List Char}

theorem Keep.Seen.take (h : s.Seen W targetWidth maxWidth seen) (hc : (Token.char c).Complete) :
    (s.take targetWidth c (W.graphemeWidth c)).Seen W targetWidth maxWidth (seen ++ [c]) := by
  have hseen : s.visibleSoFar + W.graphemeWidth c = W.textWidth (seen ++ [c]) := by
    rw [h.visibleSoFar, textWidth_append]
    rfl
  obtain ⟨hput, hvisible⟩ := h.pending.put h.complete hc
  unfold Keep.take
  split_ifs with htake
  · obtain ⟨hall, hfits⟩ := htake
    refine ⟨hput, codes_nil, hseen, ?_, hfits, fun _ => ?_, fun hpart => ?_⟩
    · show s.keptWidth + W.graphemeWidth c = _
      rw [hvisible, h.keptWidth, textWidth_append]
      rfl
    · rw [hvisible, h.all hall]
    · rw [hall] at hpart
      cases hpart
  · refine ⟨h.complete, codes_nil, hseen, h.keptWidth, h.fits, fun hall => (by cases hall),
      fun _ => ?_⟩
    cases hcontiguous : s.keepContiguousPrefix with
    | true =>
      rw [not_and, hcontiguous] at htake
      exact ⟨c, [], by rw [h.all hcontiguous], Nat.lt_of_not_le (htake rfl)⟩
    | false =>
      obtain ⟨d, rest, rfl, hnext⟩ := h.part hcontiguous
      exact ⟨d, rest ++ [c], by simp, hnext⟩

/-- **The loop keeps the longest part that fits, and overflows exactly if the text is too wide.** -/
theorem keep_spec (hts : ∀ t ∈ ts, t.Complete) (h : s.Seen W targetWidth maxWidth seen)
    (hover : s.overflowed = false) (hwithin : W.textWidth seen ≤ maxWidth)
    (htarget : targetWidth ≤ maxWidth) :
    Complete (W.keep targetWidth maxWidth ts s).result ∧
    ((W.keep targetWidth maxWidth ts s).overflowed = false ∧
        W.textWidth (seen ++ ts.filterMap Token.char?) ≤ maxWidth ∧
        (W.keep targetWidth maxWidth ts s).visibleSoFar =
          W.textWidth (seen ++ ts.filterMap Token.char?) ∨
      (W.keep targetWidth maxWidth ts s).overflowed = true ∧
        maxWidth < W.textWidth (seen ++ ts.filterMap Token.char?) ∧
        (W.keep targetWidth maxWidth ts s).keptWidth =
          W.textWidth (visibleChars (W.keep targetWidth maxWidth ts s).result) ∧
        LongestPrefix W targetWidth (seen ++ ts.filterMap Token.char?)
          (visibleChars (W.keep targetWidth maxWidth ts s).result)) := by
  induction ts generalizing s seen with
  | nil =>
    rw [filterMap_nil, append_nil]
    exact ⟨h.complete, .inl ⟨hover, hwithin, h.visibleSoFar⟩⟩
  | cons t ts ih =>
    have hlater := fun u hu => hts u (mem_cons_of_mem t hu)
    have ht := hts t mem_cons_self
    cases t with
    | code code =>
      have hnext : { s with pendingAnsi := s.pendingAnsi ++ code }.Seen W targetWidth maxWidth
          seen := { h with pending := h.pending.append ht }
      exact ih hlater hnext hover hwithin
    | char c =>
      have hnext := h.take ht
      have hstays : (s.take targetWidth c (W.graphemeWidth c)).overflowed = false := by
        unfold Keep.take
        split_ifs <;> exact hover
      have hsplit : seen ++ (Token.char c :: ts).filterMap Token.char? =
          seen ++ [c] ++ ts.filterMap Token.char? := by simp [Token.char?]
      rw [Widths.keep, hsplit]
      split_ifs with hlong
      · rw [hnext.visibleSoFar] at hlong
        have hlonger : maxWidth < W.textWidth (seen ++ [c] ++ ts.filterMap Token.char?) :=
          Nat.lt_of_lt_of_le hlong (textWidth_le_of_front (prefix_append _ _))
        refine ⟨hnext.complete, .inr ⟨rfl, hlonger, hnext.keptWidth, ?_⟩⟩
        have hpart : (s.take targetWidth c (W.graphemeWidth c)).keepContiguousPrefix = false := by
          by_contra hall
          have hfits := hnext.fits
          rw [hnext.keptWidth, hnext.all (by simpa using hall)] at hfits
          omega
        obtain ⟨d, rest, heq, hbeyond⟩ := hnext.part hpart
        rw [heq, append_assoc, cons_append]
        exact .of_next (hnext.keptWidth ▸ hnext.fits) (hnext.keptWidth ▸ hbeyond)
      · exact ih hlater hnext hstays (hnext.visibleSoFar ▸ Nat.le_of_not_lt hlong)

/-! ## The results -/

theorem spaces_zero : spaces 0 = [] := rfl

/-- A text that is not too wide is returned. -/
theorem truncates_whole (htext : Complete text) (hle : W.visibleWidth text ≤ maxWidth) :
    Truncates W text maxWidth ellipsis pad
      (if pad then text ++ spaces (maxWidth - W.visibleWidth text) else text) := by
  cases pad with
  | true =>
    have hwidth : W.visibleWidth (text ++ spaces (maxWidth - W.visibleWidth text)) = maxWidth := by
      rw [W.visibleWidth_eq (complete_append htext (complete_plain (escape_not_mem_spaces _))),
        visibleChars_append htext, visibleChars_spaces, textWidth_append, textWidth_spaces,
        ← W.visibleWidth_eq htext]
      omega
    exact ⟨⟨fun _ => hle, fun _ => rfl⟩, fun hlong => absurd hle (not_le_of_lt hlong),
      Nat.le_of_eq hwidth, fun _ => hwidth⟩
  | false =>
    exact ⟨⟨fun _ => hle, fun _ => (append_nil text).symm⟩,
      fun hlong => absurd hle (not_le_of_lt hlong), hle, fun h => by cases h⟩

/-- A text that is too wide and is cut. -/
theorem truncates_cut (hlong : maxWidth < W.visibleWidth text)
    (hcut : CutTo W text maxWidth ellipsis pad result) (hfits : W.visibleWidth result ≤ maxWidth)
    (hpadded : pad = true → W.visibleWidth result = maxWidth) :
    Truncates W text maxWidth ellipsis pad result := by
  refine ⟨⟨fun heq => ?_, fun hle => absurd hle (not_le_of_lt hlong)⟩, fun _ => hcut, hfits,
    hpadded⟩
  rw [Nat.sub_eq_zero_of_le (Nat.le_of_lt hlong), ite_self, spaces_zero, append_nil] at heq
  exact heq ▸ hfits

variable {front : List Char}

/-- The columns of a result that is cut. -/
theorem visibleWidth_finalize (hfront : Complete front) (hellipsis : Complete ellipsis)
    {frontWidth ellipsisWidth : Nat} (hfrontWidth : frontWidth = W.textWidth (visibleChars front))
    (hellipsisWidth : ellipsisWidth = W.textWidth (visibleChars ellipsis))
    (hsum : frontWidth + ellipsisWidth ≤ maxWidth) (pad : Bool) :
    W.visibleWidth
        (finalizeTruncatedResult front frontWidth ellipsis ellipsisWidth maxWidth pad) ≤ maxWidth ∧
      (pad = true → W.visibleWidth
        (finalizeTruncatedResult front frontWidth ellipsis ellipsisWidth maxWidth pad) =
          maxWidth) := by
  obtain ⟨hcomplete, hvisible⟩ :=
    visibleChars_finalize hfront hellipsis frontWidth ellipsisWidth maxWidth pad
  rw [W.visibleWidth_eq hcomplete, hvisible, textWidth_append, textWidth_append,
    textWidth_spaces, ← hfrontWidth, ← hellipsisWidth]
  cases pad with
  | true => exact ⟨by rw [if_pos rfl]; omega, fun _ => by rw [if_pos rfl]; omega⟩
  | false => exact ⟨hsum, fun h => by cases h⟩

/-- A text that is cut in front of the whole ellipsis. -/
theorem truncates_finalize (hellipsis : Complete ellipsis)
    (hsmall : W.visibleWidth ellipsis < maxWidth) (hlong : maxWidth < W.visibleWidth text)
    (hfront : Complete front)
    (hlongest : LongestPrefix W (maxWidth - W.visibleWidth ellipsis) (visibleChars text)
      (visibleChars front)) :
    Truncates W text maxWidth ellipsis pad (finalizeTruncatedResult front
      (W.textWidth (visibleChars front)) ellipsis (W.visibleWidth ellipsis) maxWidth pad) := by
  have hfits := hlongest.fits
  obtain ⟨hwidth, hpadded⟩ := visibleWidth_finalize hfront hellipsis rfl
    (W.visibleWidth_eq hellipsis) (show _ ≤ maxWidth by omega) pad
  have hvisible := (visibleChars_finalize hfront hellipsis (W.textWidth (visibleChars front))
    (W.visibleWidth ellipsis) maxWidth pad).2
  conv at hvisible =>
    rhs
    rw [W.visibleWidth_eq hellipsis, ← textWidth_append]
  refine truncates_cut hlong ⟨_, _, hvisible, ?_⟩ hwidth hpadded
  rw [if_pos hsmall]
  exact ⟨rfl, hlongest⟩

theorem keep_start (W : Widths) (targetWidth maxWidth : Nat) :
    Keep.Seen W targetWidth maxWidth [] ⟨[], [], 0, 0, true, false⟩ :=
  ⟨by decide, codes_nil, rfl, rfl, zero_le _, fun _ => rfl, fun h => by cases h⟩

/-- What the loop finds in a text. -/
theorem keep_text (W : Widths) (htext : Complete text) (htarget : targetWidth ≤ maxWidth) :
    Complete (W.keep targetWidth maxWidth (loopTokens text) ⟨[], [], 0, 0, true, false⟩).result ∧
    ((W.keep targetWidth maxWidth (loopTokens text) ⟨[], [], 0, 0, true, false⟩).overflowed =
          false ∧ W.visibleWidth text ≤ maxWidth ∧
        (W.keep targetWidth maxWidth (loopTokens text) ⟨[], [], 0, 0, true, false⟩).visibleSoFar =
          W.visibleWidth text ∨
      (W.keep targetWidth maxWidth (loopTokens text) ⟨[], [], 0, 0, true, false⟩).overflowed =
          true ∧ maxWidth < W.visibleWidth text ∧
        (W.keep targetWidth maxWidth (loopTokens text) ⟨[], [], 0, 0, true, false⟩).keptWidth =
          W.textWidth (visibleChars
            (W.keep targetWidth maxWidth (loopTokens text) ⟨[], [], 0, 0, true, false⟩).result) ∧
        LongestPrefix W targetWidth (visibleChars text) (visibleChars
          (W.keep targetWidth maxWidth (loopTokens text) ⟨[], [], 0, 0, true, false⟩).result)) := by
  have hspec := keep_spec htext (keep_start W targetWidth maxWidth) rfl (zero_le _) htarget
  rw [W.visibleWidth_eq htext, loopTokens_eq]
  exact hspec

/-- **The general path.** -/
theorem truncateGeneral_truncates (htext : Complete text) (hellipsis : Complete ellipsis)
    (hsmall : W.visibleWidth ellipsis < maxWidth) (pad : Bool) :
    Truncates W text maxWidth ellipsis pad (W.truncateGeneral text maxWidth ellipsis pad) := by
  have hkeep := keep_text W htext (sub_le maxWidth (W.visibleWidth ellipsis))
  unfold truncateGeneral
  dsimp only
  generalize W.keep _ maxWidth (loopTokens text) _ = s at hkeep ⊢
  obtain ⟨hcomplete, ⟨hover, hle, hsofar⟩ | ⟨hover, hlong, hwidth, hlongest⟩⟩ := hkeep
  · rw [hover, hsofar]
    exact truncates_whole htext hle
  · rw [hover, hwidth]
    exact truncates_finalize hellipsis hsmall hlong hcomplete hlongest

/-- The front of a text in ASCII. -/
theorem longestPrefix_ascii (W : Widths) (hascii : isPrintableAscii text = true) (limit : Nat) :
    LongestPrefix W limit text (text.take limit) := by
  have hpart : ∀ p, p <+: text → W.textWidth p = p.length := fun p hp =>
    W.textWidth_ascii (all_eq_true.2 fun c hc => all_eq_true.1 hascii c (hp.subset hc))
  refine ⟨List.take_prefix _ _, ?_, fun p hp hwidth => ?_⟩
  · rw [hpart _ (List.take_prefix _ _), length_take]
    exact Nat.min_le_left _ _
  · rw [hpart p hp] at hwidth
    exact prefix_take_iff.2 ⟨hp, hwidth⟩

/-- Without escape sequences the result has none. -/
theorem escape_not_mem_keep {cs : List Char} (hpending : s.pendingAnsi = [])
    (hresult : escape ∉ s.result) (hcs : escape ∉ cs) :
    escape ∉ (W.keep targetWidth maxWidth (cs.map .char) s).result := by
  induction cs generalizing s with
  | nil => exact hresult
  | cons c cs ih =>
    rw [mem_cons, not_or] at hcs
    have hnext : (s.take targetWidth c (W.graphemeWidth c)).pendingAnsi = [] ∧
        escape ∉ (s.take targetWidth c (W.graphemeWidth c)).result := by
      unfold Keep.take
      split_ifs
      · exact ⟨rfl, by simp [hpending, hresult, hcs.1]⟩
      · exact ⟨rfl, hresult⟩
    rw [map_cons, Widths.keep]
    split_ifs
    · exact hnext.2
    · exact ih hnext.1 hnext.2 hcs.2

/-- **The fast path returns what the general path would.** -/
theorem truncateToWidth_ascii (W : Widths) (hascii : isPrintableAscii text = true)
    (hsmall : W.visibleWidth ellipsis < maxWidth) (pad : Bool) :
    W.truncateToWidth text maxWidth ellipsis pad =
      W.truncateGeneral text maxWidth ellipsis pad := by
  have hplain := escape_not_mem_ascii hascii
  have htext := complete_plain hplain
  have hlength : W.visibleWidth text = text.length := by
    rw [W.visibleWidth_eq htext, visibleChars_plain hplain, W.textWidth_ascii hascii]
  have hkeep := keep_text W htext (sub_le maxWidth (W.visibleWidth ellipsis))
  have hresult := @escape_not_mem_keep W maxWidth (maxWidth - W.visibleWidth ellipsis)
    ⟨[], [], 0, 0, true, false⟩ text rfl not_mem_nil hplain
  rw [← tokens_plain hplain, ← loopTokens_eq] at hresult
  unfold truncateToWidth truncateGeneral
  dsimp only
  rw [if_neg (by omega), if_neg (not_le_of_lt hsmall), if_pos hascii]
  generalize W.keep _ maxWidth (loopTokens text) _ = s at hkeep hresult ⊢
  rw [hlength, visibleChars_plain hplain] at hkeep
  obtain ⟨hcomplete, ⟨hover, hle, hsofar⟩ | ⟨hover, hlong, hwidth, hlongest⟩⟩ := hkeep
  · rw [hover, hsofar, if_pos hle, Bool.not_false, if_pos rfl]
    split_ifs with hnil hpad
    · rw [hnil]
      rfl
    · exact hnil.symm
    · rfl
    · rfl
  · have hnil : text ≠ [] := by
      rintro rfl
      exact Nat.not_lt_zero _ hlong
    rw [visibleChars_plain hresult] at hwidth hlongest
    have htake := hlongest.unique (longestPrefix_ascii W hascii _)
    have htarget : W.textWidth (text.take (maxWidth - W.visibleWidth ellipsis)) =
        maxWidth - W.visibleWidth ellipsis := by
      rw [W.textWidth_ascii (all_eq_true.2 fun c hc =>
        all_eq_true.1 hascii c (mem_of_mem_take hc)), length_take]
      omega
    rw [hover, if_neg hnil, if_neg (not_le_of_lt hlong), hwidth, htake, htarget]
    rfl

/-- A fragment that is clipped. -/
theorem truncateFragmentToWidth_spec (W : Widths) (htext : Complete text) (hmax : 1 ≤ maxWidth) :
    Complete (W.truncateFragmentToWidth text maxWidth).1 ∧
    (W.truncateFragmentToWidth text maxWidth).2 =
      W.textWidth (visibleChars (W.truncateFragmentToWidth text maxWidth).1) ∧
    LongestPrefix W maxWidth (visibleChars text)
      (visibleChars (W.truncateFragmentToWidth text maxWidth).1) := by
  unfold truncateFragmentToWidth
  split_ifs with hnone hascii
  · obtain rfl : text = [] := hnone.resolve_left (by omega)
    exact ⟨htext, rfl, .of_fits (zero_le _)⟩
  · have hfront : isPrintableAscii (text.take maxWidth) = true :=
      all_eq_true.2 fun c hc => all_eq_true.1 hascii c (mem_of_mem_take hc)
    have hplain := escape_not_mem_ascii hfront
    rw [visibleChars_plain hplain, visibleChars_plain (escape_not_mem_ascii hascii)]
    exact ⟨complete_plain hplain, (W.textWidth_ascii hfront).symm,
      longestPrefix_ascii W hascii maxWidth⟩
  · have hnone : Complete [] := by decide
    rw [loopTokens_eq]
    exact fragment_spec htext hnone codes_nil rfl (zero_le maxWidth)

/-- **What the ellipsis leaves no room for.** -/
theorem truncates_wide (W : Widths) (htext : Complete text) (hellipsis : Complete ellipsis)
    (hwide : maxWidth ≤ W.visibleWidth ellipsis) (hmax : 1 ≤ maxWidth) (hnil : text ≠ [])
    (pad : Bool) :
    Truncates W text maxWidth ellipsis pad (W.truncateToWidth text maxWidth ellipsis pad) := by
  rw [truncateToWidth, if_neg (by omega), if_neg hnil]
  dsimp only
  rw [if_pos hwide]
  by_cases hle : W.visibleWidth text ≤ maxWidth
  · rw [if_pos hle]
    exact truncates_whole htext hle
  rw [if_neg hle]
  rw [Nat.not_le] at hle
  obtain ⟨hcomplete, hwidth, hlongest⟩ := truncateFragmentToWidth_spec W hellipsis hmax
  generalize W.truncateFragmentToWidth ellipsis maxWidth = clipped at hcomplete hwidth hlongest ⊢
  have hshown : ∀ shown, shown = (if clipped.2 = 0 then [] else visibleChars clipped.1) →
      if W.visibleWidth ellipsis < maxWidth then
        shown = visibleChars ellipsis ∧
          LongestPrefix W (maxWidth - W.visibleWidth ellipsis) (visibleChars text) []
      else
        [] = ([] : List Char) ∧ ∃ clipped, LongestPrefix W maxWidth (visibleChars ellipsis) clipped ∧
          shown = if W.textWidth clipped = 0 then [] else clipped := by
    rintro shown rfl
    rw [if_neg (Nat.not_lt_of_le hwide), hwidth]
    exact ⟨rfl, _, hlongest, rfl⟩
  split_ifs with hzero hpad
  · have hspaces : W.visibleWidth (spaces maxWidth) = maxWidth := by
      rw [W.visibleWidth_eq (complete_plain (escape_not_mem_spaces _)), visibleChars_spaces,
        textWidth_spaces]
    refine truncates_cut hle ⟨[], [], ?_, hshown [] (if_pos hzero).symm⟩
      (Nat.le_of_eq hspaces) fun _ => hspaces
    rw [visibleChars_spaces, if_pos hpad]
    rfl
  · refine truncates_cut hle ⟨[], [], ?_, hshown [] (if_pos hzero).symm⟩ (zero_le _)
      fun h => absurd h hpad
    rw [if_neg hpad]
    rfl
  · have hnone : Complete [] := by decide
    obtain ⟨hfits, hpadded⟩ := @visibleWidth_finalize W clipped.1 maxWidth [] hnone hcomplete 0
      clipped.2 rfl hwidth (by rw [hwidth, Nat.zero_add]; exact hlongest.fits) pad
    have hvisible := (visibleChars_finalize hnone hcomplete 0 clipped.2 maxWidth pad).2
    conv at hvisible =>
      rhs
      rw [hwidth, Nat.zero_add]
    exact truncates_cut hle ⟨[], visibleChars clipped.1, hvisible,
      hshown _ (if_neg hzero).symm⟩ hfits hpadded

/-- **For every text, width and ellipsis: the text is returned exactly if it is not too wide, and
otherwise as much of its front as fits, with the ellipsis; the fast path makes no difference.** -/
theorem truncateToWidth_spec (W : Widths) (htext : Complete text) (hellipsis : Complete ellipsis)
    (hmax : 1 ≤ maxWidth) (pad : Bool) :
    Truncates W text maxWidth ellipsis pad (W.truncateToWidth text maxWidth ellipsis pad) ∧
    (isPrintableAscii text = true → W.visibleWidth ellipsis < maxWidth →
      W.truncateToWidth text maxWidth ellipsis pad =
        W.truncateGeneral text maxWidth ellipsis pad) := by
  refine ⟨?_, fun hascii hsmall => truncateToWidth_ascii W hascii hsmall pad⟩
  by_cases hnil : text = []
  · subst hnil
    have hwhole := @truncates_whole W [] ellipsis maxWidth pad htext (Nat.zero_le _)
    rw [truncateToWidth, if_neg (by omega), if_pos rfl]
    exact hwhole
  · rcases Nat.lt_or_ge (W.visibleWidth ellipsis) maxWidth with hsmall | hwide
    · by_cases hascii : isPrintableAscii text = true
      · rw [truncateToWidth_ascii W hascii hsmall]
        exact truncateGeneral_truncates htext hellipsis hsmall pad
      · rw [truncateToWidth, if_neg (by omega), if_neg hnil]
        dsimp only
        rw [if_neg (Nat.not_le_of_lt hsmall), if_neg hascii]
        exact truncateGeneral_truncates htext hellipsis hsmall pad
    · exact truncates_wide W htext hellipsis hwide hmax hnil pad

/-- Tabs take three columns, controls none, and what is behind Latin, Greek and Cyrillic two. -/
def sampleWidths : Widths where
  graphemeWidth c :=
    if c = '\t' then 3 else if c.toNat < 0x20 then 0 else if c.toNat < 0x1100 then 1 else 2
  ascii c hc := by
    rw [isPrintable, Bool.and_eq_true, decide_eq_true_eq, decide_eq_true_eq] at hc
    have htab : c ≠ '\t' := by
      rintro rfl
      exact absurd hc.1 (by decide)
    rw [if_neg htab, if_neg (by omega), if_pos (by omega)]
  tab := rfl

/-- A wide character in red, a tab and two letters. -/
def redText : List Char := escape :: "[31m你\tab".toList

/-- In five columns, with one dot, the tab does not fit and ends what is kept, although there is a
column left for the first letter; with `pad` two blanks follow.  In one column the ellipsis leaves no
room, and is clipped. -/
theorem truncateToWidth_spec_redText :
    (visibleChars (sampleWidths.truncateToWidth redText 5 ['.'] true) = ['你', '.', ' ', ' '] ∧
      Truncates sampleWidths redText 5 ['.'] true
        (sampleWidths.truncateToWidth redText 5 ['.'] true)) ∧
    visibleChars (sampleWidths.truncateToWidth redText 1 ['.', '.'] false) = ['.'] ∧
      Truncates sampleWidths redText 1 ['.', '.'] false
        (sampleWidths.truncateToWidth redText 1 ['.', '.'] false) := by
  have htext : Complete redText := by decide
  exact ⟨⟨by decide, (truncateToWidth_spec sampleWidths htext (by decide) (by decide) true).1⟩,
    by decide, (truncateToWidth_spec sampleWidths htext (by decide) (by decide) false).1⟩

/-- `"abcd"` in three columns, with an ellipsis of two wide characters: the first of them is shown,
and the column that it leaves could hold the `a`. -/
theorem wide_ellipsis_leaves_room :
    visibleChars (sampleWidths.truncateToWidth ['a', 'b', 'c', 'd'] 3 ['你', '好'] false) = ['你'] ∧
    ¬∃ kept shown, ['你'] = kept ++ shown ∧ kept <+: ['a', 'b', 'c', 'd'] ∧ shown <+: ['你', '好'] ∧
      ∀ p, p <+: ['a', 'b', 'c', 'd'] →
        sampleWidths.textWidth p + sampleWidths.textWidth shown ≤ 3 → p <+: kept := by
  refine ⟨by decide, ?_⟩
  rintro ⟨kept, shown, heq, hkept, -, hlongest⟩
  cases kept with
  | nil =>
    rw [nil_append] at heq
    have ha := hlongest ['a'] (by decide) (by rw [← heq]; decide)
    exact absurd ha (by decide)
  | cons c kept =>
    obtain ⟨rfl, -⟩ := cons_eq_cons.1 heq
    exact absurd (cons_prefix_cons.1 hkept).1 (by decide)

end BeauPi.Tui.Ansi
