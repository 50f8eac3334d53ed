import BeauPi.Js.Text

/-!
# How long a JavaScript text is

* `utf16Length_append`, `utf16Length_intercalate` — texts put together.
* `oneLine_eq_self` — a text without white space is one line already.
* `isSpace_oneLine` — the only white space in a normalised text is the blank.
-/

namespace BeauPi.Js

open List

variable {c : Char} {cs ds : List Char} {n : Nat}

/-! ## Putting texts together -/

@[simp] theorem utf16LengthChars_nil : utf16LengthChars [] = 0 := rfl

@[simp] theorem utf16LengthChars_cons (c : Char) (cs : List Char) :
    utf16LengthChars (c :: cs) = utf16Width c + utf16LengthChars cs := by
  simp [utf16LengthChars]

@[simp] theorem utf16LengthChars_append (cs ds : List Char) :
    utf16LengthChars (cs ++ ds) = utf16LengthChars cs + utf16LengthChars ds := by
  simp [utf16LengthChars]

theorem utf16Length_append (s t : String) :
    utf16Length (s ++ t) = utf16Length s + utf16Length t := by
  simp [utf16Length]

theorem utf16Length_ofList (cs : List Char) :
    utf16Length (String.ofList cs) = utf16LengthChars cs := by
  simp [utf16Length]

/-- A literal is the text of its characters. -/
theorem utf16Length_literal {cs : List Char} {n : Nat} (h : utf16LengthChars cs = n) :
    utf16Length (String.ofList cs) = n := by
  rw [utf16Length_ofList, h]

/-- A text between separators: each part brings one separator, but the last. -/
theorem utf16LengthChars_intercalate (sep : List Char) : ∀ ls : List (List Char), ls ≠ [] →
    utf16LengthChars (sep.intercalate ls) + utf16LengthChars sep =
      (ls.map fun l => utf16LengthChars l + utf16LengthChars sep).sum
  | [], h => absurd rfl h
  | [l], _ => by simp
  | l :: k :: ls, _ => by
    have ih := utf16LengthChars_intercalate sep (k :: ls) (by simp)
    simp only [intercalate_cons_cons, utf16LengthChars_append, map_cons, sum_cons]
      at ih ⊢
    omega

theorem utf16Length_intercalate (sep : String) {ls : List String} (h : ls ≠ []) :
    utf16Length (sep.intercalate ls) + utf16Length sep =
      (ls.map fun l => utf16Length l + utf16Length sep).sum := by
  have hchars := utf16LengthChars_intercalate sep.toList (ls.map String.toList) (by simpa using h)
  rw [map_map] at hchars
  simpa [utf16Length, Function.comp_def] using hchars

/-! ## Slices -/

/-- A slice holds characters of the text, and at most one replacement character. -/
theorem mem_sliceToChars : ∀ (n : Nat) (cs : List Char), c ∈ sliceToChars n cs →
    c ∈ cs ∨ c = Char.ofNat 0xfffd
  | 0, cs, h => by simp [sliceToChars] at h
  | n + 1, [], h => by simp [sliceToChars] at h
  | n + 1, d :: cs, h => by
    unfold sliceToChars at h
    split at h
    next =>
      rcases mem_cons.1 h with rfl | h
      · exact .inl (by simp)
      · exact (mem_sliceToChars n cs h).imp (mem_cons_of_mem _) id
    next =>
      split at h
      next => exact .inr (mem_singleton.1 h)
      next =>
        rcases mem_cons.1 h with rfl | h
        · exact .inl (by simp)
        · exact (mem_sliceToChars (n - 1) cs h).imp (mem_cons_of_mem _) id

/-! ## White space -/

/-- The only white space of a collapsed text is the blank. -/
theorem isSpace_collapseChars : ∀ (inSpace : Bool) (cs : List Char), c ∈ collapseChars inSpace cs →
    isSpace c = true → c = ' '
  | _, [], h, _ => by simp [collapseChars] at h
  | inSpace, d :: cs, h, hc => by
    unfold collapseChars at h
    split at h
    next =>
      split at h
      next => exact isSpace_collapseChars true cs h hc
      next =>
        rcases mem_cons.1 h with rfl | h
        · rfl
        · exact isSpace_collapseChars true cs h hc
    next hd =>
      rcases mem_cons.1 h with rfl | h
      · exact absurd hc hd
      · exact isSpace_collapseChars false cs h hc

theorem mem_trimChars (h : c ∈ trimChars cs) : c ∈ cs := by
  unfold trimChars at h
  have h₁ := (dropWhile_sublist _).subset (mem_reverse.1 h)
  exact (dropWhile_sublist _).subset (mem_reverse.1 h₁)

/-- The only white space of a normalised text is the blank. -/
theorem isSpace_oneLine {text : String} (h : c ∈ (oneLine text).toList) (hc : isSpace c = true) :
    c = ' ' := by
  rw [oneLine, String.toList_ofList] at h
  exact isSpace_collapseChars false _ (mem_trimChars h) hc

theorem collapseChars_eq_self : ∀ {cs : List Char}, (∀ c ∈ cs, isSpace c = false) →
    collapseChars false cs = cs
  | [], _ => rfl
  | c :: cs, h => by
    rw [collapseChars, h c (by simp)]
    simp only [Bool.false_eq_true, if_false]
    rw [collapseChars_eq_self fun d hd => h d (mem_cons_of_mem _ hd)]

theorem trimChars_eq_self (h : ∀ c ∈ cs, isSpace c = false) : trimChars cs = cs := by
  have hdrop : ∀ {ds : List Char}, (∀ c ∈ ds, isSpace c = false) → ds.dropWhile isSpace = ds := by
    intro ds hds
    cases ds with
    | nil => rfl
    | cons d ds => rw [dropWhile_cons, hds d (by simp)]; rfl
  rw [trimChars, hdrop h, hdrop fun c hc => h c (mem_reverse.1 hc), reverse_reverse]

/-- A text without white space is one line already. -/
theorem oneLine_eq_self {text : String} (h : ∀ c ∈ text.toList, isSpace c = false) :
    oneLine text = text := by
  rw [oneLine, collapseChars_eq_self h, trimChars_eq_self h, String.ofList_toList]

end BeauPi.Js
