-- SUMMARY: Text as lists of characters: whitespace, stripping, splitting, and gluing two parts at a separator.
import Mathlib.Data.List.DropRight
import Mathlib.Data.List.Infix

/-!
# Text

What a program that handles identifiers as text needs: the whitespace that
stripping removes, splitting and partitioning at a separator, and the question
that decides whether two glued identifiers can collide.
-/

namespace Text

/-! ## Whitespace -/

/-- The code points that stripping removes: the Unicode separators and the
    characters of bidirectional class WS, B or S. -/
def isSpace (c : Char) : Bool :=
  let n := c.toNat
  (9 ≤ n && n ≤ 13) || (28 ≤ n && n ≤ 32) || n == 0x85 || n == 0xA0 || n == 0x1680 ||
  (0x2000 ≤ n && n ≤ 0x200A) || n == 0x2028 || n == 0x2029 || n == 0x202F || n == 0x205F ||
  n == 0x3000

/-- Drop leading and trailing whitespace. -/
def stripChars (cs : List Char) : List Char :=
  (cs.dropWhile isSpace).rdropWhile isSpace

def strip (s : String) : String := String.ofList (stripChars s.toList)

theorem stripChars_eq_nil_iff {cs : List Char} :
    stripChars cs = [] ↔ ∀ c ∈ cs, isSpace c = true := by
  simp only [stripChars, List.rdropWhile_eq_nil_iff]
  constructor
  · intro h c hc
    rw [← List.takeWhile_append_dropWhile (p := isSpace) (l := cs)] at hc
    cases List.mem_append.mp hc with
    | inl hl => exact List.mem_takeWhile_imp hl
    | inr hr => exact h c hr
  · intro h c hc
    exact h c ((List.dropWhile_sublist isSpace).subset hc)

/-- A text is blank exactly when all of it is whitespace. -/
theorem strip_eq_empty_iff {s : String} : strip s = "" ↔ ∀ c ∈ s.toList, isSpace c = true := by
  rw [← stripChars_eq_nil_iff]
  constructor
  · intro h
    simpa [strip] using congrArg String.toList h
  · intro h
    simp [strip, h]

/-- A text with a visible character is not blank. -/
theorem strip_ne_empty_of_mem {s : String} {c : Char} (hc : c ∈ s.toList)
    (hvis : isSpace c = false) : strip s ≠ "" := by
  intro h
  have := strip_eq_empty_iff.mp h c hc
  simp [hvis] at this

/-- What remains after stripping starts with the character at which the first pass
    stopped. -/
theorem head?_stripChars {cs : List Char} {c : Char} (hc : c ∈ (stripChars cs).head?) :
    isSpace c = false := by
  cases hout : stripChars cs with
  | nil => simp [hout] at hc
  | cons d out =>
    obtain rfl : d = c := by simpa [hout] using hc
    obtain ⟨rest, hrest⟩ : stripChars cs <+: cs.dropWhile isSpace :=
      List.rdropWhile_prefix isSpace _
    have hhead : cs.dropWhile isSpace = d :: (out ++ rest) := by simp [← hrest, hout]
    have := List.head?_dropWhile_not isSpace cs
    simpa [hhead] using this

theorem dropWhile_stripChars (cs : List Char) :
    (stripChars cs).dropWhile isSpace = stripChars cs := by
  cases hout : stripChars cs with
  | nil => rfl
  | cons c out =>
    have hhead : c ∈ (stripChars cs).head? := by simp [hout]
    simp [head?_stripChars hhead]

/-- Stripping leaves nothing more to strip. -/
theorem stripChars_idem (cs : List Char) : stripChars (stripChars cs) = stripChars cs := by
  calc stripChars (stripChars cs)
      = (stripChars cs).rdropWhile isSpace := by rw [stripChars, dropWhile_stripChars]
    _ = stripChars cs := List.rdropWhile_idempotent isSpace (cs.dropWhile isSpace)

theorem length_stripChars_le (cs : List Char) : (stripChars cs).length ≤ cs.length :=
  le_trans (List.rdropWhile_prefix isSpace _).length_le
    (List.dropWhile_suffix isSpace).length_le

/-- What is stripped off behind a text that is left over is whitespace. -/
theorem isSpace_of_stripChars_append {x y : List Char} (h : stripChars (x ++ y) = x)
    (hne : x ≠ []) : ∀ c ∈ y, isSpace c = true := by
  have hfront : (x ++ y).dropWhile isSpace = x ++ y := by
    cases x with
    | nil => exact absurd rfl hne
    | cons c x =>
      have hhead : c ∈ (stripChars (c :: x ++ y)).head? := by
        rw [h]
        rfl
      simp [head?_stripChars hhead]
  have hback : x ++ (x ++ y).rtakeWhile isSpace = x ++ y := by
    calc x ++ (x ++ y).rtakeWhile isSpace
        = (x ++ y).rdropWhile isSpace ++ (x ++ y).rtakeWhile isSpace := by
          rw [← hfront, ← stripChars, h, hfront]
      _ = x ++ y := List.rdropWhile_append_rtakeWhile
  rw [← List.append_cancel_left hback]
  exact fun c hc => List.mem_rtakeWhile_imp hc

@[simp] theorem strip_strip (s : String) : strip (strip s) = strip s := by
  simp [strip, stripChars_idem]

/-! ## Splitting -/

/-- The parts of a text between the occurrences of a separator. -/
def split (sep : Char) (s : String) : List String :=
  (s.toList.splitOn sep).map String.ofList

/-- The text before the first occurrence of a separator and the text after it;
    the whole text and the empty one when it does not occur. -/
def partition (sep : Char) (s : String) : String × String :=
  (String.ofList (s.toList.takeWhile (· != sep)),
   String.ofList (s.toList.dropWhile (· != sep)).tail)

/-! ## Quoting -/

def singleQuote : Char := Char.ofNat 39
def doubleQuote : Char := Char.ofNat 34
def backslash : Char := Char.ofNat 92

/-- One character inside a quoted text. -/
def escape (quote c : Char) : List Char :=
  if c = backslash ∨ c = quote then [backslash, c]
  else if c = '\n' then [backslash, 'n']
  else if c = '\r' then [backslash, 'r']
  else if c = '\t' then [backslash, 't']
  else [c]

/-- A text as it is shown inside a message: in single quotes, or in double
    quotes when it has single ones and no double ones. Code points without a
    visible shape, which are shown by number, are left as they are. -/
def quoted (s : String) : String :=
  let quote := if singleQuote ∈ s.toList ∧ doubleQuote ∉ s.toList then doubleQuote else singleQuote
  String.ofList (quote :: s.toList.flatMap (escape quote) ++ [quote])

/-! ## Gluing -/

section Glue

variable {α : Type} {sep : α} {a b x y : List α}

/-- Two glued pairs agree only when the pairs agree, or when one left part
    continued by the separator starts the other one. -/
theorem glue_eq_glue_iff :
    a ++ sep :: x = b ++ sep :: y ↔
      (a = b ∧ x = y) ∨ (∃ r, b = a ++ sep :: r ∧ x = r ++ sep :: y) ∨
        (∃ r, a = b ++ sep :: r ∧ y = r ++ sep :: x) := by
  rw [List.append_eq_append_iff]
  constructor
  · rintro (⟨r, rfl, hr⟩ | ⟨r, rfl, hr⟩)
    · cases r with
      | nil => left; simpa using hr
      | cons c r =>
        obtain ⟨rfl, hx⟩ : sep = c ∧ x = r ++ sep :: y := by simpa using hr
        exact .inr (.inl ⟨r, rfl, hx⟩)
    · cases r with
      | nil => left; simpa [eq_comm] using hr
      | cons c r =>
        obtain ⟨rfl, hy⟩ : sep = c ∧ y = r ++ sep :: x := by simpa using hr
        exact .inr (.inr ⟨r, rfl, hy⟩)
  · rintro (⟨rfl, rfl⟩ | ⟨r, rfl, rfl⟩ | ⟨r, rfl, rfl⟩)
    · exact .inl ⟨[], by simp⟩
    · exact .inl ⟨sep :: r, by simp⟩
    · exact .inr ⟨sep :: r, by simp⟩

/-- Two distinct left parts never collide under gluing, whichever admissible
    right parts follow, exactly when neither of them continued by the separator
    starts the other. Admissible right parts must include one that stays
    admissible under any prefix. -/
theorem glue_disjoint_iff {V : List α → Prop} (hab : a ≠ b) (z : List α) (hz : V z)
    (hext : ∀ r, V (r ++ sep :: z)) :
    (∀ x y, V x → V y → a ++ sep :: x ≠ b ++ sep :: y) ↔
      ¬ (a ++ [sep]) <+: b ∧ ¬ (b ++ [sep]) <+: a := by
  constructor
  · intro h
    refine ⟨?_, ?_⟩
    · rintro ⟨r, rfl⟩
      exact h (r ++ sep :: z) z (hext r) hz (by simp)
    · rintro ⟨r, rfl⟩
      exact h z (r ++ sep :: z) hz (hext r) (by simp)
  · rintro ⟨h₁, h₂⟩ x y _ _ heq
    rcases glue_eq_glue_iff.mp heq with ⟨rfl, -⟩ | ⟨r, rfl, -⟩ | ⟨r, rfl, -⟩
    · exact hab rfl
    · exact h₁ ⟨r, by simp⟩
    · exact h₂ ⟨r, by simp⟩

end Glue

end Text
