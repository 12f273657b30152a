-- SUMMARY: Numerals of a fixed width in any base, and the dictionary order on them.
import Mathlib.Data.List.Basic
import Mathlib.Data.Nat.Basic
import Mathlib.Algebra.Order.Ring.Nat
import Mathlib.Tactic.Tauto

/-!
# Numerals of a fixed width

A number written with a fixed number of digits, the highest digit first. When the
digits are listed in ascending order, numerals of one width compare in the
dictionary as their numbers do, and putting numerals one after the other orders
them by the first, then by the second.
-/

/-! ## The dictionary order on lists of one length -/

/-- Behind initial parts of one length, a comparison is decided by these first. -/
theorem append_lt_append_iff {α : Type} [LT α] {s s' t t' : List α}
    (hlen : s.length = s'.length) : s ++ t < s' ++ t' ↔ s < s' ∨ s = s' ∧ t < t' := by
  induction s generalizing s' with
  | nil =>
    obtain rfl := List.length_eq_zero_iff.mp hlen.symm
    simp
  | cons a s ih =>
    cases s' with
    | nil => simp at hlen
    | cons a' s' =>
      have hrest := @ih s' (by simpa using hlen)
      simp only [List.cons_append, List.cons_lt_cons_iff, hrest, List.cons.injEq]
      tauto

/-- A number is compared by its quotient, then by its remainder. -/
theorem lt_iff_div_mod {base a b : Nat} :
    a < b ↔ a / base < b / base ∨ a / base = b / base ∧ a % base < b % base := by
  have hq : a / base < b / base → a < b := fun h => lt_of_not_ge fun hba =>
    absurd (Nat.div_le_div_right hba) (Nat.not_le.mpr h)
  have hq' : b / base < a / base → b < a := fun h => lt_of_not_ge fun hab =>
    absurd (Nat.div_le_div_right hab) (Nat.not_le.mpr h)
  rcases lt_trichotomy (a / base) (b / base) with h | h | h
  · simp [h, hq h]
  · have ha := Nat.div_add_mod a base
    have hb := Nat.div_add_mod b base
    rw [h] at ha
    simp only [h, lt_irrefl, true_and, false_or]
    omega
  · have := hq' h
    omega

/-! ## Numerals -/

section Numerals

variable {α : Type} (digit : Nat → α) (base : Nat)

/-- The last `width` digits of `n`. -/
def numeral : Nat → Nat → List α
  | 0, _ => []
  | width + 1, n => numeral width (n / base) ++ [digit (n % base)]

@[simp] theorem length_numeral {width n : Nat} : (numeral digit base width n).length = width := by
  induction width generalizing n with
  | zero => rfl
  | succ width ih => simp [numeral, ih]

variable {digit base}

theorem mem_numeral (hbase : 0 < base) {width n : Nat} {c : α}
    (hc : c ∈ numeral digit base width n) : ∃ d < base, c = digit d := by
  induction width generalizing n with
  | zero => cases hc
  | succ width ih =>
    rcases List.mem_append.mp hc with hc | hc
    · exact ih hc
    · exact ⟨n % base, Nat.mod_lt n hbase, List.mem_singleton.mp hc⟩

/-- A numeral keeps no more than its width: beyond it, the number wraps around. -/
theorem numeral_mod {width n : Nat} :
    numeral digit base width (n % base ^ width) = numeral digit base width n := by
  induction width generalizing n with
  | zero => rfl
  | succ width ih =>
    have hdiv : n % base ^ (width + 1) / base = n / base % base ^ width := by
      rw [Nat.pow_succ', Nat.mod_mul_right_div_self]
    have hmod : n % base ^ (width + 1) % base = n % base := by
      rw [Nat.pow_succ', Nat.mod_mul_right_mod]
    rw [numeral, hdiv, hmod, ih, numeral]

/-- Numbers that fit a width have one numeral each. -/
theorem numeral_inj (hdigit : ∀ i < base, ∀ j < base, digit i = digit j → i = j)
    {width a b : Nat} (ha : a < base ^ width) (hb : b < base ^ width)
    (h : numeral digit base width a = numeral digit base width b) : a = b := by
  induction width generalizing a b with
  | zero => simp_all
  | succ width ih =>
    have hbase : 0 < base := Nat.pos_of_ne_zero fun h0 => by simp [h0] at ha
    obtain ⟨hhigh, hlow⟩ := List.append_inj h (by simp)
    have hquot : a / base = b / base :=
      ih (Nat.div_lt_of_lt_mul (by rwa [← Nat.pow_succ']))
        (Nat.div_lt_of_lt_mul (by rwa [← Nat.pow_succ'])) hhigh
    have hrem : a % base = b % base :=
      hdigit _ (Nat.mod_lt a hbase) _ (Nat.mod_lt b hbase) (List.singleton_inj.mp hlow)
    rw [← Nat.div_add_mod a base, ← Nat.div_add_mod b base, hquot, hrem]

variable [LT α]

/-- Under ascending digits, the dictionary orders numerals as their numbers. -/
theorem numeral_lt_iff (hdigit : ∀ i < base, ∀ j < base, digit i < digit j ↔ i < j)
    (hinj : ∀ i < base, ∀ j < base, digit i = digit j → i = j)
    {width a b : Nat} (ha : a < base ^ width) (hb : b < base ^ width) :
    numeral digit base width a < numeral digit base width b ↔ a < b := by
  induction width generalizing a b with
  | zero =>
    obtain rfl : a = 0 := by simpa using ha
    obtain rfl : b = 0 := by simpa using hb
    simp [numeral]
  | succ width ih =>
    have hbase : 0 < base := Nat.pos_of_ne_zero fun h0 => by simp [h0] at ha
    have ha' : a / base < base ^ width := Nat.div_lt_of_lt_mul (by rwa [← Nat.pow_succ'])
    have hb' : b / base < base ^ width := Nat.div_lt_of_lt_mul (by rwa [← Nat.pow_succ'])
    have hlow : [digit (a % base)] < [digit (b % base)] ↔ a % base < b % base := by
      simpa [List.cons_lt_cons_iff] using
        hdigit _ (Nat.mod_lt a hbase) _ (Nat.mod_lt b hbase)
    have hhigh : numeral digit base width (a / base) = numeral digit base width (b / base) ↔
        a / base = b / base :=
      ⟨numeral_inj hinj ha' hb', fun h => by rw [h]⟩
    rw [numeral, numeral, append_lt_append_iff (by simp), ih ha' hb', hhigh, hlow,
      ← lt_iff_div_mod]

end Numerals
