-- SUMMARY: How ids are minted from the clock and random bits, and how the journal is read back in their order.
import Memgw.Gateway.Catalog
import Memgw.Library.Numerals
import Mathlib.Data.String.Basic

/-!
# Ids

`new_id` keeps the last millisecond it saw and a counter. A new millisecond draws the
counter from random bits, and the same millisecond again counts up. The two are
written as base-32 numerals of fixed widths, so that ids can be sorted as text.
-/

namespace Memgw

/-! ## Base 32 -/

def crockfordDigit (d : Nat) : Char := crockford.getD d '0'

theorem crockfordDigit_eq {d : Nat} (hd : d < crockford.length) :
    crockfordDigit d = crockford[d] := by
  rw [crockfordDigit, List.getD_eq_getElem?_getD, List.getElem?_eq_getElem hd, Option.getD_some]

theorem crockfordDigit_mem {d : Nat} (hd : d < 32) : crockfordDigit d ∈ crockford := by
  rw [crockfordDigit_eq hd]
  exact List.getElem_mem hd

/-- The alphabet is in ascending order. -/
theorem crockford_ascending : crockford.Pairwise (· < ·) := by decide

theorem crockfordDigit_lt_iff {i j : Nat} (hi : i < 32) (hj : j < 32) :
    crockfordDigit i < crockfordDigit j ↔ i < j := by
  have hi' : i < crockford.length := hi
  have hj' : j < crockford.length := hj
  rw [crockfordDigit_eq hi', crockfordDigit_eq hj']
  have hup := List.pairwise_iff_getElem.mp crockford_ascending
  constructor
  · intro h
    rcases lt_trichotomy i j with hij | rfl | hji
    · exact hij
    · exact absurd h (lt_irrefl _)
    · exact absurd h (lt_asymm (hup j i hj' hi' hji))
  · intro hij
    exact hup i j hi' hj' hij

theorem crockfordDigit_inj {i j : Nat} (hi : i < 32) (hj : j < 32)
    (h : crockfordDigit i = crockfordDigit j) : i = j := by
  have hij : ¬ i < j := fun hlt => absurd ((crockfordDigit_lt_iff hi hj).mpr hlt) (by simp [h])
  have hji : ¬ j < i := fun hlt => absurd ((crockfordDigit_lt_iff hj hi).mpr hlt) (by simp [h])
  omega

/-- The loop of `_b32` takes the digits from the low end. -/
theorem b32Digits_reverse {value length : Nat} :
    (b32Digits value length).reverse = numeral crockfordDigit 32 length value := by
  induction length generalizing value with
  | zero => rfl
  | succ length ih =>
    have hlow : value &&& 0x1F = value % 32 := Nat.and_two_pow_sub_one_eq_mod value 5
    have hrest : value >>> 5 = value / 32 := Nat.shiftRight_eq_div_pow value 5
    rw [b32Digits, List.reverse_cons, ih, hlow, hrest, numeral, crockfordDigit]

theorem b32_toList {value length : Nat} :
    (b32 value length).toList = numeral crockfordDigit 32 length value := by
  rw [b32, String.toList_ofList, b32Digits_reverse]

theorem b32_lt_iff {n a b : Nat} (ha : a < 32 ^ n) (hb : b < 32 ^ n) :
    b32 a n < b32 b n ↔ a < b := by
  rw [String.lt_iff_toList_lt, b32_toList, b32_toList]
  exact numeral_lt_iff (fun _ hi _ hj => crockfordDigit_lt_iff hi hj)
    (fun _ hi _ hj => crockfordDigit_inj hi hj) ha hb

theorem b32_inj {n a b : Nat} (ha : a < 32 ^ n) (hb : b < 32 ^ n) (h : b32 a n = b32 b n) :
    a = b := by
  refine numeral_inj (fun _ hi _ hj => crockfordDigit_inj hi hj) ha hb ?_
  rw [← b32_toList, ← b32_toList, h]

/-- The counter wraps around after 80 bits. -/
theorem b32_wrap {value : Nat} : b32 (value % 2 ^ 80) 16 = b32 value 16 := by
  have hwidth : (2 : Nat) ^ 80 = 32 ^ 16 := by decide
  rw [← String.toList_inj, b32_toList, b32_toList, hwidth, numeral_mod]

/-- Texts that begin with numerals of one width compare by these first. -/
theorem b32_append_lt_iff {n a b : Nat} (ha : a < 32 ^ n) (hb : b < 32 ^ n) {s t : String} :
    b32 a n ++ s < b32 b n ++ t ↔ a < b ∨ a = b ∧ s < t := by
  have heq : (b32 a n).toList = (b32 b n).toList ↔ a = b := by
    rw [String.toList_inj]
    exact ⟨b32_inj ha hb, fun h => by rw [h]⟩
  rw [String.lt_iff_toList_lt, String.toList_append, String.toList_append,
    append_lt_append_iff (by simp [b32_toList]), heq, ← String.lt_iff_toList_lt,
    ← String.lt_iff_toList_lt, b32_lt_iff ha hb]

/-- Behind one tag, ids compare by time and then by counter. -/
theorem ulid_lt_iff {tag : String} {ms ms' rand rand' : Nat} (hms : ms < 2 ^ 50)
    (hms' : ms' < 2 ^ 50) (hrand : rand < 2 ^ 80) (hrand' : rand' < 2 ^ 80) :
    ulid tag ms rand < ulid tag ms' rand' ↔ ms < ms' ∨ ms = ms' ∧ rand < rand' := by
  have htime : (2 : Nat) ^ 50 = 32 ^ 10 := by decide
  have hcounter : (2 : Nat) ^ 80 = 32 ^ 16 := by decide
  rw [htime] at hms hms'
  rw [hcounter] at hrand hrand'
  have htail : ∀ head t t' : String, head ++ t < head ++ t' ↔ t < t' := by
    intro head t t'
    refine String.lt_iff_toList_lt.trans (Iff.trans ?_ String.lt_iff_toList_lt.symm)
    rw [String.toList_append, String.toList_append, append_lt_append_iff rfl]
    simp
  have hassoc : ∀ m r, ulid tag m r = tag ++ "_" ++ (b32 m 10 ++ b32 r 16) :=
    fun m r => String.append_assoc
  rw [hassoc, hassoc, htail, b32_append_lt_iff hms hms', b32_lt_iff hrand hrand']

/-! ## Minting -/

/-- What a call of `new_id` reads: the clock, below `2 ^ 50` milliseconds, and the
    80 bits that `randbits` has for it. -/
structure Reading where
  ms : Nat
  bits : Nat
  ms_lt : ms < 2 ^ 50
  bits_lt : bits < 2 ^ 80
  deriving DecidableEq

/-- `_last_ms` and `_last_rand`, as a process starts with them. -/
structure IdClock where
  lastMs : Nat := 0
  lastRand : Nat := 0
  deriving DecidableEq

/-- The locked part of `new_id`. -/
def IdClock.tick (s : IdClock) (r : Reading) : IdClock :=
  if r.ms = s.lastMs then { s with lastRand := s.lastRand + 1 }
  else { lastMs := r.ms, lastRand := r.bits }

def newId (tag : String) (r : Reading) (s : IdClock) : String × IdClock :=
  (ulid tag r.ms (s.tick r).lastRand, s.tick r)

/-- The ids with one tag among those that a process mints, in call order. -/
def idsOf (tag : String) : List (String × Reading) → IdClock → List String
  | [], _ => []
  | (t, r) :: calls, s =>
    if t = tag then (newId t r s).1 :: idsOf tag calls (newId t r s).2
    else idsOf tag calls (newId t r s).2

@[simp] theorem IdClock.tick_lastMs {s : IdClock} {r : Reading} : (s.tick r).lastMs = r.ms := by
  unfold tick
  split
  · exact Eq.symm ‹_›
  · rfl

/-! ## Replay -/

/-- The rows that `journal_rows` hands out. -/
structure ReplayRow where
  episodeId : String
  subject : Subject
  agent : Option Dim
  session : Option Dim
  payload : Episode
  ingestedTo : List (String × List String)
  deriving DecidableEq

def JournalRow.toReplay (j : JournalRow) : ReplayRow where
  episodeId := j.episodeId
  subject := j.subject
  agent := j.agent
  session := j.session
  payload := j.payload
  ingestedTo := j.ingestedTo

/-- The condition of `journal_rows`. -/
def JournalRow.about (tenant subject : String) (j : JournalRow) : Bool :=
  j.tenantId == tenant && j.subject.val == subject

/-- `journal_rows`: `ORDER BY episode_id`. -/
def journalRows (journal : Table journalKeys) (tenant subject : String) : List ReplayRow :=
  ((journal.select (JournalRow.about tenant subject)).mergeSort fun a b =>
    a.episodeId ≤ b.episodeId).map JournalRow.toReplay

end Memgw
