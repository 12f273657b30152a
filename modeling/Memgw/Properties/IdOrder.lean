-- SUMMARY: When ids sort in the order they were minted, and the journal replays in the order it was written.
import Memgw.Gateway.Ids
import Mathlib.Data.List.Sort

/-!
# The order of ids

Numerals of base 32 order ids by time and counter. So ids sort in call order as long
as the clock does not step back and no millisecond counts past its 80 bits; the
journal, which is read back in the order of its ids, then replays as it was written.
-/

namespace Memgw

/-! ## The encoding -/

theorem base32_orders :
    (∀ n value, (b32 value n).length = n ∧ ∀ c ∈ (b32 value n).toList, c ∈ crockford) ∧
    (∀ n a b, a < 32 ^ n → b < 32 ^ n →
      (b32 a n = b32 b n → a = b) ∧ (b32 a n < b32 b n ↔ a < b)) ∧
    ∀ ms ms' rand rand', ms < 2 ^ 50 → ms' < 2 ^ 50 → rand < 2 ^ 80 → rand' < 2 ^ 80 →
      (b32 ms 10 ++ b32 rand 16 < b32 ms' 10 ++ b32 rand' 16 ↔
        ms < ms' ∨ ms = ms' ∧ rand < rand') ∧
      ∀ tag, ulid tag ms rand < ulid tag ms' rand' ↔ ms < ms' ∨ ms = ms' ∧ rand < rand' := by
  refine ⟨fun n value => ⟨?_, ?_⟩, ?_, ?_⟩
  · rw [← String.length_toList, b32_toList, length_numeral]
  · intro c hc
    rw [b32_toList] at hc
    obtain ⟨d, hd, rfl⟩ := mem_numeral (by decide) hc
    exact crockfordDigit_mem hd
  · intro n a b ha hb
    exact ⟨b32_inj ha hb, b32_lt_iff ha hb⟩
  · intro ms ms' rand rand' hms hms' hrand hrand'
    have htime : (2 : Nat) ^ 50 = 32 ^ 10 := by decide
    have hcounter : (2 : Nat) ^ 80 = 32 ^ 16 := by decide
    refine ⟨?_, fun tag => ulid_lt_iff hms hms' hrand hrand'⟩
    rw [b32_append_lt_iff (htime ▸ hms) (htime ▸ hms'),
      b32_lt_iff (hcounter ▸ hrand) (hcounter ▸ hrand')]

/-- The last digit carries: `0Z` is before `10`. -/
theorem base32_orders_carry : b32 31 2 = "0Z" ∧ b32 32 2 = "10" ∧ b32 31 2 < b32 32 2 :=
  ⟨by decide, by decide, ((base32_orders.2.1 2 31 32 (by decide) (by decide)).2).mpr (by decide)⟩

/-! ## The clock and the counter -/

/-- The readings under which ids sort in call order: the clock never steps back, and
    the first reading of a millisecond leaves room above its bits for those that
    follow at the same one. Millisecond 0 is where a process starts, and its counter
    starts there at 0. -/
structure Chronological (readings : List Reading) : Prop where
  forward : readings.Pairwise (·.ms ≤ ·.ms)
  room : ∀ before r after, readings = before ++ r :: after → r.ms ≠ 0 →
    (∀ b ∈ before, b.ms ≠ r.ms) → r.bits + after.countP (·.ms == r.ms) < 2 ^ 80
  epoch : readings.countP (·.ms == 0) < 2 ^ 80

/-- Every call moves the clock, or the counter within its 80 bits, upwards. -/
def IdClock.Climbs : IdClock → List Reading → Prop
  | _, [] => True
  | s, r :: readings =>
    s.lastMs ≤ r.ms ∧ (r.ms = s.lastMs → s.lastRand + 1 < 2 ^ 80) ∧ (s.tick r).Climbs readings

/-- Room above the first bits of a millisecond, for milliseconds other than `ms`. -/
private def RoomBeyond (ms : Nat) (readings : List Reading) : Prop :=
  ∀ before r after, readings = before ++ r :: after → r.ms ≠ ms →
    (∀ b ∈ before, b.ms ≠ r.ms) → r.bits + after.countP (·.ms == r.ms) < 2 ^ 80

private theorem roomBeyond_same {ms : Nat} {q : Reading} {readings : List Reading}
    (hq : q.ms = ms) : RoomBeyond ms (q :: readings) ↔ RoomBeyond ms readings := by
  constructor
  · intro h before r after hsplit hr hbefore
    refine h (q :: before) r after (by rw [hsplit, List.cons_append]) hr ?_
    exact List.forall_mem_cons.mpr ⟨fun h => hr (h.symm.trans hq), hbefore⟩
  · intro h before r after hsplit hr hbefore
    cases before with
    | nil =>
      obtain ⟨rfl, -⟩ := List.cons.inj hsplit
      exact absurd hq hr
    | cons b before =>
      obtain ⟨rfl, htail⟩ := List.cons.inj hsplit
      exact h before r after htail hr (List.forall_mem_cons.mp hbefore).2

private theorem roomBeyond_later {ms : Nat} {q : Reading} {readings : List Reading}
    (hq : ms < q.ms) (hlater : ∀ r ∈ readings, q.ms ≤ r.ms) :
    RoomBeyond ms (q :: readings) ↔
      q.bits + readings.countP (·.ms == q.ms) < 2 ^ 80 ∧ RoomBeyond q.ms readings := by
  constructor
  · intro h
    refine ⟨h [] q readings rfl (by omega) (by simp), ?_⟩
    intro before r after hsplit hr hbefore
    have hmem : r ∈ readings := hsplit ▸ List.mem_append_right before (List.mem_cons_self ..)
    have hle := hlater r hmem
    refine h (q :: before) r after (by rw [hsplit, List.cons_append]) (by omega) ?_
    exact List.forall_mem_cons.mpr ⟨fun h => hr h.symm, hbefore⟩
  · rintro ⟨hfirst, h⟩ before r after hsplit hr hbefore
    cases before with
    | nil =>
      obtain ⟨rfl, rfl⟩ := List.cons.inj hsplit
      exact hfirst
    | cons b before =>
      obtain ⟨rfl, htail⟩ := List.cons.inj hsplit
      obtain ⟨hb, hbefore⟩ := List.forall_mem_cons.mp hbefore
      exact h before r after htail (Ne.symm hb) hbefore

/-- Climbing, read off the readings that are still to come. -/
private theorem climbs_iff {s : IdClock} {readings : List Reading} (hs : s.lastRand < 2 ^ 80) :
    s.Climbs readings ↔
      (∀ r ∈ readings, s.lastMs ≤ r.ms) ∧ readings.Pairwise (·.ms ≤ ·.ms) ∧
        RoomBeyond s.lastMs readings ∧
        s.lastRand + readings.countP (·.ms == s.lastMs) < 2 ^ 80 := by
  induction readings generalizing s with
  | nil => simpa [IdClock.Climbs, RoomBeyond] using hs
  | cons q readings ih =>
    rw [IdClock.Climbs]
    rcases lt_trichotomy q.ms s.lastMs with hq | hq | hq
    · simp only [List.forall_mem_cons]
      omega
    · -- The same millisecond again: the counter goes up by one.
      have htick : s.tick q = { s with lastRand := s.lastRand + 1 } := if_pos hq
      rw [htick, roomBeyond_same hq, List.forall_mem_cons, List.pairwise_cons,
        List.countP_cons_of_pos (by simpa using hq)]
      constructor
      · rintro ⟨-, hroom, hrest⟩
        obtain ⟨hle, hforward, hbeyond, hcount⟩ := (ih (hroom hq)).mp hrest
        exact ⟨⟨hq.ge, hle⟩, ⟨by simpa [hq] using hle, hforward⟩, hbeyond, by
          simp only at hcount; omega⟩
      · rintro ⟨⟨-, hle⟩, ⟨-, hforward⟩, hbeyond, hcount⟩
        have hroom : s.lastRand + 1 < 2 ^ 80 := by omega
        refine ⟨hq.ge, fun _ => hroom, (ih hroom).mpr ⟨hle, hforward, hbeyond, ?_⟩⟩
        simp only
        omega
    · -- A later millisecond: the counter starts at its bits.
      have htick : s.tick q = { lastMs := q.ms, lastRand := q.bits } := if_neg (by omega)
      have hih := @ih { lastMs := q.ms, lastRand := q.bits } q.bits_lt
      simp only at hih
      rw [htick, hih, List.forall_mem_cons, List.pairwise_cons]
      constructor
      · rintro ⟨-, -, hle, hforward, hbeyond, hcount⟩
        have hnone : (q :: readings).countP (·.ms == s.lastMs) = 0 := by
          refine List.countP_eq_zero.mpr (List.forall_mem_cons.mpr ⟨?_, fun r hr => ?_⟩)
          · simpa using (by omega : q.ms ≠ s.lastMs)
          · have := hle r hr
            simpa using (by omega : r.ms ≠ s.lastMs)
        refine ⟨⟨hq.le, fun r hr => hq.le.trans (hle r hr)⟩, ⟨hle, hforward⟩,
          (roomBeyond_later hq hle).mpr ⟨hcount, hbeyond⟩, ?_⟩
        rwa [hnone]
      · rintro ⟨⟨-, -⟩, ⟨hle, hforward⟩, hbeyond, -⟩
        obtain ⟨hcount, hbeyond⟩ := (roomBeyond_later hq hle).mp hbeyond
        exact ⟨hq.le, by omega, hle, hforward, hbeyond, hcount⟩

/-- From the start of a process, climbing is a condition on the readings. -/
theorem climbs_start_iff {readings : List Reading} :
    IdClock.Climbs {} readings ↔ Chronological readings := by
  rw [climbs_iff (by decide)]
  constructor
  · rintro ⟨-, hforward, hroom, hepoch⟩
    exact ⟨hforward, hroom, by simpa using hepoch⟩
  · rintro ⟨hforward, hroom, hepoch⟩
    exact ⟨fun _ _ => Nat.zero_le _, hforward, hroom, by simpa using hepoch⟩

/-! ## Ids in call order -/

/-- The counter fits its 80 bits, and the time its 50. -/
def IdClock.Fits (s : IdClock) : Prop := s.lastMs < 2 ^ 50 ∧ s.lastRand < 2 ^ 80

theorem IdClock.fits_tick {s : IdClock} {r : Reading}
    (hroom : r.ms = s.lastMs → s.lastRand + 1 < 2 ^ 80) : (s.tick r).Fits := by
  refine ⟨by rw [tick_lastMs]; exact r.ms_lt, ?_⟩
  by_cases hr : r.ms = s.lastMs
  · rw [tick, if_pos hr]
    exact hroom hr
  · rw [tick, if_neg hr]
    exact r.bits_lt

/-- The id of a state, `last` of those minted so far. -/
def IdClock.last (tag : String) (s : IdClock) : String := ulid tag s.lastMs s.lastRand

theorem newId_eq {tag : String} {r : Reading} {s : IdClock} :
    newId tag r s = ((s.tick r).last tag, s.tick r) := by
  rw [newId, IdClock.last, IdClock.tick_lastMs]

/-- One call mints a larger id exactly when it climbs. At the end of its 80 bits the
    counter starts again from 0. -/
theorem last_lt_tick_iff {tag : String} {s : IdClock} {r : Reading} (hs : s.Fits) :
    s.last tag < (s.tick r).last tag ↔
      s.lastMs ≤ r.ms ∧ (r.ms = s.lastMs → s.lastRand + 1 < 2 ^ 80) := by
  obtain ⟨hms, hrand⟩ := hs
  by_cases hr : r.ms = s.lastMs
  · have htick : s.tick r = { s with lastRand := s.lastRand + 1 } := if_pos hr
    rw [htick, IdClock.last, IdClock.last]
    by_cases hroom : s.lastRand + 1 < 2 ^ 80
    · rw [ulid_lt_iff hms hms hrand hroom]
      simp only [lt_irrefl, false_or, true_and]
      omega
    · have hwrap : ulid tag s.lastMs (s.lastRand + 1) = ulid tag s.lastMs 0 := by
        have hend : s.lastRand + 1 = 2 ^ 80 := by omega
        rw [ulid, ← b32_wrap, hend, Nat.mod_self, ulid]
      rw [hwrap, ulid_lt_iff hms hms hrand (by decide)]
      omega
  · have htick : s.tick r = { lastMs := r.ms, lastRand := r.bits } := if_neg hr
    rw [htick, IdClock.last, IdClock.last, ulid_lt_iff hms r.ms_lt hrand r.bits_lt]
    omega

private theorem idsOf_chain_iff {tag : String} {s : IdClock} {readings : List Reading}
    (hs : s.Fits) :
    (s.last tag :: idsOf tag (readings.map (tag, ·)) s).IsChain (· < ·) ↔ s.Climbs readings := by
  induction readings generalizing s with
  | nil => simp [idsOf, IdClock.Climbs]
  | cons r readings ih =>
    rw [List.map_cons, idsOf, if_pos rfl, newId_eq, List.isChain_cons_cons,
      last_lt_tick_iff hs, IdClock.Climbs, and_assoc]
    refine and_congr_right fun _ => and_congr_right fun hroom => ?_
    exact ih (IdClock.fits_tick hroom)

/-- Among the calls of a process that carry one tag only, ids sort in call order
    exactly under chronological readings. -/
theorem idsOf_sorted_iff {tag : String} {readings : List Reading} :
    (idsOf tag (readings.map (tag, ·)) {}).Pairwise (· < ·) ↔ Chronological readings := by
  rw [← climbs_start_iff, ← List.isChain_iff_pairwise]
  cases readings with
  | nil => simp [idsOf, IdClock.Climbs]
  | cons r readings =>
    have hroom : r.ms = IdClock.lastMs {} → IdClock.lastRand {} + 1 < 2 ^ 80 := fun _ => by decide
    rw [List.map_cons, idsOf, if_pos rfl, newId_eq, idsOf_chain_iff (IdClock.fits_tick hroom),
      IdClock.Climbs]
    exact ⟨fun h => ⟨Nat.zero_le _, hroom, h⟩, fun h => h.2.2⟩

/-- Calls with other tags in between do no harm. -/
theorem idsOf_sorted {tag : String} {s : IdClock} {calls : List (String × Reading)} (hs : s.Fits)
    (h : s.Climbs (calls.map Prod.snd)) :
    (∀ id ∈ idsOf tag calls s, s.last tag < id) ∧ (idsOf tag calls s).Pairwise (· < ·) := by
  induction calls generalizing s with
  | nil => exact ⟨by simp [idsOf], by simp [idsOf]⟩
  | cons call calls ih =>
    obtain ⟨t, r⟩ := call
    obtain ⟨hle, hroom, hrest⟩ := h
    have hstep : s.last tag < (s.tick r).last tag := (last_lt_tick_iff hs).mpr ⟨hle, hroom⟩
    obtain ⟨habove, hsorted⟩ := ih (IdClock.fits_tick hroom) hrest
    rw [idsOf, newId_eq]
    split
    · rename_i ht
      subst ht
      refine ⟨List.forall_mem_cons.mpr ⟨hstep, fun id hid => ?_⟩, .cons habove hsorted⟩
      exact hstep.trans (habove id hid)
    · exact ⟨fun id hid => hstep.trans (habove id hid), hsorted⟩

/-! ## The journal -/

/-- A journal whose ids ascend is read back in the order of its rows. -/
theorem journalRows_of_sorted {journal : Table journalKeys}
    (h : (journal.rows.map JournalRow.episodeId).Pairwise (· < ·)) (tenant subject : String) :
    journalRows journal tenant subject =
      (journal.select (JournalRow.about tenant subject)).map JournalRow.toReplay := by
  rw [journalRows, List.mergeSort_of_pairwise]
  have hrows := (List.pairwise_map.mp h).filter (JournalRow.about tenant subject)
  exact hrows.imp fun hab => by simpa using hab.le

/-- The other way round, for a journal about one subject. -/
theorem sorted_of_journalRows {journal : Table journalKeys} {tenant subject : String}
    (hall : ∀ j ∈ journal, j.about tenant subject = true)
    (h : journalRows journal tenant subject = journal.rows.map JournalRow.toReplay) :
    (journal.rows.map JournalRow.episodeId).Pairwise (· < ·) := by
  have hselect : journal.select (JournalRow.about tenant subject) = journal.rows :=
    List.filter_eq_self.mpr hall
  have hids : ((journal.rows.mergeSort fun a b => a.episodeId ≤ b.episodeId).map
      JournalRow.episodeId) = journal.rows.map JournalRow.episodeId := by
    have := congrArg (List.map ReplayRow.episodeId) h
    rwa [journalRows, hselect, List.map_map, List.map_map] at this
  have hsorted : (journal.rows.mergeSort fun a b => a.episodeId ≤ b.episodeId).Pairwise
      fun a b => a.episodeId ≤ b.episodeId := by
    have := @List.pairwise_mergeSort _ (fun a b : JournalRow => a.episodeId ≤ b.episodeId)
      (fun a b c hab hbc => by simpa using (of_decide_eq_true hab).trans (of_decide_eq_true hbc))
      (fun a b => by simpa using le_total a.episodeId b.episodeId) journal.rows
    exact this.imp fun hab => of_decide_eq_true hab
  have hle : (journal.rows.map JournalRow.episodeId).Pairwise (· ≤ ·) := by
    rw [← hids]
    exact List.pairwise_map.mpr hsorted
  have hne : (journal.rows.map JournalRow.episodeId).Pairwise (· ≠ ·) := by
    refine List.pairwise_map.mpr (journal.unique.imp fun {a b} hab heq => ?_)
    exact hab (fun r => [r.episodeId]) (by simp [journalKeys]) (by simp [heq])
  exact (hle.and hne).imp fun hab => lt_of_le_of_ne hab.1 hab.2

/-- Ids sort in call order, and a journal replays in the order it was written, exactly
    under chronological readings. What other tags are minted in between, and which
    rows are deleted again, makes no difference. -/
theorem ids_sort_iff_chronological (readings : List Reading) :
    (∀ tag, (idsOf tag (readings.map (tag, ·)) {}).Pairwise (· < ·) ↔ Chronological readings) ∧
    (∀ (journal : Table journalKeys) tenant subject,
      journal.rows.map JournalRow.episodeId = idsOf "ep" (readings.map ("ep", ·)) {} →
      (∀ j ∈ journal, j.about tenant subject = true) →
      (journalRows journal tenant subject = journal.rows.map JournalRow.toReplay ↔
        Chronological readings)) ∧
    ∀ calls : List (String × Reading), calls.map Prod.snd = readings → Chronological readings →
      (∀ tag, (idsOf tag calls {}).Pairwise (· < ·)) ∧
      ∀ (journal : Table journalKeys) tenant subject,
        (journal.rows.map JournalRow.episodeId).Sublist (idsOf "ep" calls {}) →
        journalRows journal tenant subject =
          (journal.select (JournalRow.about tenant subject)).map JournalRow.toReplay := by
  refine ⟨fun _ => idsOf_sorted_iff, ?_, ?_⟩
  · intro journal tenant subject hids hall
    rw [← @idsOf_sorted_iff "ep", ← hids]
    refine ⟨sorted_of_journalRows hall, fun hsorted => ?_⟩
    rw [journalRows_of_sorted hsorted, Table.select, List.filter_eq_self.mpr hall]
  · rintro calls rfl hcalls
    have hsorted : ∀ tag, (idsOf tag calls {}).Pairwise (· < ·) := fun tag =>
      (idsOf_sorted ⟨by decide, by decide⟩ (climbs_start_iff.mpr hcalls)).2
    refine ⟨hsorted, fun journal tenant subject hids => ?_⟩
    exact journalRows_of_sorted ((hsorted "ep").sublist hids) tenant subject

/-- The row of an episode about `alice`, written at a reading. -/
def episodeAt (ms rand : Nat) : JournalRow where
  episodeId := ulid "ep" ms rand
  tenantId := "acme"
  subject := ⟨"alice", by decide⟩
  agent := none
  session := none
  payload := { text := some "hello", exactlyOneSource := by decide
               messagesNonempty := Episode.noMessages, textNotBlank := by simp; decide }
  ingestedTo := []
  createdAt := 0

/-- Two episodes of one millisecond. -/
theorem two_episodes_replay :
    journalRows ⟨[episodeAt 91 7, episodeAt 91 8], by decide⟩ "acme" "alice" =
      [(episodeAt 91 7).toReplay, (episodeAt 91 8).toReplay] := by
  have hcalls : Chronological [⟨91, 7, by decide, by decide⟩, ⟨91, 0, by decide, by decide⟩] :=
    climbs_start_iff.mp (by simp [IdClock.Climbs, IdClock.tick])
  exact ((ids_sort_iff_chronological _).2.1 ⟨[episodeAt 91 7, episodeAt 91 8], by decide⟩ "acme"
    "alice" rfl (by decide)).mpr hcalls

/-- The clock steps back by one millisecond, and the later id sorts before the
    earlier one. -/
theorem clock_steps_back :
    ¬ ∀ tag (readings : List Reading),
      (idsOf tag (readings.map (tag, ·)) {}).Pairwise (· < ·) := by
  intro h
  have hback := idsOf_sorted_iff.mp
    (h "ep" [⟨5, 0, by decide, by decide⟩, ⟨4, 0, by decide, by decide⟩])
  simpa using hback.forward

end Memgw
