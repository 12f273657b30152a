-- SUMMARY: When a composite key is split into the parts that it was made of, and when into others.
import Memgw.Server.ParseScope

/-!
# Composite keys

A key is made by putting a text in the place of each placeholder of a format. It may
split along the format in other ways than the one it was made in, and `parse_scope`
takes the split whose earlier parts are longer. Nothing looks for a second one.
-/

namespace Memgw.ParseScope

open Pattern

/-! ## Keys -/

/-- A value for a dimension: not blank, nothing to strip, no slash. -/
abbrev Segment := { s : String // s ≠ "" ∧ Text.strip s = s ∧ '/' ∉ s.toList }

/-- The characters of each dimension's value. -/
def partsOf (values : ScopeDim → Segment) (dim : ScopeDim) : List Char := (values dim).val.toList

/-- The key that the values make in a format. -/
def keyOf (fmt : String) (values : ScopeDim → Segment) : String :=
  String.ofList (render (partsOf values) (pattern fmt))

/-- The value of a dimension that the format names. -/
def assignedDim (fmt : String) (values : ScopeDim → Segment) (dim : ScopeDim) : Option Dim :=
  if dim ∈ fields (pattern fmt) then some ⟨(values dim).val, (values dim).2.1, (values dim).2.2.1⟩
  else none

/-- The scope with exactly the values that the key was made of, and no tenant. -/
def assigned (fmt : String) (values : ScopeDim → Segment) : Scope where
  subject := ⟨(values .subject).val, by rw [(values .subject).2.2.1]; exact (values .subject).2.1⟩
  agent := assignedDim fmt values .agent
  session := assignedDim fmt values .session

/-- The part for the subject is blank, which no scope takes. -/
def BlankSubject (found : Taken Char ScopeDim) : Prop :=
  ∀ subject ∈ found.lookup .subject, Text.stripChars subject = []

section

variable {fmt : String} {values : ScopeDim → Segment}

theorem stripChars_partsOf (values : ScopeDim → Segment) (dim : ScopeDim) :
    Text.stripChars (partsOf values dim) = partsOf values dim := by
  simpa [Text.strip, partsOf] using congrArg String.toList (values dim).2.2.1

theorem partsOf_ne_nil (values : ScopeDim → Segment) (dim : ScopeDim) :
    partsOf values dim ≠ [] := by
  intro h
  exact (values dim).2.1 (String.toList_injective (by simpa [partsOf] using h))

theorem head_partsOf {dim : ScopeDim} {c : Char} (hc : c ∈ (partsOf values dim).head?) :
    Text.isSpace c = false := by
  rw [← stripChars_partsOf values dim] at hc
  exact Text.head?_stripChars hc

/-- The values split what they are rendered into. -/
theorem splits_values (values : ScopeDim → Segment) (ts : List (Token Char ScopeDim)) :
    Splits notSlash ts (taken (partsOf values) ts) (render (partsOf values) ts) := by
  refine splits_render (partsOf_ne_nil values) fun dim c hc => ?_
  have hne : c ≠ '/' := fun h => (values dim).2.2.2 (h ▸ hc)
  simpa [notSlash] using hne

theorem head_taken {ts : List (Token Char ScopeDim)} : ∀ part ∈ taken (partsOf values) ts,
    ∀ c ∈ part.2.head?, Text.isSpace c = false := by
  intro part hpart c hc
  rw [(mem_taken_iff.mp hpart).2] at hc
  exact head_partsOf hc

/-! ## Other splits -/

variable {ts : List (Token Char ScopeDim)} {found : Taken Char ScopeDim} {s : List Char}

/-- The parts are the values, up to what is stripped, but for the tenant's. -/
def Trims (values : ScopeDim → Segment) (found : Taken Char ScopeDim) : Prop :=
  ∀ part ∈ found, part.1 ≠ .tenant → Text.stripChars part.2 = partsOf values part.1

theorem Trims.length_le (h : Trims values found) (hsplits : Splits notSlash ts found s)
    (htenant : .tenant ∉ fields ts) : (render (partsOf values) ts).length ≤ s.length := by
  induction hsplits with
  | nil => exact le_refl _
  | lit _ ih => exact Nat.succ_le_succ (ih h htenant)
  | @field dim x ts found s _ _ _ ih =>
    have hrest := ih (fun part hpart => h part (List.mem_cons_of_mem _ hpart))
      fun hmem => htenant (List.mem_cons_of_mem _ hmem)
    have hpart : Text.stripChars x = partsOf values dim :=
      h (dim, x) List.mem_cons_self fun hdim => htenant (hdim ▸ List.mem_cons_self)
    have hlen := Text.length_stripChars_le x
    rw [hpart] at hlen
    simp only [render, List.length_append]
    omega

/-- No split that strips to the values beats theirs. Where it first takes more, it takes
    whitespace that the rest of the key would have to start with, or it takes more for
    the tenant, and the other parts are no shorter. -/
theorem Trims.not_beats (h : Trims values found) (hsplits : Splits notSlash ts found s)
    (hs : s = render (partsOf values) ts) (honce : (fields ts).Nodup) :
    ¬ Beats found (taken (partsOf values) ts) := by
  induction hsplits with
  | nil => exact fun hbeats => nomatch hbeats
  | lit _ ih =>
    obtain hs := List.cons.inj hs
    exact ih h hs.2 honce
  | @field dim x ts found s hne hok hsplits ih =>
    have hrest : Trims values found := fun part hpart => h part (List.mem_cons_of_mem _ hpart)
    obtain ⟨hfresh, honce⟩ := List.nodup_cons.mp honce
    simp only [render] at hs
    rintro (hlt | hbeats)
    · obtain ⟨y, rfl, hy⟩ : ∃ y, x = partsOf values dim ++ y ∧
          render (partsOf values) ts = y ++ s := by
        rcases List.append_eq_append_iff.mp hs with ⟨y, hvalue, -⟩ | ⟨y, hx, hy⟩
        · have := congrArg List.length hvalue
          simp only [List.length_append] at this
          omega
        · exact ⟨y, hx, hy⟩
      have hlong : y ≠ [] := by
        rintro rfl
        simp at hlt
      by_cases hdim : dim = .tenant
      · have := hrest.length_le hsplits (hdim ▸ hfresh)
        have hy := congrArg List.length hy
        have := List.length_pos_of_ne_nil hlong
        simp only [List.length_append] at hy
        omega
      · have hspace := Text.isSpace_of_stripChars_append (h _ List.mem_cons_self hdim)
          (partsOf_ne_nil values dim)
        exact hlong ((splits_values values ts).no_shift hsplits
          (bars_of_heads head_taken) hy hspace)
    · exact ih hrest (List.append_cancel_left hs) honce hbeats

/-! ## Scopes -/

theorem parseScope_eq_ok_iff (honce : (fields (pattern fmt)).Nodup) {key : String} {scope : Scope} :
    parseScope key fmt = .ok scope ↔
      ∃ found, Foremost notSlash (pattern fmt) key.toList found ∧
        scopeOf fmt found = .ok scope := by
  rw [parseScope, if_pos honce]
  cases hfound : greedy notSlash (pattern fmt) key.toList with
  | none =>
    constructor
    · intro h
      cases h
    · rintro ⟨found, hforemost, -⟩
      rw [greedy_eq_some_iff.mpr hforemost] at hfound
      cases hfound
  | some found =>
    constructor
    · exact fun h => ⟨found, greedy_eq_some_iff.mp hfound, h⟩
    · rintro ⟨found', hforemost, hscope⟩
      obtain rfl := hforemost.unique (greedy_eq_some_iff.mp hfound)
      exact hscope

theorem get_of_mem {dim : ScopeDim} {x : List Char} (honce : (found.map Prod.fst).Nodup)
    (hmem : (dim, x) ∈ found) : found.lookup dim = some x := by
  obtain ⟨front, back, rfl⟩ := List.append_of_mem hmem
  refine List.lookup_eq_some_iff.mpr ⟨front, back, rfl, fun part hpart => ?_⟩
  rw [List.map_append, List.map_cons, List.nodup_append] at honce
  have hne := honce.2.2 part.1 (List.mem_map_of_mem hpart) dim List.mem_cons_self
  simpa using hne.symm

theorem requireSubject_eq_ok_iff {text : String} : requireSubject fmt found = .ok text ↔
    Found.get found .subject = some text ∧ text ≠ "" := by
  rw [requireSubject]
  cases hget : (Found.get found .subject).filter (· != "") with
  | none =>
    have hnone := Option.filter_eq_none_iff.mp hget
    constructor
    · intro h
      cases h
    · rintro ⟨htext, hne⟩
      exact absurd (hnone text htext) (by simpa using hne)
  | some text' =>
    obtain ⟨htext, hne⟩ := Option.filter_eq_some_iff.mp hget
    constructor
    · intro h
      obtain rfl := Except.ok.inj h
      exact ⟨htext, by simpa using hne⟩
    · rintro ⟨htext', -⟩
      exact congrArg _ (Option.some.inj (htext.symm.trans htext'))

theorem subjectMustBeReal_eq_some_iff {text : String} {subject : Subject} :
    subjectMustBeReal text = some subject ↔ text = subject.val := by
  constructor
  · intro h
    rw [subjectMustBeReal] at h
    split at h
    · obtain rfl := Option.some.inj h
      rfl
    · cases h
  · rintro rfl
    exact subjectMustBeReal_val subject

theorem scopeOf_eq_ok_iff {scope : Scope} : scopeOf fmt found = .ok scope ↔
    Found.get found .subject = some scope.subject.val ∧
      scope = { subject := scope.subject, agent := blankIsNone (Found.get found .agent),
                session := blankIsNone (Found.get found .session) } := by
  simp only [scopeOf, bind_ok_iff, requireSubject_eq_ok_iff, validationError_ok_iff,
    subjectMustBeReal_eq_some_iff]
  constructor
  · rintro ⟨text, ⟨hget, -⟩, subject, rfl, hscope⟩
    obtain rfl := Except.ok.inj hscope
    exact ⟨hget, rfl⟩
  · rintro ⟨hget, hscope⟩
    have hne : scope.subject.val ≠ "" := fun h => scope.subject.2 (by rw [h]; rfl)
    exact ⟨_, ⟨hget, hne⟩, scope.subject, rfl, congrArg Except.ok hscope.symm⟩

theorem blankIsNone_eq_some_iff {text : String} {dim : Dim} :
    blankIsNone (some text) = some dim ↔ Text.strip text = dim.val := by
  rw [blankIsNone]
  split
  · rw [Option.some.injEq, Subtype.ext_iff]
  · rename_i hblank
    refine ⟨fun h => (by cases h), fun h => absurd ?_ hblank⟩
    rw [h]
    exact dim.2.1

theorem get_taken (honce : (fields ts).Nodup) (dim : ScopeDim) :
    Found.get (taken (partsOf values) ts) dim =
      if dim ∈ fields ts then some (values dim).val else none := by
  rw [Found.get]
  split
  · rename_i hmem
    have hkeys : ((taken (partsOf values) ts).map Prod.fst).Nodup := by
      rwa [(splits_values values ts).fields]
    have hpart : (dim, partsOf values dim) ∈ taken (partsOf values) ts :=
      mem_taken_iff.mpr ⟨hmem, rfl⟩
    rw [get_of_mem hkeys hpart]
    exact congrArg some String.ofList_toList
  · rename_i hmem
    rw [Option.map_eq_none_iff, List.lookup_eq_none_iff]
    intro part hpart
    have hne : dim ≠ part.1 := fun h => hmem (h ▸ (mem_taken_iff.mp hpart).1)
    simpa using hne

/-- The values make the scope that they are assigned to. -/
theorem scopeOf_taken (honce : (fields (pattern fmt)).Nodup)
    (hsubject : .subject ∈ fields (pattern fmt)) :
    scopeOf fmt (taken (partsOf values) (pattern fmt)) = .ok (assigned fmt values) := by
  have hdim : ∀ dim, blankIsNone (Found.get (taken (partsOf values) (pattern fmt)) dim) =
      assignedDim fmt values dim := by
    intro dim
    rw [get_taken honce, assignedDim]
    split
    · exact blankIsNone_eq_some_iff.mpr (values dim).2.2.1
    · rfl
  refine scopeOf_eq_ok_iff.mpr ⟨?_, ?_⟩
  · rw [get_taken honce, if_pos hsubject]
    rfl
  · rw [hdim, hdim]
    rfl

/-- Parts that make the scope of the values are the values, up to what is stripped. -/
theorem trims_of_scopeOf (honce : (fields (pattern fmt)).Nodup)
    (hsplits : Splits notSlash (pattern fmt) found s)
    (hscope : scopeOf fmt found = .ok (assigned fmt values)) : Trims values found := by
  obtain ⟨hsubject, hdims⟩ := scopeOf_eq_ok_iff.mp hscope
  have hget : ∀ part ∈ found, Found.get found part.1 = some (String.ofList part.2) ∧
      part.1 ∈ fields (pattern fmt) := by
    intro part hpart
    rw [Found.get, get_of_mem (hsplits.fields ▸ honce) hpart, ← hsplits.fields]
    exact ⟨rfl, List.mem_map_of_mem hpart⟩
  have hstrip : ∀ part ∈ found,
      blankIsNone (Found.get found part.1) = assignedDim fmt values part.1 →
        Text.stripChars part.2 = partsOf values part.1 := by
    intro part hpart hvalue
    obtain ⟨hpartGet, hnamed⟩ := hget part hpart
    rw [hpartGet, assignedDim, if_pos hnamed, blankIsNone_eq_some_iff] at hvalue
    simpa [Text.strip, partsOf] using congrArg String.toList hvalue
  rintro ⟨dim, x⟩ hpart hdim
  cases dim with
  | tenant => exact absurd rfl hdim
  | subject =>
    have hvalue := (hget _ hpart).1.symm.trans hsubject
    have hx : x = partsOf values .subject := by
      simpa [assigned, partsOf] using congrArg String.toList (Option.some.inj hvalue)
    rw [hx]
    exact stripChars_partsOf values .subject
  | agent => exact hstrip _ hpart (congrArg Scope.agent hdims).symm
  | session => exact hstrip _ hpart (congrArg Scope.session hdims).symm

/-- A blank subject is what keeps a match from making a scope. -/
theorem exists_scopeOf_iff :
    (∃ scope, scopeOf fmt found = .ok scope) ↔ ¬ BlankSubject found := by
  simp only [BlankSubject, Option.mem_def, not_forall, exists_prop]
  constructor
  · rintro ⟨scope, hscope⟩
    obtain ⟨x, hx, htext⟩ := Option.map_eq_some_iff.mp (scopeOf_eq_ok_iff.mp hscope).1
    refine ⟨x, hx, fun hblank => scope.subject.2 ?_⟩
    rw [← htext, Text.strip, String.toList_ofList, hblank]
  · rintro ⟨x, hx, hreal⟩
    have hsubject : Text.strip (String.ofList x) ≠ "" := fun h =>
      hreal (by simpa [Text.strip] using congrArg String.toList h)
    refine ⟨{
      subject := ⟨String.ofList x, hsubject⟩
      agent := blankIsNone (Found.get found .agent)
      session := blankIsNone (Found.get found .session) }, scopeOf_eq_ok_iff.mpr ⟨?_, rfl⟩⟩
    rw [Found.get, hx]
    rfl

/-- A key comes apart into the scope that it was made of, if into any, exactly when the
    foremost of its splits is the one it was made in, or has a blank subject. With a slash
    between any two placeholders it always does. -/
theorem parseScope_assigned_iff (hsubject : (fields (pattern fmt)).count .subject = 1)
    (honce : ∀ dim, (fields (pattern fmt)).count dim ≤ 1) :
    ((∀ scope, parseScope (keyOf fmt values) fmt = .ok scope → scope = assigned fmt values) ↔
      ∀ found, Foremost notSlash (pattern fmt) (keyOf fmt values).toList found →
        found = taken (partsOf values) (pattern fmt) ∨ BlankSubject found) ∧
    (Separated notSlash (pattern fmt) →
      parseScope (keyOf fmt values) fmt = .ok (assigned fmt values)) := by
  have hnodup : (fields (pattern fmt)).Nodup := List.nodup_iff_count.mpr honce
  have hnamed : .subject ∈ fields (pattern fmt) := List.count_pos_iff.mp (by omega)
  have hkey : (keyOf fmt values).toList = render (partsOf values) (pattern fmt) :=
    String.toList_ofList
  have hvalues := splits_values values (pattern fmt)
  simp only [parseScope_eq_ok_iff hnodup, hkey]
  refine ⟨⟨fun h found hforemost => ?_, fun h scope hparsed => ?_⟩, fun hsep => ?_⟩
  · rw [or_iff_not_imp_right]
    intro hreal
    obtain ⟨scope, hscope⟩ := exists_scopeOf_iff.mpr hreal
    obtain rfl := h scope ⟨found, hforemost, hscope⟩
    have htrims := trims_of_scopeOf hnodup hforemost.1 hscope
    rcases hforemost.2 _ hvalues with heq | hbeats
    · exact heq.symm
    · exact absurd hbeats (htrims.not_beats hforemost.1 rfl hnodup)
  · obtain ⟨found, hforemost, hscope⟩ := hparsed
    rcases h found hforemost with rfl | hblank
    · rw [scopeOf_taken hnodup hnamed] at hscope
      exact (Except.ok.inj hscope).symm
    · exact absurd hblank (exists_scopeOf_iff.mp ⟨scope, hscope⟩)
  · exact ⟨_, hvalues.foremost hsep, scopeOf_taken hnodup hnamed⟩

end

/-! ## Two formats -/

def slashed : String := "\x7btenant\x7d/\x7bsubject\x7d/\x7bsession\x7d"

def hyphened : String := "\x7bsubject\x7d-\x7bsession\x7d"

/-- A subject that has no hyphen, and a session that has one. -/
def hyphenSession : ScopeDim → Segment
  | .session => ⟨"b-c", by decide⟩
  | _ => ⟨"a", by decide⟩

theorem slashed_key_comes_apart :
    parseScope (keyOf slashed hyphenSession) slashed = .ok (assigned slashed hyphenSession) :=
  (parseScope_assigned_iff (by decide) (fun dim => by cases dim <;> decide)).2 (by decide)

/-- The hyphen of the session is taken for the one before it. -/
theorem hyphened_key_misattributed :
    (fields (pattern hyphened)).count .subject = 1 ∧
      (∀ dim, (fields (pattern hyphened)).count dim ≤ 1) ∧
      parseScope (keyOf hyphened hyphenSession) hyphened =
        .ok { subject := ⟨"a-b", by decide⟩, session := some ⟨"c", by decide⟩ } ∧
      assigned hyphened hyphenSession =
        { subject := ⟨"a", by decide⟩, session := some ⟨"b-c", by decide⟩ } := by
  refine ⟨by decide, fun dim => ?_, by rfl, by decide⟩
  cases dim <;> decide

end Memgw.ParseScope
