-- SUMMARY: What JSON carries, and how the fields of an object are written and read back.
import Memgw.Gateway.Errors

/-!
# JSON

A body travels as the values that JSON has. The standard encoder refuses an object
that holds anything else, and names the type of the first such value. The text of a
body is left out: encoding and decoding it gives back the values.

A schema reads the fields of an object one by one. A field is required, has a
default, or may be null, and what is written for it reads back as what it was.
-/

namespace Memgw

/-! ## What JSON carries -/

mutual

/-- The type of the first value that the standard encoder has no JSON for. -/
def Value.foreign : Value → Option String
  | .null | .bool _ | .int _ | .float _ | .str _ => none
  | .list values => values.foreign
  | .dict entries => entries.foreign
  | .time _ => some "datetime"
  | .other type _ => some type

def Values.foreign : Values → Option String
  | .nil => none
  | .cons value values => value.foreign.or values.foreign

def Entries.foreign : Entries → Option String
  | .nil => none
  | .cons _ value entries => value.foreign.or entries.foreign

end

def Values.toList : Values → List Value
  | .nil => []
  | .cons value values => value :: values.toList

def Entries.toList : Entries → Fields
  | .nil => []
  | .cons key value entries => (key, value) :: entries.toList

def Entries.ofList : Fields → Entries
  | [] => .nil
  | (key, value) :: fields => .cons key value (ofList fields)

@[simp] theorem Values.toList_ofList (values : List Value) :
    (Values.ofList values).toList = values := by
  induction values with
  | nil => rfl
  | cons value values ih => exact congrArg (value :: ·) ih

@[simp] theorem Entries.toList_ofList (fields : Fields) :
    (Entries.ofList fields).toList = fields := by
  induction fields with
  | nil => rfl
  | cons field fields ih => exact congrArg (field :: ·) ih

/-- A JSON object. -/
def Value.obj (fields : Fields) : Value := .dict (.ofList fields)

/-- The fields hold nothing that JSON does not have. -/
def IsJson (fields : Fields) : Prop := (Value.obj fields).foreign = none

instance (fields : Fields) : Decidable (IsJson fields) := inferInstanceAs (Decidable (_ = none))

@[simp] theorem isJson_nil : IsJson [] := rfl

@[simp] theorem isJson_cons {field : String × Value} {fields : Fields} :
    IsJson (field :: fields) ↔ field.2.foreign = none ∧ IsJson fields :=
  Option.or_eq_none_iff

@[simp] theorem foreign_obj {fields : Fields} :
    (Value.obj fields).foreign = none ↔ IsJson fields := Iff.rfl

@[simp] theorem foreign_list {values : List Value} :
    (Value.list (.ofList values)).foreign = none ↔ ∀ value ∈ values, value.foreign = none := by
  induction values with
  | nil => simp [Value.foreign, Values.ofList, Values.foreign]
  | cons value values ih =>
    rw [List.forall_mem_cons, ← ih]
    exact Option.or_eq_none_iff

/-- `json.dumps`, of which only the refusal matters. -/
def jsonDumps (fields : Fields) : Except Exc Fields :=
  match (Value.obj fields).foreign with
  | none => .ok fields
  | some type => .error (.other "TypeError" s!"Object of type {type} is not JSON serializable")

theorem jsonDumps_ok {fields : Fields} (h : IsJson fields) : jsonDumps fields = .ok fields := by
  have h : (Value.obj fields).foreign = none := h
  rw [jsonDumps, h]

theorem jsonDumps_error {fields : Fields} (h : ¬ IsJson fields) :
    ∃ text, jsonDumps fields = .error (.other "TypeError" text) := by
  unfold jsonDumps
  split
  · rename_i hnone
    exact absurd hnone h
  · exact ⟨_, rfl⟩

/-! ## Fields -/

section

variable {α : Type} {read : Value → Option α} {write : α → Value}

def Value.str? : Value → Option String
  | .str s => some s
  | _ => none

def Value.fields? : Value → Option Fields
  | .dict entries => some entries.toList
  | _ => none

@[simp] theorem Value.str?_str (s : String) : (Value.str s).str? = some s := rfl

@[simp] theorem Value.fields?_obj (fields : Fields) : (Value.obj fields).fields? = some fields :=
  congrArg some (Entries.toList_ofList fields)

/-- `list[T]`. -/
def listOf (read : Value → Option α) : Value → Option (List α)
  | .list values => values.toList.mapM read
  | _ => none

/-- `T | None`. -/
def nullable (read : Value → Option α) : Value → Option (Option α)
  | .null => some none
  | value => (read value).map some

def orNull (write : α → Value) (x : Option α) : Value := (x.map write).getD .null

/-- `name: T`. -/
def required (fields : Fields) (name : String) (read : Value → Option α) : Option α :=
  (fields.lookup name).bind read

/-- `name: T = default`. -/
def withDefault (fields : Fields) (name : String) (default : α) (read : Value → Option α) :
    Option α :=
  match fields.lookup name with
  | none => some default
  | some value => read value

/-- `name: T | None = None`. -/
def optional (fields : Fields) (name : String) (read : Value → Option α) : Option (Option α) :=
  withDefault fields name none (nullable read)

theorem exists_of_mem_mapM {β : Type} {f : α → Option β} {as : List α} {bs : List β}
    (h : as.mapM f = some bs) {b : β} (hb : b ∈ bs) : ∃ a ∈ as, f a = some b := by
  induction as generalizing bs with
  | nil =>
    obtain rfl : [] = bs := Option.some.inj h
    cases hb
  | cons a as ih =>
    simp only [List.mapM_cons, Option.bind_eq_bind, Option.pure_def, Option.bind_eq_some_iff,
      Option.some.injEq] at h
    obtain ⟨b', hb', bs', hbs', rfl⟩ := h
    rcases List.mem_cons.mp hb with rfl | hb
    · exact ⟨a, List.mem_cons_self .., hb'⟩
    · obtain ⟨a', ha', hfa⟩ := ih hbs' hb
      exact ⟨a', List.mem_cons_of_mem a ha', hfa⟩

theorem listOf_map {values : List α} (h : ∀ a ∈ values, read (write a) = some a) :
    listOf read (.list (.ofList (values.map write))) = some values := by
  show (Values.ofList (values.map write)).toList.mapM read = some values
  rw [Values.toList_ofList]
  induction values with
  | nil => rfl
  | cons a values ih =>
    obtain ⟨ha, hrest⟩ := List.forall_mem_cons.mp h
    rw [List.map_cons, List.mapM_cons, ha, ih hrest]
    rfl

theorem nullable_of_ne {value : Value} (h : value ≠ .null) :
    nullable read value = (read value).map some := by
  cases value with
  | null => exact absurd rfl h
  | _ => rfl

theorem nullable_orNull {x : Option α} (hne : ∀ a, write a ≠ .null)
    (h : ∀ a ∈ x, read (write a) = some a) : nullable read (orNull write x) = some x := by
  cases x with
  | none => rfl
  | some a =>
    show nullable read (write a) = _
    rw [nullable_of_ne (hne a), h a rfl]
    rfl

theorem orNull_foreign {x : Option α} (h : ∀ a, (write a).foreign = none) :
    (orNull write x).foreign = none := by
  cases x with
  | none => rfl
  | some a => exact h a

end

end Memgw
