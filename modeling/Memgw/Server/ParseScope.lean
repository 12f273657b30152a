-- SUMMARY: `Memory.parse_scope`: a format as a pattern, a key matched against it, and the scope read off the match.
import Memgw.Library.Patterns
import Memgw.Server.Client
import Memgw.Settings.Settings

/-!
# Composite keys

A caller may hold one key for what are several dimensions of a scope. `parse_scope`
splits the key along a format with a placeholder for each dimension, and makes a scope
of the parts. The tenant's part is read and dropped.
-/

namespace Memgw.ParseScope

open Pattern

/-- The dimensions in the order in which their placeholders are looked for. -/
def dims : List ScopeDim := [.tenant, .subject, .agent, .session]

/-- The text of a dimension's placeholder. -/
def placeholderText (dim : ScopeDim) : List Char := '{' :: (dim.name.toList ++ ['}'])

/-- The placeholder as `re.escape` leaves it: characters that match themselves. -/
def placeholder (dim : ScopeDim) : List (Token Char ScopeDim) :=
  (placeholderText dim).map .lit

/-- The regular expression of a format: its escaped text, with a group in the place of
    each placeholder. -/
def pattern (fmt : String) : List (Token Char ScopeDim) :=
  dims.foldl (fun pattern dim => replaceFrom (placeholder dim) [.field dim] 0 pattern)
    (fmt.toList.map .lit)

/-- `[^/]`. -/
def notSlash (c : Char) : Bool := c != '/'

/-- `found.get(dim)`. -/
def Found.get (found : Taken Char ScopeDim) (dim : ScopeDim) : Option String :=
  (found.lookup dim).map String.ofList

/-- The part for the subject, which must be there. -/
def requireSubject (fmt : String) (found : Taken Char ScopeDim) : Except Exc String :=
  match (Found.get found .subject).filter (· != "") with
  | none => .error (valueError
      (Text.quoted fmt ++ " has no \x7bsubject\x7d, which is the one required dimension"))
  | some subject => .ok subject

/-- The scope that the parts of a key make. -/
def scopeOf (fmt : String) (found : Taken Char ScopeDim) : Except Exc Scope := do
  let text ← requireSubject fmt found
  let subject ← validationError (subjectMustBeReal text)
  return {
    subject := subject
    agent := blankIsNone (Found.get found .agent)
    session := blankIsNone (Found.get found .session) }

/-- `parse_scope`. A group may not be named twice, which `re` says when it compiles the
    expression, in words of its own. -/
def parseScope (key fmt : String) : Except Exc Scope :=
  if (fields (pattern fmt)).Nodup then
    match greedy notSlash (pattern fmt) key.toList with
    | none => .error (valueError (Text.quoted key ++ " does not match " ++ Text.quoted fmt))
    | some found => scopeOf fmt found
  else .error (.other "error" "redefinition of group name")

/-! ## Formats -/

/-- With every dimension's own placeholder in its place, a pattern renders as the format
    that it was made from. -/
theorem render_pattern (fmt : String) : render placeholderText (pattern fmt) = fmt.toList := by
  have hlits : ∀ cs : List Char,
      render placeholderText (cs.map (Token.lit (φ := ScopeDim))) = cs := by
    intro cs
    induction cs with
    | nil => rfl
    | cons c cs ih => simp only [List.map_cons, render, ih]
  have hfold : ∀ (dims : List ScopeDim) (ts : List (Token Char ScopeDim)),
      render placeholderText (dims.foldl (fun pattern dim =>
        replaceFrom (placeholder dim) [.field dim] 0 pattern) ts) = render placeholderText ts := by
    intro dims
    induction dims with
    | nil => exact fun _ => rfl
    | cons dim dims ih =>
      intro ts
      rw [List.foldl_cons, ih]
      refine render_replaceFrom (by simp [placeholder, placeholderText]) ?_ 0 ts
      rw [placeholder, hlits]
      simp only [render, List.append_nil]
  rw [pattern, hfold, hlits]

end Memgw.ParseScope
