-- SUMMARY: One layer of string variables.
import ConsoleScript.Sort

/-!
# Variables

A layer of variables is a table from names to texts. Names keep the order in
which they were first bound. `get?` is the view through which every operation
is described.
-/

namespace ConsoleScript

/-- One layer of variables, in the order in which they were first bound. -/
structure Variables where
  entries : List (String × String)
  deriving DecidableEq, Repr

namespace Variables

/-- No variables. -/
def empty : Variables := ⟨[]⟩

instance : Inhabited Variables := ⟨empty⟩

/-- The value of a name. -/
def get? (vars : Variables) (name : String) : Option String :=
  vars.entries.lookup name

/-- Whether a name is bound. -/
def contains (vars : Variables) (name : String) : Bool :=
  (vars.get? name).isSome

/-- The entries with `name` bound to `value`. -/
def setEntry (name value : String) : List (String × String) → List (String × String)
  | [] => [(name, value)]
  | (n, v) :: rest => if name == n then (n, value) :: rest else (n, v) :: setEntry name value rest

/-- Binds a name, in the place of its old value if it had one. -/
def set (vars : Variables) (name value : String) : Variables :=
  ⟨setEntry name value vars.entries⟩

/-- Forgets a name. -/
def unset (vars : Variables) (name : String) : Variables :=
  ⟨vars.entries.filter fun entry => entry.1 != name⟩

/-- The variables bound one after the other. -/
def ofList (entries : List (String × String)) : Variables :=
  entries.foldl (fun vars entry => vars.set entry.1 entry.2) empty

/-- Binds everything that `other` binds. -/
def merge (vars other : Variables) : Variables :=
  other.entries.foldl (fun vars entry => vars.set entry.1 entry.2) vars

/-- The bound names in the order of their code points. -/
def names (vars : Variables) : List String :=
  sortNames (vars.entries.map Prod.fst)

/-- The number of bound names. -/
def size (vars : Variables) : Nat := vars.entries.length

/-- Whether no name is bound. -/
def isEmpty (vars : Variables) : Bool := vars.entries.isEmpty

-- ---------------------------------------------------------------------------
-- The view
-- ---------------------------------------------------------------------------

@[simp] theorem get?_empty (name : String) : empty.get? name = none := rfl

theorem lookup_setEntry (name value other : String) (entries : List (String × String)) :
    (setEntry name value entries).lookup other =
      if other == name then some value else entries.lookup other := by
  induction entries with
  | nil => by_cases h : other == name <;> simp [setEntry, List.lookup_cons, h]
  | cons entry rest ih =>
    obtain ⟨n, v⟩ := entry
    by_cases hn : name = n
    · subst hn
      by_cases ho : other == name <;> simp [setEntry, List.lookup_cons, ho]
    · by_cases ho : other = n
      · subst ho
        simp [setEntry, hn, Ne.symm hn]
      · have hno : (other == n) = false := by simpa using ho
        have hnn : (name == n) = false := by simpa using hn
        simp [setEntry, List.lookup_cons, hno, hnn, ih]

/-- A bound name has its last value and every other name the value it had. -/
@[simp] theorem get?_set (vars : Variables) (name value other : String) :
    (vars.set name value).get? other = if other == name then some value else vars.get? other :=
  lookup_setEntry name value other vars.entries

end Variables

end ConsoleScript
