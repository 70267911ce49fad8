-- SUMMARY: Texts without control flow: each line is a statement of its own.
import ConsoleScript.Proofs.Script.WellFormed

/-!
# Straight lines

Texts, assignments, `<set>`, blank lines and comments own no other line and open nothing.
A text that is made of such lines only is always a script, with one statement for each
line (`parseLines_straight`).
-/

namespace ConsoleScript

namespace Line

/-- Whether a line is a text, an assignment, a `<set>`, a blank line or a comment. -/
def isStraight (raw : String) : Bool :=
  match classify (Text.trim raw) with
  | .directive | .conditional =>
    match Directive.read (content (Text.trim raw)) with
    | .ok (.action (.bind _ _)) => true
    | _ => false
  | _ => true

end Line

/-- What the entry holds is a `<set>`, if it holds a directive. -/
def Entry.IsStraight (e : Entry) : Prop :=
  ∀ d, e.directive = some d → ∃ name value, d = .action (.bind name value)

/-- The statement of an entry that owns no other line. -/
def Entry.stmt (e : Entry) : Stmt :=
  match e.directive with
  | some (.action a) => .action e.line a
  | _ => .plain e.line

namespace Line

variable {now : Int} {scope scope' : Scope} {n : Nat} {raw : String} {e : Entry}

theorem exists_bind_of_isStraight (h : isStraight raw = true)
    (hkind : (classify (Text.trim raw)).isDirective = true) :
    ∃ name value, Directive.read (content (Text.trim raw)) = .ok (.action (.bind name value)) := by
  unfold isStraight at h
  split at h
  case h_3 hnone hother =>
    cases hclass : classify (Text.trim raw) with
    | directive => exact absurd hclass hnone
    | conditional => exact absurd hclass hother
    | _ => rw [hclass] at hkind; cases hkind
  all_goals
    split at h
    case h_1 name value hread => exact ⟨name, value, hread⟩
    case h_2 => cases h

theorem readable_of_isStraight (h : isStraight raw = true) : Readable raw := by
  intro hkind
  obtain ⟨name, value, hread⟩ := exists_bind_of_isStraight h hkind
  exact ⟨_, hread⟩

theorem isStraight_of_read (h : isStraight raw = true)
    (hread : read now scope n raw = (.ok e, scope')) : e.IsStraight := by
  intro d hd
  cases hkind : classify (Text.trim raw) with
  | blank | comment | text =>
    simp only [read, hkind] at hread
    cases hread
    cases hd
  | assignment =>
    simp only [read, hkind] at hread
    split at hread
    · cases hread
      cases hd
    · cases hread
      cases hd
  | directive | conditional =>
    obtain ⟨name, value, hset⟩ := exists_bind_of_isStraight h (by rw [hkind]; rfl)
    simp only [read, hkind, hset] at hread
    cases hread
    cases hd
    exact ⟨name, value, rfl⟩

end Line

namespace Grouping

theorem step_straight {e : Entry} (he : e.IsStraight) (items : List Stmt)
    (functions : List Function) :
    step ⟨items, none, [], functions⟩ e = .ok ⟨e.stmt :: items, none, [], functions⟩ := by
  obtain ⟨line, _ | d⟩ := e
  · simp [step, place, item, Entry.stmt, push]
  · obtain ⟨name, value, rfl⟩ := he d rfl
    rfl

theorem steps_straight {entries : List Entry} (h : ∀ e ∈ entries, e.IsStraight)
    (items : List Stmt) (functions : List Function) :
    steps ⟨items, none, [], functions⟩ entries =
      .ok ⟨(entries.map Entry.stmt).reverse ++ items, none, [], functions⟩ := by
  induction entries generalizing items with
  | nil => rfl
  | cons e rest ih =>
    obtain ⟨he, hrest⟩ := List.forall_mem_cons.mp h
    rw [steps, step_straight he]
    simp [ih hrest]

end Grouping

namespace Script

/-- The script of entries that own no other line. -/
def ofStraight (entries : List Entry) : Script :=
  ⟨entries.map Entry.stmt, [], Summary.of entries []⟩

/-- Lines of these kinds always make a script. -/
theorem parseLines_straight (now : Int) (scope : Scope) {raws : List String}
    (h : ∀ raw ∈ raws, Line.isStraight raw = true) :
    ∃ entries scope', readLines now scope 1 raws = (.ok entries, scope') ∧
      (∀ e ∈ entries, e.IsStraight) ∧
      parseLines now scope raws = (.ok (ofStraight entries), scope') := by
  obtain ⟨entries, scope', hread⟩ :
      ∃ entries scope', readLines now scope 1 raws = (.ok entries, scope') :=
    readLines_isOk_iff.mpr fun raw hraw => Line.readable_of_isStraight (h raw hraw)
  have hstraight : ∀ e ∈ entries, e.IsStraight :=
    readLines_forall_mem (fun raw hraw => Line.isStraight_of_read (h raw hraw)) hread
  refine ⟨entries, scope', hread, hstraight, parseLines_eq_ok_iff.mpr ⟨entries, _, hread,
    Grouping.steps_straight hstraight [] [], ?_⟩⟩
  simp [ofGrouping, Grouping.finish, Grouping.closeBlock, ofStraight]

end Script

end ConsoleScript
