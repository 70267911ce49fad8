-- SUMMARY: Sorted names as sets, and the summaries of scripts that stand one after the other.
import ConsoleScript.Stmt

/-!
# Names and summaries

The names in a summary are sorted, and each stands once. So they are what they are as a
set (`sortedNames_congr`), and the summary of lines that stand after others can be told
from the summaries of both (`Summary.of_append`).
-/

namespace ConsoleScript

theorem nodup_eraseDups {α : Type} [BEq α] [LawfulBEq α] (as : List α) : as.eraseDups.Nodup := by
  match as with
  | [] => simp
  | a :: rest =>
    have := List.length_filter_le (fun b => !b == a) rest
    rw [List.eraseDups_cons, List.nodup_cons]
    exact ⟨by simp, nodup_eraseDups (rest.filter fun b => !b == a)⟩
termination_by as.length

theorem mem_sortedNames {name : String} {names : List String} :
    name ∈ sortedNames names ↔ name ∈ names := by
  rw [sortedNames, sortNames, (sortBy_perm _ _).mem_iff, List.mem_eraseDups]

theorem sortedNames_pairwise (names : List String) : (sortedNames names).Pairwise (· ≤ ·) := by
  have htrans : ∀ a b c : String, decide (a ≤ b) = true → decide (b ≤ c) = true →
      decide (a ≤ c) = true := by
    simpa using fun a b c => String.le_trans
  have htotal : ∀ a b : String, decide (a ≤ b) = true ∨ decide (b ≤ a) = true := by
    simpa using String.le_total
  exact (sortBy_pairwise htrans htotal names.eraseDups).imp of_decide_eq_true

/-- Names that are the same as a set are the same when they are sorted. -/
theorem sortedNames_congr {names names' : List String} (h : ∀ name, name ∈ names ↔ name ∈ names') :
    sortedNames names = sortedNames names' := by
  have hperm : (sortedNames names).Perm (sortedNames names') := by
    refine (sortBy_perm _ _).trans (.trans ?_ (sortBy_perm _ _).symm)
    rw [List.perm_ext_iff_of_nodup (nodup_eraseDups _) (nodup_eraseDups _)]
    simpa using h
  exact hperm.eq_of_pairwise (fun _ _ _ _ hab hba => String.le_antisymm hab hba)
    (sortedNames_pairwise names) (sortedNames_pairwise names')

namespace Summary

/-- The summary of lines and of others that stand after them. -/
def add (a b : Summary) : Summary where
  total := a.total + b.total
  text := a.text + b.text
  directive := a.directive + b.directive
  assignment := a.assignment + b.assignment
  comment := a.comment + b.comment
  blank := a.blank + b.blank
  boundNames := sortedNames (a.boundNames ++ b.boundNames)
  functions := sortedNames (a.functions ++ b.functions)

theorem of_append (entries entries' : List Entry) (functions functions' : List String) :
    Summary.of (entries ++ entries') (functions ++ functions') =
      (Summary.of entries functions).add (Summary.of entries' functions') := by
  have hnames : ∀ names names' : List String, sortedNames (names ++ names') =
      sortedNames (sortedNames names ++ sortedNames names') :=
    fun names names' => sortedNames_congr (by simp [mem_sortedNames])
  simp only [of, add, List.length_append, List.countP_append, List.filterMap_append,
    hnames (entries.filterMap _), hnames functions]

end Summary

end ConsoleScript
