-- SUMMARY: Validation judges every statement of a script, at every depth.
import ConsoleScript.Proofs.Script.Nodes
import ConsoleScript.Script.Validate

/-!
# Findings

Validation goes through the tree of a script by a recursion of its own. Here it is
shown to cover the tree: whatever it finds in a statement, at any depth and in any
function, is among the issues of the script (`mem_validate_of_node`). Only of unset
variables does it report each one once a line.
-/

namespace ConsoleScript

namespace Script

namespace Check

variable {check : Check} {inFunction breakable : Bool}

theorem stmts_eq_flatMap (ss : List Stmt) :
    check.stmts inFunction breakable ss = ss.flatMap (check.stmt inFunction breakable) := by
  induction ss with
  | nil => simp [stmts]
  | cons x rest ih => simp [stmts, ih]

theorem caseBodies_eq_flatMap (cases : List (Case Stmt)) :
    check.caseBodies inFunction cases =
      (cases.map (·.body)).flatMap (check.stmts inFunction true) := by
  induction cases with
  | nil => simp [caseBodies]
  | cons c rest ih =>
    obtain ⟨pattern, first, last, body⟩ := c
    simp [caseBodies, ih]

/-- What is found in a list is found in the statement that owns it. -/
theorem stmts_subset_of_body {x : Stmt} {body : List Stmt} (h : body ∈ x.bodies) :
    ∃ inner, check.stmts inFunction inner body ⊆ check.stmt inFunction breakable x := by
  cases x with
  | plain line => cases h
  | action line a => cases h
  | loop line l own =>
    obtain rfl := List.mem_singleton.mp h
    refine ⟨true, ?_⟩
    rw [stmt]
    exact List.subset_append_right _ _
  | branch line c yes no =>
    refine ⟨breakable, fun issue hissue => ?_⟩
    rw [stmt]
    refine List.mem_append_right _ (List.mem_append.mpr ?_)
    have hown : body = yes ∨ body = no := by simpa [Stmt.bodies] using h
    rcases hown with rfl | rfl
    · exact .inl hissue
    · exact .inr hissue
  | switch line options cases otherwise =>
    refine ⟨true, fun issue hissue => ?_⟩
    rcases List.mem_append.mp h with hcase | hdefault
    · have hcases : issue ∈ check.caseBodies inFunction cases := by
        rw [caseBodies_eq_flatMap]
        exact List.mem_flatMap.mpr ⟨body, hcase, hissue⟩
      cases otherwise <;> simp [stmt, hcases]
    · obtain rfl := Option.mem_toList.mp hdefault
      simp [stmt, hissue]

/-- What is found in a statement is found in every statement around it. Whether a loop
    or a switch is around may differ between the two. -/
theorem stmt_subset_of_node {y : Stmt} (x : Stmt) (breakable : Bool) (h : y ∈ x.nodes) :
    ∃ inner, check.stmt inFunction inner y ⊆ check.stmt inFunction breakable x := by
  rw [Stmt.nodes_eq_cons] at h
  rcases List.mem_cons.mp h with rfl | h
  · exact ⟨breakable, List.Subset.refl _⟩
  · obtain ⟨body, hbody, h⟩ := List.mem_flatMap.mp h
    obtain ⟨z, hz, hy⟩ := Stmt.mem_nodesAll.mp h
    obtain ⟨around, haround⟩ : ∃ around,
        check.stmts inFunction around body ⊆ check.stmt inFunction breakable x :=
      stmts_subset_of_body hbody
    have := Stmt.sizeOf_lt_of_body hbody hz
    obtain ⟨inner, hinner⟩ := stmt_subset_of_node z around hy
    refine ⟨inner, fun issue hissue => haround ?_⟩
    rw [stmts_eq_flatMap]
    exact List.mem_flatMap.mpr ⟨z, hz, hinner hissue⟩
termination_by sizeOf x

theorem stmt_subset_of_nodesAll {y : Stmt} {ss : List Stmt} (breakable : Bool)
    (h : y ∈ Stmt.nodesAll ss) :
    ∃ inner, check.stmt inFunction inner y ⊆ check.stmts inFunction breakable ss := by
  obtain ⟨x, hx, hy⟩ := Stmt.mem_nodesAll.mp h
  obtain ⟨inner, hinner⟩ := stmt_subset_of_node x breakable hy
  refine ⟨inner, fun issue hissue => ?_⟩
  rw [stmts_eq_flatMap]
  exact List.mem_flatMap.mpr ⟨x, hx, hinner hissue⟩

end Check

variable {script : Script} {scope : Scope}

/-- What is known when the script is checked in a scope. -/
def checkIn (script : Script) (scope : Scope) : Check :=
  ⟨scope, script.summary.boundNames, script.functions.map (·.name)⟩

/-- Nothing is left out but unset variables. -/
theorem mem_reportOnce {issue : Issue} (hfinding : ∀ name, issue.finding ≠ .unsetVariable name)
    (seen : List Issue) {issues : List Issue} (h : issue ∈ issues) :
    issue ∈ reportOnce seen issues := by
  fun_induction reportOnce seen issues with
  | case1 => exact h
  | case2 seen head rest name hhead hseen ih =>
    rcases List.mem_cons.mp h with rfl | h
    · exact absurd hhead (hfinding name)
    · exact ih h
  | case3 seen head rest name hhead hseen ih =>
    rcases List.mem_cons.mp h with rfl | h
    · exact List.mem_cons_self
    · exact List.mem_cons_of_mem _ (ih h)
  | case4 seen head rest hhead ih =>
    rcases List.mem_cons.mp h with rfl | h
    · exact List.mem_cons_self
    · exact List.mem_cons_of_mem _ (ih h)

/-- What is found in a statement of a script is among the issues of the script. -/
theorem mem_validate_of_node (scope : Scope) {x : Stmt} (hx : x ∈ script.nodes) :
    ∃ inFunction breakable, ∀ issue ∈ (script.checkIn scope).stmt inFunction breakable x,
      (∀ name, issue.finding ≠ .unsetVariable name) → issue ∈ script.validate scope := by
  rcases List.mem_append.mp hx with hx | hx
  · obtain ⟨inner, hinner⟩ := Check.stmt_subset_of_nodesAll false hx
    refine ⟨false, inner, fun issue hissue hfinding => (sortBy_perm _ _).mem_iff.mpr ?_⟩
    exact mem_reportOnce hfinding [] (List.mem_append_left _ (hinner hissue))
  · obtain ⟨f, hf, hx⟩ := List.mem_flatMap.mp hx
    obtain ⟨inner, hinner⟩ := Check.stmt_subset_of_nodesAll false hx
    refine ⟨true, inner, fun issue hissue hfinding => (sortBy_perm _ _).mem_iff.mpr ?_⟩
    refine mem_reportOnce hfinding [] (List.mem_append_right _ (List.mem_flatMap.mpr ?_))
    exact ⟨f, hf, hinner hissue⟩

/-- A line that lacks its directive is reported. -/
theorem missingDirective_mem_validate {line : Line} (hx : .plain line ∈ script.nodes)
    (hkind : line.kind.isDirective = true) :
    ⟨line.number, .missingDirective⟩ ∈ script.validate scope := by
  obtain ⟨inFunction, breakable, hissues⟩ := mem_validate_of_node scope hx
  refine hissues _ ?_ (by simp)
  cases hk : line.kind <;> simp_all [Check.stmt, LineKind.isDirective, LineKind.isSkipped]

/-- What is wrong with an action by itself is reported, wherever the action stands. -/
theorem actionFinding_mem_validate {line : Line} {a : Action} {finding : Finding}
    (hx : .action line a ∈ script.nodes)
    (hfinding : ∀ breakable, (script.checkIn scope).actionFinding? breakable a = some finding)
    (hset : ∀ name, finding ≠ .unsetVariable name) :
    ⟨line.number, finding⟩ ∈ script.validate scope := by
  obtain ⟨inFunction, breakable, hissues⟩ := mem_validate_of_node scope hx
  refine hissues _ ?_ hset
  simp [Check.stmt, hfinding]

end Script

end ConsoleScript
