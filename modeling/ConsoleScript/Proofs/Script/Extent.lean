-- SUMMARY: How many statements and which functions a text can give, in whatever scope it is parsed.
import ConsoleScript.Proofs.Script.WellFormed

/-!
# Extents

The same text may be parsed in different scopes, and at different times. Whatever
script comes of it, it has no more statements than the text has lines, and each of
its functions has a name that a line of the text gives.
-/

namespace ConsoleScript

/-- The names of the functions that have begun are those that the lines give. -/
theorem Grouping.steps_mem_names {g g' : Grouping} {entries : List Entry}
    (h : g.steps entries = .ok g') (name : String) :
    name ∈ g'.names ↔
      name ∈ g.names ∨ name ∈ (entries.map Entry.token).filterMap Token.functionName? := by
  induction entries generalizing g with
  | nil =>
    cases h
    simp
  | cons e rest ih =>
    obtain ⟨g₁, hstep, hrest⟩ := steps_cons_eq_ok_iff.mp h
    rw [ih hrest, step_mem_names hstep, List.map_cons]
    cases htoken : e.token.functionName? with
    | none =>
      rw [List.filterMap_cons_none htoken]
      simp
    | some first =>
      rw [List.filterMap_cons_some htoken, List.mem_cons, Option.some_inj, eq_comm]
      simp only [or_left_comm, or_assoc]

namespace Script

variable {now : Int} {scope scope' : Scope} {text : String} {script : Script} {f : Function}

/-- The names that the lines of a text give to functions. -/
def functionNames (text : String) : List String :=
  (tokens text).filterMap Token.functionName?

theorem parse_functionNames (h : parse now scope text = (.ok script, scope'))
    (hf : f ∈ script.functions) : f.name ∈ functionNames text := by
  obtain ⟨entries, g, hread, hsteps, hmade⟩ := parseLines_eq_ok_iff.mp h
  obtain ⟨-, -, hfunctions⟩ := ofGrouping_ok hmade
  have hname : f.name ∈ g.names := by
    rw [← g.closeBlock_names]
    rw [hfunctions, List.mem_reverse] at hf
    exact List.mem_append_right _ (List.mem_map_of_mem hf)
  rcases (Grouping.steps_mem_names hsteps f.name).mp hname with hstart | hline
  · cases hstart
  · rw [readLines_tokens hread] at hline
    exact hline

/-- A statement stands for a line of its own. -/
theorem parse_nodes_length (h : parse now scope text = (.ok script, scope')) :
    script.nodes.length ≤ (Text.lines text).length := by
  obtain ⟨entries, g, hread, hsteps, hmade⟩ := parseLines_eq_ok_iff.mp h
  have hnumbers := congrArg List.length (readLines_numbers hread)
  have hheads := (heads_perm_kept hread hsteps hmade).length_eq
  have hkept := (kept_sublist entries.reverse).length_le
  simp only [List.length_map, List.length_range', List.length_reverse] at hnumbers hheads hkept
  omega

theorem parse_body_length (h : parse now scope text = (.ok script, scope')) :
    (Stmt.nodesAll script.body).length ≤ (Text.lines text).length := by
  have hnodes := parse_nodes_length h
  rw [nodes, List.length_append] at hnodes
  omega

theorem parse_function_length (h : parse now scope text = (.ok script, scope'))
    (hf : f ∈ script.functions) : (Stmt.nodesAll f.body).length ≤ (Text.lines text).length := by
  have hnodes := parse_nodes_length h
  have hsorted : f ∈ script.functionsByName := (sortBy_perm _ _).mem_iff.mpr hf
  have hpart : (Stmt.nodesAll f.body).Sublist
      (script.functionsByName.flatMap fun f => Stmt.nodesAll f.body) :=
    List.sublist_flatten_of_mem (List.mem_map_of_mem hsorted)
  rw [nodes, List.length_append] at hnodes
  have hlength := hpart.length_le
  omega

end Script

end ConsoleScript
