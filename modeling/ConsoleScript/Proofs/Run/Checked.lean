-- SUMMARY: A script in which validation finds no error does not fail for what validation looks for.
import ConsoleScript.Proofs.Run.Regimes
import ConsoleScript.Proofs.Script.Findings

/-!
# Runs of scripts that were checked

A script without included files runs its own statements only, and with the functions
that it defines itself. Each of them was judged by validation, with the same keys and
the same functions. So the statements of a script make a regime (`Regime.checked`) in
which no line lacks its directive and no key is unknown, if validation finds no error,
and in which all functions are there, if it misses none.
-/

namespace ConsoleScript

/-! ## Chains of errors -/

/-- An error and all that are inside of it. -/
def RunError.chain : RunError → List RunError
  | atLine line e => atLine line e :: e.chain
  | retryExhausted attempts e => retryExhausted attempts e :: e.chain
  | repeatFailed i n e => repeatFailed i n e :: e.chain
  | e => [e]

/-- All errors of a chain have the same cause. -/
theorem RunError.cause_of_mem_chain {e e' : RunError} (h : e' ∈ e.chain) : e'.cause = e.cause := by
  fun_induction chain e with
  | case1 line e ih =>
    rcases List.mem_cons.mp h with rfl | h
    · rfl
    · exact ih h
  | case2 attempts e ih =>
    rcases List.mem_cons.mp h with rfl | h
    · rfl
    · exact ih h
  | case3 i n e ih =>
    rcases List.mem_cons.mp h with rfl | h
    · rfl
    · exact ih h
  | case4 e _ _ _ => rw [List.mem_singleton.mp h]

/-! ## The regime of a script that was checked -/

/-- The statement includes no file. -/
def Stmt.IncludesNothing (x : Stmt) : Prop := ∀ line path, x ≠ .action line (.includeFile path)

/-- The statements of a script that includes no file, with its functions. -/
def Regime.confined (script : Script) (hinclude : ∀ x ∈ script.nodes, x.IncludesNothing) :
    Regime where
  Allows x := x ∈ script.nodes
  Knows functions := functions = script.functions
  Permits _ := True
  outside _ := trivial
  raised _ _ _ := trivial
  called hknows hf x hx := by
    subst hknows
    exact Script.mem_nodes_of_function hf hx
  included _ hx _ := absurd rfl (hinclude _ hx _ _)

/-- A run of a script that includes no file stays among its statements. -/
theorem Runner.Reaches.confined {σ : Type} {r : Runner σ} {fuel : Nat} {script : Script}
    {s : Session σ} {p : Point σ} (h : r.Reaches (r.beginning fuel script s) p)
    (hinclude : ∀ x ∈ script.nodes, x.IncludesNothing) :
    (∀ x ∈ Stmt.nodesAll p.next, x ∈ script.nodes) ∧ p.session.functions = script.functions :=
  h.regime (g := Regime.confined script hinclude) (fun _ hx => List.mem_append_left _ hx) rfl

namespace Script

variable (script : Script) (scope : Scope)

/-- Validation finds no error in the script. -/
def Valid : Prop := ∀ issue ∈ script.validate scope, issue.isError = false

/-- Validation finds no call of a function that is not there. -/
def Linked : Prop := ∀ issue ∈ script.validate scope, ∀ name, issue.finding ≠ .undefinedFunction name

variable {script scope} {line : Line}

theorem Valid.not_isDirective (h : script.Valid scope) (hx : .plain line ∈ script.nodes) :
    line.kind.isDirective = false := by
  refine Bool.eq_false_iff.mpr fun hkind => ?_
  cases h _ (missingDirective_mem_validate hx hkind)

theorem Valid.ofName?_ne_none (h : script.Valid scope) {name : String}
    (hx : .action line (.key name) ∈ script.nodes) : KeyCode.ofName? name ≠ none := by
  intro hunknown
  have hfinding : ∀ breakable, (script.checkIn scope).actionFinding? breakable (.key name) =
      some (.unknownKey name) := by
    simp [Check.actionFinding?, KeyCode.isKnown, hunknown]
  cases h _ (actionFinding_mem_validate hx hfinding (by simp))

theorem Linked.find?_ne_none (h : script.Linked scope) {name : String} {args : List String}
    (hx : .action line (.call name args) ∈ script.nodes) :
    script.functions.find? (·.name == name) ≠ none := by
  intro hnone
  have hmissing : name ∉ script.functions.map (·.name) := by
    intro hmem
    obtain ⟨f, hf, rfl⟩ := List.mem_map.mp hmem
    simpa using List.find?_eq_none.mp hnone f hf
  have hfinding : ∀ breakable, (script.checkIn scope).actionFinding? breakable (.call name args) =
      some (.undefinedFunction name) := by
    simp [Check.actionFinding?, checkIn, hmissing]
  exact h _ (actionFinding_mem_validate hx hfinding (by simp)) name rfl

end Script

/-- The statements of a script in which validation finds no error, with its functions. -/
def Regime.checked (script : Script) (scope : Scope) (hvalid : script.Valid scope)
    (hinclude : ∀ x ∈ script.nodes, x.IncludesNothing) : Regime where
  Allows x := x ∈ script.nodes
  Knows functions := functions = script.functions
  Permits e := e ≠ .missingDirective ∧ (∀ name, e ≠ .unknownKey name) ∧
    (script.Linked scope → ∀ name, e ≠ .undefinedFunction name)
  outside h := by
    refine ⟨?_, ?_, ?_⟩
    · rintro rfl
      cases h
    · rintro name rfl
      cases h
    · rintro - name rfl
      cases h
  raised hknows hx h := by
    subst hknows
    refine ⟨?_, ?_, ?_⟩
    · rintro rfl
      cases h with
      | unread hkind => simp [hvalid.not_isDirective hx] at hkind
    · rintro name rfl
      cases h with
      | key hunknown => exact hvalid.ofName?_ne_none hx hunknown
    · rintro hlinked name rfl
      cases h with
      | call hundefined => exact hlinked.find?_ne_none hx hundefined
  called hknows hf x hx := by
    subst hknows
    exact Script.mem_nodes_of_function hf hx
  included _ hx _ := absurd rfl (hinclude _ hx _ _)

namespace Runner

/-- A script that includes no file, and in which validation finds no error in some
    scope, never fails for a line without its directive or for an unknown key, however
    deep in an error that would be. If validation also finds no call of a function that
    is not there, it never fails for that. -/
theorem checked_script_runs_clean {script : Script} {scope : Scope}
    (hinclude : ∀ x ∈ script.nodes, x.IncludesNothing)
    (hvalid : ∀ issue ∈ script.validate scope, issue.isError = false) {σ : Type} (r : Runner σ)
    {fuel : Nat} {s t : Session σ} {report : Report} {e : RunError}
    (hrun : r.execute fuel script s = some (report, t)) (he : report.error = some e) :
    (∀ e' ∈ e.chain, e' ≠ .missingDirective ∧ ∀ name, e' ≠ .unknownKey name) ∧
    ((∀ issue ∈ script.validate scope, ∀ name, issue.finding ≠ .undefinedFunction name) →
      ∀ e' ∈ e.chain, ∀ name, e' ≠ .undefinedFunction name) := by
  have hbody : (Regime.checked script scope hvalid hinclude).AdmitsAll script.body :=
    fun x hx => List.mem_append_left _ hx
  have hcause : e.cause ≠ .missingDirective ∧ (∀ name, e.cause ≠ .unknownKey name) ∧
      (script.Linked scope → ∀ name, e.cause ≠ .undefinedFunction name) := by
    rcases execute_permits hbody rfl hrun he with hpermits | ⟨issues, rfl⟩
    · exact hpermits
    · simp [RunError.cause]
  obtain ⟨hdirective, hkey, hfunction⟩ := hcause
  refine ⟨fun e' he' => ⟨?_, ?_⟩, fun hlinked e' he' => ?_⟩
  · rintro rfl
    exact hdirective (RunError.cause_of_mem_chain he').symm
  · rintro name rfl
    exact hkey name (RunError.cause_of_mem_chain he').symm
  · rintro name rfl
    exact hfunction hlinked name (RunError.cause_of_mem_chain he').symm

/-- An attempt to call a function that presses a key and waits in vain. -/
def waitsInVain : Script where
  body := [.loop ⟨5, "", "", "", .directive, none⟩ (.retry 1)
    [.action ⟨6, "", "", "", .directive, none⟩ (.call "login" [])]]
  functions := [⟨"login", 1, 4, [.action ⟨2, "", "", "", .directive, none⟩ (.key "enter"),
    .action ⟨3, "", "", "", .directive, none⟩ (.watch "login:" (some 1000))]⟩]
  summary := .of [] []

/-- It is valid, and fails for another cause, three levels deep. -/
theorem checked_script_runs_clean_vain :
    let r := Runner.ticking 0 [] 9000
    ∃ report t e, r.execute 9 waitsInVain (.start .empty 0) = some (report, t) ∧
      report.error = some e ∧ e.chain.length = 4 ∧
      (∀ e' ∈ e.chain, e' ≠ .missingDirective ∧ ∀ name, e' ≠ .unknownKey name) ∧
      ∀ e' ∈ e.chain, ∀ name, e' ≠ .undefinedFunction name := by
  intro r
  have hinclude : ∀ x ∈ waitsInVain.nodes, x.IncludesNothing := by
    intro x hx line path heq
    subst heq
    simp [waitsInVain, Script.nodes, Script.functionsByName, sortBy, insertBy, Stmt.nodes] at hx
  have hissues : waitsInVain.validate .empty = [] := by
    decide +kernel
  have hvalid : ∀ issue ∈ waitsInVain.validate .empty, issue.isError = false := by
    simp [hissues]
  have hfails : ((r.execute 9 waitsInVain (.start .empty 0)).bind fun result =>
      result.1.error.map fun e => e.chain.length) = some 4 := by
    decide +kernel
  obtain ⟨⟨report, t⟩, hrun, herror⟩ := Option.bind_eq_some_iff.mp hfails
  obtain ⟨e, he, hlength⟩ := Option.map_eq_some_iff.mp herror
  obtain ⟨herrors, hlinked⟩ := checked_script_runs_clean hinclude hvalid r hrun he
  exact ⟨report, t, e, hrun, he, hlength, herrors, hlinked (by simp [hissues])⟩

end Runner

end ConsoleScript
