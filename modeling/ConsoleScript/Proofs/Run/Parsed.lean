-- SUMMARY: A script that was parsed is well formed, and so is everything that a run of it comes to.
import ConsoleScript.Proofs.Run.Regimes
import ConsoleScript.Proofs.Script.WellFormed

/-!
# Runs of scripts that were parsed

The statements of well-formed scripts make a regime: a statement without a
directive is then no line that should have one, and an included file is parsed
before it runs. So a run of a script that was parsed does not fail for want of a
directive, and meets no statement that is out of place (`parsed_script_runs_neat`).
-/

namespace ConsoleScript

/-- A line without a directive is not one that should have been read as one. -/
theorem Stmt.Neat.not_isDirective {line : Line} (h : (Stmt.plain line).Neat) :
    line.kind.isDirective = false :=
  Eq.symm h.consistent.directive

namespace Script.WellFormed

variable {script : Script}

theorem neat_of_body (h : script.WellFormed) : ∀ x ∈ Stmt.nodesAll script.body, x.Neat :=
  fun x hx => h.neat x (List.mem_append_left _ hx)

theorem neat_of_function (h : script.WellFormed) {f : Function} (hf : f ∈ script.functions) :
    ∀ x ∈ Stmt.nodesAll f.body, x.Neat :=
  fun x hx => h.neat x (mem_nodes_of_function hf hx)

end Script.WellFormed

/-- The statements of scripts that were parsed. They fail for any cause but a
    directive that is missing. -/
def Regime.parsed : Regime where
  Allows x := x.Neat
  Knows functions := ∀ f ∈ functions, ∀ x ∈ Stmt.nodesAll f.body, x.Neat
  Permits e := e ≠ .missingDirective
  outside h := by
    rintro rfl
    cases h
  raised _ hx h := by
    rintro rfl
    cases h with
    | unread directive =>
      rw [hx.not_isDirective] at directive
      cases directive
  called h hf := h _ hf
  included h _ hparse := by
    have hscript := Script.parse_wellFormed hparse
    refine ⟨fun f hf => ?_, hscript.neat_of_body⟩
    rcases List.mem_append.mp hf with hf | hf
    · exact hscript.neat_of_function hf
    · exact h f hf

namespace Runner

open Script (parse)

/-- A script that was parsed is well formed. A run of it does not fail for want
    of a directive, whatever files it includes, and the statements at each point
    that it comes to are neat. -/
theorem parsed_script_runs_neat {now : Int} {scope scope' : Scope} {text : String}
    {script : Script} (h : parse now scope text = (.ok script, scope')) :
    script.WellFormed ∧ ∀ {σ : Type} (r : Runner σ) (fuel : Nat) (s : Session σ),
      (∀ report t, r.execute fuel script s = some (report, t) →
        ∀ e, report.error = some e → e.cause ≠ .missingDirective) ∧
      ∀ p, r.Reaches (r.beginning fuel script s) p → ∀ x ∈ p.next, x.Neat := by
  have hscript := Script.parse_wellFormed h
  have hbody : Regime.parsed.AdmitsAll script.body := hscript.neat_of_body
  have hfunctions : Regime.parsed.Knows script.functions :=
    fun f hf => hscript.neat_of_function hf
  refine ⟨hscript, fun r fuel s => ⟨?_, ?_⟩⟩
  · intro report t hrun e he
    rcases execute_permits hbody hfunctions hrun he with hpermits | ⟨issues, rfl⟩
    · exact hpermits
    · exact fun heq => by cases heq
  · intro p hp x hx
    have hnext := (hp.regime hbody hfunctions).1
    exact hnext x (Stmt.mem_nodesAll.mpr ⟨x, hx, x.mem_nodes_self⟩)

/-- A function with a loop in it, and a run that fails after it is called. -/
theorem parsed_script_runs_neat_loop :
    let text := "<function f>\n<retry 2>\nls\nN=1\n<end-function>\n# c\n<call f>\n<no-key>"
    let start : Session (List String) := .start .empty []
    ∃ script scope' report t, parse 0 .empty text = (.ok script, scope') ∧
      keyLogger.execute 5 script start = some (report, t) ∧
      report.error.map (·.cause) = some (.unknownKey "no-key") ∧
      script.WellFormed ∧ (∀ e, report.error = some e → e.cause ≠ .missingDirective) ∧
      ∀ p, keyLogger.Reaches (keyLogger.beginning 5 script start) p → ∀ x ∈ p.next, x.Neat := by
  intro text start
  have hfails : ((parse 0 .empty text).1.toOption.bind fun script =>
      (keyLogger.execute 5 script start).bind fun result => result.1.error.map (·.cause)) =
      some (.unknownKey "no-key") := by
    decide +kernel
  rcases hparse : parse 0 .empty text with ⟨_ | script, scope'⟩
  · simp [hparse, Except.toOption] at hfails
  · simp only [hparse, Except.toOption, Option.bind_some] at hfails
    obtain ⟨⟨report, t⟩, hrun, herror⟩ := Option.bind_eq_some_iff.mp hfails
    obtain ⟨hscript, hruns⟩ := parsed_script_runs_neat hparse
    obtain ⟨hcause, hpoints⟩ := hruns keyLogger 5 start
    exact ⟨script, scope', report, t, rfl, hrun, herror, hscript, hcause report t hrun, hpoints⟩

end Runner

end ConsoleScript
