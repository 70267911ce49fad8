-- SUMMARY: The scope in which a script is parsed has no influence on how the script runs.
import ConsoleScript.Proofs.Run.Lockstep
import ConsoleScript.Proofs.Run.Reachable
import ConsoleScript.Proofs.Script.ScopeFree

/-!
# Running what was parsed in another scope

Lines are expanded when they are parsed and again when they run. What the first
expansion gave is shown by a debugger and used nowhere else. So scripts that are alike
run alike (`execute_alike`), and a text can be parsed in any scope before it is run.
-/

namespace ConsoleScript

open Line (scopeless)

namespace Runner

variable {σ : Type} {r : Runner σ}

/-- An outcome up to the lines of the functions that can be called. -/
def upToLines (f : Line → Line) (result : Report × Session σ) : Report × Session σ :=
  (result.1, result.2.mapLines f)

theorem consultsAlike_of_none (f : Line → Line) (hdebugger : r.debugger = none) :
    r.ConsultsAlike f := by
  intro x x' _
  simp only [consult, hdebugger]

/-- Scripts that are alike have the same outcome. -/
theorem execute_alike {f : Line → Line} (hf : Line.Faithful f) (hconsult : r.ConsultsAlike f)
    {script script' : Script} (hscript : script.mapLines f = script'.mapLines f) (fuel : Nat)
    (s : Session σ) :
    (r.execute fuel script s).map (upToLines f) = (r.execute fuel script' s).map (upToLines f) := by
  have hfindings : r.findings script s = r.findings script' s := by
    rw [findings, findings, ← Script.validate_mapLines hf script, hscript,
      Script.validate_mapLines hf]
  have hbegins : r.Begins script s ↔ r.Begins script' s := by
    simp only [Begins, hfindings]
  have hbegin : (r.beginScript script s).Alike f (r.beginScript script' s) :=
    Session.alike_iff.mpr ⟨rfl, congrArg Script.functions hscript⟩
  have hreport : ∀ {t t' : Session σ} {issues out}, t.Alike f t' →
      upToLines f (r.report t issues out, t) = upToLines f (r.report t' issues out, t') := by
    intro t t' issues out ht
    exact Prod.ext (ht.view (r.report · issues out) fun _ => rfl) ht
  rw [execute_eq, execute_eq, hfindings]
  by_cases hb : r.Begins script' s
  · rw [if_pos (hbegins.mpr hb), if_pos hb]
    cases exec_follows hf hconsult fuel (congrArg Script.body hscript) hbegin with
    | exits _ hexit => exact hexit.elim
    | starves hx hy => rw [hx, hy, Option.map_none, Option.map_none]
    | ends hx hy halike =>
      rw [hx, hy]
      exact congrArg some (hreport halike)
  · rw [if_neg fun hbegins' => hb (hbegins.mp hbegins'), if_neg hb]
    exact congrArg some (hreport hbegin)

/-- A text is refused in all scopes for the same reason, or makes the same script in all
    of them, up to expanded texts and bound values. Without a debugger such scripts run
    to the same report and the same session, from every session and in every world, also
    one that keeps a record of all that is asked of the machine. -/
theorem parse_scope_irrelevant (now now' : Int) (scope scope' : Scope) (text : String) :
    (Script.parse now scope text).1.map (Script.mapLines scopeless) =
      (Script.parse now' scope' text).1.map (Script.mapLines scopeless) ∧
    ∀ script script', (Script.parse now scope text).1 = .ok script →
      (Script.parse now' scope' text).1 = .ok script' →
      ∀ {σ : Type} (r : Runner σ), r.debugger = none → ∀ (fuel : Nat) (s : Session σ),
        (r.execute fuel script s).map (upToLines scopeless) =
          (r.execute fuel script' s).map (upToLines scopeless) := by
  have hparse := Script.parse_scopeless now now' scope scope' text
  refine ⟨hparse, fun script script' hscript hscript' σ r hdebugger fuel s => ?_⟩
  rw [hscript, hscript'] at hparse
  exact execute_alike Line.faithful_scopeless (consultsAlike_of_none scopeless hdebugger)
    (Except.ok.inj hparse) fuel s

/-- A greeting that is read with a name and without one. It is typed in the scope of the
    run, which has none. -/
theorem parse_scope_irrelevant_greeting :
    let text := "WHO=$NAME\n<tab>\nhi $NAME"
    let named := Scope.empty.set "NAME" "Ada"
    let start : Session (List String) := .start .empty []
    ∃ script script', (Script.parse 0 .empty text).1 = .ok script ∧
      (Script.parse 9 named text).1 = .ok script' ∧
      script.walk.map (·.1.expanded) = ["WHO=", "<tab>", "hi "] ∧
      script'.walk.map (·.1.expanded) = ["WHO=Ada", "<tab>", "hi Ada"] ∧
      script.mapLines scopeless = script'.mapLines scopeless ∧
      (keyLogger.execute 1 script start).map (upToLines scopeless) =
        (keyLogger.execute 1 script' start).map (upToLines scopeless) ∧
      (keyLogger.execute 1 script' start).map (·.2.world) =
        some ["ret", "spc", "i", "h", "tab"] := by
  intro text named start
  have hfirst : ((Script.parse 0 .empty text).1.toOption.map fun script =>
      script.walk.map (·.1.expanded)) = some ["WHO=", "<tab>", "hi "] := by
    decide +kernel
  have hsecond : ((Script.parse 9 named text).1.toOption.map fun script =>
      (script.walk.map (·.1.expanded), (keyLogger.execute 1 script start).map (·.2.world))) =
      some (["WHO=Ada", "<tab>", "hi Ada"], some ["ret", "spc", "i", "h", "tab"]) := by
    decide +kernel
  obtain ⟨hsame, hruns⟩ := parse_scope_irrelevant 0 9 .empty named text
  rcases hscript : (Script.parse 0 .empty text).1 with _ | script
  · simp [hscript, Except.toOption] at hfirst
  rcases hscript' : (Script.parse 9 named text).1 with _ | script'
  · simp [hscript', Except.toOption] at hsecond
  rw [hscript] at hfirst hsame
  rw [hscript'] at hsecond hsame
  obtain ⟨hexpanded, hkeys⟩ := Prod.mk.inj (Option.some.inj hsecond)
  exact ⟨script, script', rfl, rfl, Option.some.inj hfirst, hexpanded, Except.ok.inj hsame,
    hruns script script' hscript hscript' keyLogger rfl 1 start, hkeys⟩

end Runner

end ConsoleScript
