-- SUMMARY: Which statements may run, among which functions and with which errors, holds all along a run.
import ConsoleScript.Proofs.Run.Conduct.Points

/-!
# Regimes

A regime says which statements may run, which functions can be called
meanwhile, and for which causes a run may fail, so that the three go together: a
statement that may run raises errors that are permitted, and the statements of
functions and of included files may run too. This makes a conduct that does not
mind the world (`Regime.governs`), so that a run that begins in a regime stays in
it: its errors are permitted (`execute_permits`), and at each point that it comes
to, the statements that come next may run (`Reaches.regime`).
-/

namespace ConsoleScript

/-- Statements that may run, functions that may be there, and causes of failing. -/
structure Regime where
  Allows : Stmt → Prop
  Knows : List Function → Prop
  Permits : RunError → Prop
  outside : ∀ {e}, e.FromOutside → Permits e
  raised : ∀ {functions x e}, Knows functions → Allows x → x.Raises functions e → Permits e
  called : ∀ {functions f}, Knows functions → f ∈ functions → ∀ x ∈ Stmt.nodesAll f.body, Allows x
  included : ∀ {functions line path now scope scope' text script}, Knows functions →
    Allows (.action line (.includeFile path)) →
    Script.parse now scope text = (.ok script, scope') →
    Knows (script.functions ++ functions) ∧ ∀ x ∈ Stmt.nodesAll script.body, Allows x

/-- The regime allows the statements of a list at every depth. -/
def Regime.AdmitsAll (g : Regime) (ss : List Stmt) : Prop := ∀ y ∈ Stmt.nodesAll ss, g.Allows y

/-! ## Runs in a regime -/

/-- What is expected of a run in the regime. -/
def Regime.conduct (σ : Type) (g : Regime) : Conduct σ where
  Allows := g.Allows
  Knows := g.Knows
  Rest _ _ := True
  Ready _ _ := True
  Paces _ := True
  Fails e := g.Permits e.cause
  Escapes _ _ := False
  Total := False

theorem Regime.governs {σ : Type} (g : Regime) (r : Runner σ) :
    (g.conduct σ).Governs r r.machine.wait r.machine.capture where
  toWatches := .of_forall (fun _ _ => trivial) (fun _ _ => trivial) fun _ => trivial
  toJudges := .of_cause g.Permits Iff.rfl (fun _ _ => g.outside (.timeout _))
    (fun _ _ => g.outside (.timeout _)) (fun he _ => g.outside he) g.raised
  dry htotal := htotal.elim
  fatal hescapes := hescapes.elim
  called := g.called
  included hknows hx _ hparse := g.included hknows hx hparse

namespace Runner

variable {σ : Type} {r : Runner σ} {s : Session σ} {g : Regime}

/-- All points of a run are in the regime in which it starts. -/
theorem Reaches.regime {start p : Point σ} (h : r.Reaches start p)
    (hnext : g.AdmitsAll start.next) (hstart : g.Knows start.session.functions) :
    g.AdmitsAll p.next ∧ g.Knows p.session.functions := by
  obtain ⟨hnext, hp⟩ := (g.governs r).reaches id (fun _ _ => id) h hnext ⟨rfl, hstart, trivial⟩
  exact ⟨hnext, hp.2.1⟩

/-- A statement of a regime runs one of the lists that it opens among the functions of
    the regime. -/
theorem Enters.opens {fuel : Nat} {x : Stmt} {ss : List Stmt} {t : Session σ}
    (h : r.Enters fuel x s ss t) (hx : ∀ y ∈ x.nodes, g.Allows y) (hs : g.Knows s.functions) :
    r.Opens g.Knows s.surroundings x t.surroundings ss := by
  have hat : (g.conduct σ).At s.surroundings (g.conduct σ).Rest s := ⟨rfl, hs, trivial⟩
  rcases (g.governs r).enters id hx hat h with ⟨e, u, -, hescapes⟩ | ⟨⟨b, hopens, ht, -⟩, -⟩
  · exact hescapes.elim
  · rw [ht]
    exact hopens

/-- A report has the error with which the run failed. -/
theorem report_error {issues : List Issue} {out : Except RunError (Option Signal)} {e : RunError}
    (h : (r.report s issues out).error = some e) : out = .error e := by
  cases out with
  | error e' =>
    cases h
    rfl
  | ok signal =>
    simp only [report] at h
    split at h
    · cases h
    · cases h
    · next heq => cases heq

/-- A run of a script fails for a cause that its regime permits, or does not begin. -/
theorem execute_permits {fuel : Nat} {script : Script} {report : Report} {t : Session σ}
    {e : RunError} (hbody : g.AdmitsAll script.body) (hfunctions : g.Knows script.functions)
    (h : r.execute fuel script s = some (report, t)) (he : report.error = some e) :
    g.Permits e.cause ∨ ∃ issues, e = .invalid issues := by
  rw [execute_eq] at h
  split at h
  · obtain ⟨⟨out, u⟩, hrun, heq⟩ := Option.map_eq_some_iff.mp h
    cases heq
    have hstart : (g.conduct σ).At _ (g.conduct σ).Rest (r.beginScript script s) :=
      ⟨rfl, hfunctions, trivial⟩
    have hends := (g.governs r).ends id (fun _ _ => id) fuel script.body hbody hstart
    rw [hrun, report_error he] at hends
    exact .inl hends.2
  · cases h
    cases report_error he
    exact .inr ⟨_, rfl⟩

end Runner

end ConsoleScript
