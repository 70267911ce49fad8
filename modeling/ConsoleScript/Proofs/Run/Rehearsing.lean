-- SUMMARY: A dry run does not look at the screen, and more fuel changes nothing in it.
import ConsoleScript.Machine.DryRun
import ConsoleScript.Proofs.Run.Checked
import ConsoleScript.Proofs.Run.Entering

/-!
# Rehearsing

A machine *rehearses* if nothing that it is asked to do fails, and scripts are only
walked through. In a dry run no statement looks at the screen, so that it is the same
whatever a look would do (`exec_swapped`). Fuel matters for nesting only: what ends with
some fuel ends alike with more (`exec_mono`).
-/

namespace ConsoleScript

/-- Scripts are only walked through, and every deed succeeds. -/
structure Machine.Rehearses {σ : Type} (m : Machine σ) : Prop where
  isDryRun : m.isDryRun = true
  obliges : ∀ {op}, m.IsDeed op → ∀ w, (op w).1 = .ok ()

theorem DryRun.machine_rehearses {σ : Type} (record : String → σ → σ) (clock : Clock σ) :
    (DryRun.machine record clock).Rehearses where
  isDryRun := rfl
  obliges hop w := by cases hop <;> rfl

/-! ## Cases and their patterns -/

theorem Scope.length_expandAll (scope : Scope) (now : Int) (texts : List String) :
    (scope.expandAll now texts).1.length = texts.length := by
  induction texts generalizing scope with
  | nil => rfl
  | cons text rest ih => exact congrArg (· + 1) (ih _)

/-- There is a pattern for each case. -/
theorem map_zip_expandAll (now : Int) (scope : Scope) (cases : List (Case Stmt)) :
    (cases.zip (scope.expandAll now (cases.map (·.pattern))).1).map (·.1.body) =
      cases.map (·.body) := by
  have hlength := scope.length_expandAll now (cases.map (·.pattern))
  rw [List.length_map] at hlength
  have hfst := List.map_fst_zip (Nat.le_of_eq hlength.symm)
  exact List.map_map.symm.trans (congrArg (List.map (·.body)) hfst)

/-! ## Lines without a fault of their own -/

/-- The line does not lack its directive, and its key is known. -/
structure Stmt.Readable (x : Stmt) : Prop where
  directive : ∀ line, x = .plain line → line.kind.isDirective = false
  key : ∀ line name, x = .action line (.key name) → KeyCode.ofName? name ≠ none

theorem Script.Valid.readable {script : Script} {scope : Scope} (h : script.Valid scope)
    {x : Stmt} (hx : x ∈ script.nodes) : x.Readable where
  directive := by
    rintro line rfl
    exact h.not_isDirective hx
  key := by
    rintro line name rfl
    exact h.ofName?_ne_none hx

namespace Runner

variable {σ : Type} {r : Runner σ} (hdry : r.machine.isDryRun = true)

theorem checkDeadline_eq (htimeout : r.settings.timeout = none) : r.checkDeadline = pure () := by
  simp only [checkDeadline, htimeout]

theorem run_operate {op : Operation σ Unit} {s : Session σ} (h : (op s.world).1 = .ok ()) :
    (operate op).run s = some (.ok (), { s with world := (op s.world).2 }) := by
  simp only [operate, Run.run_get_bind, Run.run_set_bind, h]
  rfl

include hdry

theorem run_sleep_dry (d : Duration) (s : Session σ) :
    (r.sleep d).run s = some (.ok (), { s with world := r.machine.wait d s.world }) := by
  simp only [sleep, hdry, ↓reduceIte]
  rfl

omit hdry in
theorem tellCases_swapped (capture : Operation σ Screen) (body : Body σ)
    (cases : List (Case Stmt × String)) :
    (r.swapped r.machine.wait capture).tellCases body cases = r.tellCases body cases := by
  induction cases with
  | nil => rfl
  | cons head rest ih =>
    simp only [tellCases, ih]
    rfl

/-! ## Looks and fuel -/

/-- What a statement does in a dry run depends neither on what the screen shows nor on
    the fuel, apart from what its body does. -/
theorem dispatch_swapped (capture : Operation σ Screen) (fuel fuel' : Nat) (body : Body σ)
    (x : Stmt) :
    (r.swapped r.machine.wait capture).dispatch fuel body x = r.dispatch fuel' body x := by
  cases x with
  | plain line => rfl
  | action line a =>
    cases a with
    | watch text timeout =>
      simp only [dispatch, action, swapped_isDryRun, hdry, ↓reduceIte]
      rfl
    | _ => rfl
  | loop line l ss =>
    cases l
    all_goals
      simp only [dispatch, loop, swapped_isDryRun, hdry, ↓reduceIte]
      rfl
  | branch line c yes no =>
    simp only [dispatch, branch, swapped_isDryRun, hdry, ↓reduceIte]
    rfl
  | switch line options cases otherwise =>
    simp only [dispatch, switch, swapped_isDryRun, hdry, ↓reduceIte, tellCases_swapped]
    rfl

theorem stmt_swapped (capture : Operation σ Screen) (fuel fuel' : Nat) (body : Body σ) (x : Stmt) :
    (r.swapped r.machine.wait capture).stmt fuel body x = r.stmt fuel' body x := by
  simp only [stmt, dispatch_swapped hdry capture fuel fuel']
  rfl

/-- A dry run does not look at the screen. -/
theorem exec_swapped (capture : Operation σ Screen) (fuel : Nat) :
    (r.swapped r.machine.wait capture).exec fuel = r.exec fuel := by
  induction fuel with
  | zero => rfl
  | succ fuel ih =>
    simp only [exec, ih]
    exact congrArg stmts (funext fun x => stmt_swapped hdry capture fuel fuel _ x)

theorem execute_swapped (capture : Operation σ Screen) (fuel : Nat) (script : Script)
    (s : Session σ) :
    (r.swapped r.machine.wait capture).execute fuel script s = r.execute fuel script s := by
  simp only [execute, exec_swapped hdry]
  rfl

theorem exec_succ {fuel : Nat} {ss : List Stmt} {s : Session σ}
    {result : Except RunError (Option Signal) × Session σ}
    (h : (r.exec fuel ss).run s = some result) : (r.exec (fuel + 1) ss).run s = some result := by
  induction fuel generalizing ss s result with
  | zero => cases h
  | succ fuel ih =>
    have hstmt : ∀ x (s : Session σ) result, (r.stmt fuel (r.exec fuel) x).run s = some result →
        (r.stmt (fuel + 1) (r.exec (fuel + 1)) x).run s = some result := by
      intro x s result h
      have hfuel := stmt_swapped hdry r.machine.capture (fuel + 1) fuel (r.exec (fuel + 1)) x
      rw [swapped_self] at hfuel
      rw [hfuel]
      rcases stmt_sequential fuel x (r.exec fuel) (r.exec (fuel + 1)) s with
        hsame | ⟨ss, t, hruns, hne⟩
      · exact hsame.trans h
      · -- a list that does more with more fuel did not end before, and nor did the statement
        cases hlist : (r.exec fuel ss).run t with
        | none =>
          have hnone := (hruns _ fun _ _ _ => rfl).1 hlist
          simp [hnone] at h
        | some other => exact absurd ((ih hlist).trans hlist.symm) hne
    induction ss generalizing s with
    | nil =>
      rw [exec, stmts] at h ⊢
      exact h
    | cons x rest ihrest =>
      rw [exec, stmts, Run.run_bind] at h ⊢
      obtain ⟨⟨out, t⟩, hx, hrest⟩ := Option.bind_eq_some_iff.mp h
      rw [hstmt x s _ hx, Option.bind_some]
      rcases out with e | (- | signal)
      · exact hrest
      · exact ihrest hrest
      · exact hrest

/-- What ends with some fuel ends in the same way with more. -/
theorem exec_mono {fuel fuel' : Nat} {ss : List Stmt} {s : Session σ}
    {result : Except RunError (Option Signal) × Session σ} (hle : fuel ≤ fuel')
    (h : (r.exec fuel ss).run s = some result) : (r.exec fuel' ss).run s = some result := by
  induction hle with
  | refl => exact h
  | step _ ih => exact exec_succ hdry ih

theorem execute_mono {fuel fuel' : Nat} {script : Script} {s : Session σ}
    {result : Report × Session σ} (hle : fuel ≤ fuel')
    (h : r.execute fuel script s = some result) : r.execute fuel' script s = some result := by
  rw [execute_eq] at h ⊢
  split
  · next hbegins =>
    rw [if_pos hbegins] at h
    obtain ⟨out, hrun, heq⟩ := Option.map_eq_some_iff.mp h
    rw [exec_mono hdry hle hrun, Option.map_some, heq]
  · next hbegins =>
    rw [if_neg hbegins] at h
    exact h

end Runner

end ConsoleScript
