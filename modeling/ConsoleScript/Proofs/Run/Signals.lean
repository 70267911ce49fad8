-- SUMMARY: Breaks stay inside of their loop or switch, returns inside of their function, and an exit ends the run.
import ConsoleScript.Proofs.Run.Breaks
import ConsoleScript.Proofs.Run.Lockstep

/-!
# Signals

A break ends the innermost loop or switch of its function or file, a return ends the
function or the file, and an exit ends the run: no statement around it catches it or
does anything more (`Enters.exits`), so that from any point it comes to the end of the
script (`Reaches.exits`). `signals_contained` says all of this of whole runs.
-/

namespace ConsoleScript.Runner

open Run (Yields)
open Signal (NoBreak OnlyExit)

variable {σ : Type} {r : Runner σ} {fuel : Nat} {x : Stmt} {s t u : Session σ} {code : Int}

/-! ## Exits -/

theorem consultsAlike_id : r.ConsultsAlike id := by
  intro x x' hx
  rw [Stmt.mapLines_id, Stmt.mapLines_id] at hx
  rw [hx]

/-- An exit out of a list is one out of the statement that runs it. The world stays as it
    is, and the statement counts as one more line that has run. -/
theorem Enters.exits {ss : List Stmt} (h : r.Enters fuel x s ss t)
    (hlist : (r.exec fuel ss).run t = some (.ok (some (.exit code)), u)) :
    ∃ v, (r.stmt fuel (r.exec fuel) x).run s = some (.ok (some (.exit code)), v) ∧
      v.progress = u.progress.counted := by
  obtain ⟨body, hbody, hne⟩ := h
  -- anywhere but at this list the bodies are the same
  have hbodies : BodiesFollow id (fun c p => c = code ∧ p = u.progress) (r.exec fuel) body := by
    intro ss₁ ss₂ s₁ s₂ hss hs
    obtain rfl := hss.eq
    obtain rfl := hs.eq
    by_cases hhere : ss₁ = ss ∧ s₁ = t
    · obtain ⟨rfl, rfl⟩ := hhere
      exact .exits hlist ⟨rfl, rfl⟩
    · have hsame := hbody ss₁ s₁ hhere
      cases hrun : (r.exec fuel ss₁).run s₁ with
      | none => exact .starves hrun (hsame.trans hrun)
      | some result => exact .ends hrun (hsame.trans hrun) rfl
  have hfollows : Run.Follows id _ (r.stmt fuel (r.exec fuel) x) (r.stmt fuel body x) s s :=
    stmt_follows Line.faithful_id consultsAlike_id hbodies fuel rfl rfl
  cases hfollows with
  | exits hx hexit =>
    obtain ⟨q, ⟨rfl, rfl⟩, hcounted⟩ := hexit
    exact ⟨_, hx, hcounted⟩
  | starves hx hy => exact absurd (hy.trans hx.symm) hne
  | ends hx hy halike =>
    obtain rfl := halike.eq
    exact absurd (hy.trans hx.symm) hne

/-- An exit at any point of a run ends the run. No line runs any more, and those around
    the point count as run. -/
theorem Reaches.exits {start p : Point σ} (h : r.Reaches start p)
    (hlist : (r.exec p.fuel p.next).run p.session = some (.ok (some (.exit code)), u)) :
    ∃ v, (r.exec start.fuel start.next).run start.session = some (.ok (some (.exit code)), v) ∧
      v.line = u.line ∧ v.world = u.world ∧
      v.linesExecuted + start.around.length = u.linesExecuted + p.around.length := by
  induction h generalizing u with
  | start => exact ⟨u, hlist, rfl, rfl, rfl⟩
  | next _ hrun ih => exact ih ((Run.run_bind_ok hrun _).trans hlist)
  | last _ _ _ _ => cases hlist
  | @inside around fuel x rest ss s t _ henter ih =>
    obtain ⟨v, hrun, hprogress⟩ := henter.exits hlist
    obtain ⟨w, hw, hline, hworld, hcount⟩ := ih (Run.run_bind_ok hrun _)
    have hlines : v.linesExecuted = u.linesExecuted + 1 := congrArg Progress.linesExecuted hprogress
    refine ⟨w, hw, hline.trans (congrArg Progress.line hprogress),
      hworld.trans (congrArg Progress.world hprogress), ?_⟩
    rw [List.length_cons]
    dsimp only at hcount
    omega

/-- What comes before a statement takes note of its line. -/
theorem approach_line : Yields (fun _ t => t.line = x.line.number) (r.approach x) s := by
  refine .last fun _ t => ?_
  refine Yields.bind (P := fun _ u => u.line = x.line.number) ?_ fun _ u hu => ?_
  · intro _ u hrun
    cases hrun
    rfl
  · intro _ v hrun
    have hline := congrArg Session.line ((consult_keeps x.entry).2 _ v hrun)
    exact hline.trans hu

/-- The end of a run in which an exit comes to run after `w`. -/
theorem exit_ends_run {script : Script} {around : List (Activation σ)} {n : Nat} {line : Line}
    {rest : List Stmt} {w : Session σ} (hbegins : r.Begins script s)
    (hreaches : r.Reaches (r.beginning fuel script s)
      ⟨around, n + 1, .action line (.exit code) :: rest, u⟩)
    (hkind : line.kind.isSkipped = false)
    (hbefore : (r.approach (.action line (.exit code))).run u = some (.ok (), w)) :
    ∃ report t, r.execute fuel script s = some (report, t) ∧ report.exitCode = code ∧
      report.error = none ∧ t.line = line.number ∧ t.world = w.world ∧
      report.linesExecuted = w.linesExecuted + 1 + around.length := by
  have hstmt : (r.stmt n (r.exec n) (.action line (.exit code))).run u =
      some (.ok (some (.exit code)), { w with linesExecuted := w.linesExecuted + 1 }) := by
    rw [run_stmt (x := .action line (.exit code)) hkind hbefore]
    rfl
  obtain ⟨t, hrun, hline, hworld, hcount⟩ := hreaches.exits (Run.run_bind_ok hstmt _)
  change (r.exec fuel script.body).run (r.beginScript script s) = _ at hrun
  refine ⟨r.report t (r.findings script s) (.ok (some (.exit code))), t, ?_, rfl, rfl, ?_, hworld,
    hcount⟩
  · rw [execute_eq, if_pos hbegins, hrun, Option.map_some]
  · exact hline.trans (approach_line _ _ hbefore)

/-! ## Signals of a run -/

/-- A list yields a break only inside of a loop or a switch, and if no debugger watches.
    Loops and switches yield no break, calls and included files nothing but an exit. So a
    script that begins outside of loops yields none; wherever a list of it yields a break,
    only conditions are between that list and a loop or a switch around it, and no call or
    file; and an exit at any point ends the run with its code, after which nothing is done
    any more. -/
theorem signals_contained (r : Runner σ) :
    (∀ {fuel ss} {s t : Session σ}, (r.exec fuel ss).run s = some (.ok (some .doBreak), t) →
      0 < s.loopDepth ∧ ∀ d, r.debugger = some d → d.isEnabled t.world = false) ∧
    (∀ {fuel x} {s t : Session σ} {signal}, x.directive.any Directive.isBreakable = true →
      (r.stmt fuel (r.exec fuel) x).run s = some (.ok signal, t) → signal ≠ some .doBreak) ∧
    (∀ {fuel line a} {s t : Session σ} {signal}, EntersFrame a →
      (r.stmt fuel (r.exec fuel) (.action line a)).run s = some (.ok signal, t) →
      signal = none ∨ ∃ code, signal = some (.exit code)) ∧
    (∀ {fuel script} {s t : Session σ} {out}, s.loopDepth = 0 →
      (r.exec fuel script.body).run (r.beginScript script s) = some (out, t) →
      out ≠ .ok (some .doBreak) ∧ t.loopDepth = 0) ∧
    (∀ {fuel script} {s t : Session σ} {p}, s.loopDepth = 0 →
      r.Reaches (r.beginning fuel script s) p →
      (r.exec p.fuel p.next).run p.session = some (.ok (some .doBreak), t) → InLoop p.around) ∧
    (∀ {fuel script} {s u w : Session σ} {around n line code rest}, r.Begins script s →
      r.Reaches (r.beginning fuel script s)
        ⟨around, n + 1, .action line (.exit code) :: rest, u⟩ →
      line.kind.isSkipped = false →
      (r.approach (.action line (.exit code))).run u = some (.ok (), w) →
      ∃ report t, r.execute fuel script s = some (report, t) ∧ report.exitCode = code ∧
        report.error = none ∧ t.line = line.number ∧ t.world = w.world ∧
        report.linesExecuted = w.linesExecuted + 1 + around.length) := by
  refine ⟨?_, ?_, ?_, ?_, ?_, exit_ends_run⟩
  · intro fuel ss s t hrun
    exact exec_yields fuel ss _ t hrun rfl
  · intro fuel x s t signal hx hrun
    exact stmt_noBreak hx signal t hrun
  · intro fuel line a s t signal ha hrun
    exact stmt_onlyExit ha signal t hrun
  · intro fuel script s t out hdepth hrun
    refine ⟨?_, ?_⟩
    · rintro rfl
      exact absurd hdepth (Nat.ne_of_gt (exec_yields fuel script.body _ t hrun rfl).1)
    · have hkept := (exec_keeps fuel script.body).2 out t hrun
      exact (congrArg Surroundings.loopDepth hkept).trans hdepth
  · intro fuel script s t p hdepth hreaches hrun
    exact reaches_inLoop hdepth hreaches (exec_yields p.fuel p.next _ t hrun rfl).1

/-- A function with a break inside of an attempt, one outside of it and an exit, called
    in an attempt before a key is pressed. -/
def leavesEarly : Script where
  body := [.loop ⟨7, "", "", "", .directive, none⟩ (.retry 2)
      [.action ⟨8, "", "", "", .directive, none⟩ (.call "leave" [])],
    .action ⟨9, "", "", "", .directive, none⟩ (.key "enter")]
  functions := [⟨"leave", 1, 6, [
    .loop ⟨2, "", "", "", .directive, none⟩ (.retry 1)
      [.action ⟨3, "", "", "", .directive, none⟩ .doBreak],
    .action ⟨4, "", "", "", .directive, none⟩ .doBreak,
    .action ⟨5, "", "", "", .directive, none⟩ (.exit 3)]⟩]
  summary := .of [] []

theorem leavesEarly_reaches :
    let begin := keyLogger.beginning 5 leavesEarly (.start .empty [])
    (∃ p t, keyLogger.Reaches begin p ∧ p.around.length = 3 ∧
      (keyLogger.exec p.fuel p.next).run p.session = some (.ok (some .doBreak), t)) ∧
    ∃ around u w, keyLogger.Reaches begin
        ⟨around, 3, [.action ⟨5, "", "", "", .directive, none⟩ (.exit 3)], u⟩ ∧
      (keyLogger.approach (.action ⟨5, "", "", "", .directive, none⟩ (.exit 3))).run u =
        some (.ok (), w) ∧
      around.length = 2 ∧ w.world = [] ∧ w.linesExecuted = 3 := by
  intro begin
  have hstart : keyLogger.Reaches begin begin := .start
  have hattempt := Reaches.inside hstart (retry_enters rfl rfl rfl (by decide +kernel))
  have hcall := Reaches.inside hattempt (call_enters rfl rfl rfl rfl rfl)
  constructor
  · have hnested := Reaches.inside hcall (retry_enters rfl rfl rfl (by decide +kernel))
    exact ⟨_, _, hnested, rfl, rfl⟩
  · have hlast := Reaches.next (Reaches.next hcall rfl) rfl
    exact ⟨_, _, _, hlast, rfl, rfl, rfl, rfl⟩

/-- The first break ends the inner attempt, the second one nothing, and the exit ends the
    run before the key is pressed. -/
theorem signals_contained_leaving :
    let start : Session (List String) := .start .empty []
    let attempt : Stmt := .loop ⟨2, "", "", "", .directive, none⟩ (.retry 1)
      [.action ⟨3, "", "", "", .directive, none⟩ .doBreak]
    let call : Stmt := .action ⟨8, "", "", "", .directive, none⟩ (.call "leave" [])
    (∃ p t, keyLogger.Reaches (keyLogger.beginning 5 leavesEarly start) p ∧ p.around.length = 3 ∧
      (keyLogger.exec p.fuel p.next).run p.session = some (.ok (some .doBreak), t) ∧
      0 < p.session.loopDepth ∧ InLoop p.around) ∧
    (∃ signal t, (keyLogger.stmt 2 (keyLogger.exec 2) attempt).run start = some (.ok signal, t) ∧
      signal ≠ some .doBreak) ∧
    (∃ signal t, (keyLogger.stmt 3 (keyLogger.exec 3) call).run
        (keyLogger.beginScript leavesEarly start) = some (.ok signal, t) ∧
      (signal = none ∨ ∃ code, signal = some (.exit code))) ∧
    (∃ out t, (keyLogger.exec 5 leavesEarly.body).run (keyLogger.beginScript leavesEarly start) =
        some (out, t) ∧
      out ≠ .ok (some .doBreak) ∧ t.loopDepth = 0) ∧
    ∃ report t, keyLogger.execute 5 leavesEarly start = some (report, t) ∧ report.exitCode = 3 ∧
      report.error = none ∧ t.line = 5 ∧ t.world = [] ∧ report.linesExecuted = 6 := by
  intro start attempt call
  obtain ⟨hbreak, hloop, hframe, hscript, hinner, hexit⟩ := signals_contained keyLogger
  obtain ⟨⟨p, u, hp, hlength, hbreaks⟩, around, v, w, hv, hbefore, haround, hworld, hcount⟩ :=
    leavesEarly_reaches
  refine ⟨⟨p, u, hp, hlength, hbreaks, (hbreak hbreaks).1, hinner rfl hp hbreaks⟩, ?_, ?_, ?_, ?_⟩
  · obtain ⟨signal, t, hrun⟩ : ∃ signal t,
        (keyLogger.stmt 2 (keyLogger.exec 2) attempt).run start = some (.ok signal, t) :=
      ⟨_, _, rfl⟩
    exact ⟨signal, t, hrun, hloop rfl hrun⟩
  · obtain ⟨signal, t, hrun⟩ : ∃ signal t, (keyLogger.stmt 3 (keyLogger.exec 3) call).run
        (keyLogger.beginScript leavesEarly start) = some (.ok signal, t) :=
      ⟨_, _, rfl⟩
    exact ⟨signal, t, hrun, hframe (.inl ⟨_, _, rfl⟩) hrun⟩
  · obtain ⟨out, t, hrun⟩ : ∃ out t, (keyLogger.exec 5 leavesEarly.body).run
        (keyLogger.beginScript leavesEarly start) = some (out, t) :=
      ⟨_, _, rfl⟩
    exact ⟨out, t, hrun, hscript rfl hrun⟩
  · obtain ⟨report, t, hrun, hcode, herror, hline, hsame, hlines⟩ :=
      hexit (begins_of_live rfl) hv rfl hbefore
    exact ⟨report, t, hrun, hcode, herror, hline, hsame.trans hworld,
      hlines.trans (by rw [hcount, haround])⟩

end ConsoleScript.Runner
