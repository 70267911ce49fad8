-- SUMMARY: The points that a run comes to at any depth, and what holds at all of them.
import ConsoleScript.Machine.Live
import ConsoleScript.Proofs.Run.Nesting

/-!
# Reachable points

A run need not end, and where it ends says nothing of the sessions it goes
through. `Reaches` follows it from statement to statement, and into the lists
that a statement runs. A statement runs a list in a session if its outcome
depends on the outcome of that (`Enters`): with another outcome there, and
only there, the statement would do something else.
-/

namespace ConsoleScript.Runner

variable {σ : Type} {r : Runner σ}

/-- A statement that runs, and the session in which it began. -/
structure Activation (σ : Type) where
  stmt : Stmt
  session : Session σ

/-- A point of a run. -/
structure Point (σ : Type) where
  /-- The statements that run, the innermost first. -/
  around : List (Activation σ)
  fuel : Nat
  /-- The statements that come next. -/
  next : List Stmt
  session : Session σ

/-- The point at which a script begins to run. -/
def beginning (r : Runner σ) (fuel : Nat) (script : Script) (s : Session σ) : Point σ :=
  ⟨[], fuel, script.body, r.beginScript script s⟩

/-- The statement `x`, begun in `s`, comes to run the list `ss` in `t`. -/
def Enters (r : Runner σ) (fuel : Nat) (x : Stmt) (s : Session σ) (ss : List Stmt)
    (t : Session σ) : Prop :=
  ∃ body : Body σ,
    (∀ ss' u, ¬(ss' = ss ∧ u = t) → (body ss').run u = (r.exec fuel ss').run u) ∧
      (r.stmt fuel body x).run s ≠ (r.stmt fuel (r.exec fuel) x).run s

/-- The points that a run comes to. -/
inductive Reaches (r : Runner σ) (start : Point σ) : Point σ → Prop where
  | start : Reaches r start start
  | next {around : List (Activation σ)} {fuel : Nat} {x : Stmt} {rest : List Stmt}
      {s t : Session σ} (h : Reaches r start ⟨around, fuel + 1, x :: rest, s⟩)
      (hrun : (r.stmt fuel (r.exec fuel) x).run s = some (.ok none, t)) :
      Reaches r start ⟨around, fuel + 1, rest, t⟩
  /-- A signal or an error ends the list. -/
  | last {around : List (Activation σ)} {fuel : Nat} {x : Stmt} {rest : List Stmt}
      {s t : Session σ} {out : Except RunError (Option Signal)}
      (h : Reaches r start ⟨around, fuel + 1, x :: rest, s⟩)
      (hrun : (r.stmt fuel (r.exec fuel) x).run s = some (out, t)) (hout : out ≠ .ok none) :
      Reaches r start ⟨around, fuel + 1, [], t⟩
  | inside {around : List (Activation σ)} {fuel : Nat} {x : Stmt} {rest ss : List Stmt}
      {s t : Session σ} (h : Reaches r start ⟨around, fuel + 1, x :: rest, s⟩)
      (henter : r.Enters fuel x s ss t) :
      Reaches r start ⟨⟨x, s⟩ :: around, fuel, ss, t⟩

/-! ## Beginning -/

/-- What is found before a script runs. -/
def findings (r : Runner σ) (script : Script) (s : Session σ) : List Issue :=
  if r.machine.isDryRun then script.validate s.scope else []

/-- Nothing that is found keeps the script from running. -/
def Begins (r : Runner σ) (script : Script) (s : Session σ) : Prop :=
  ∀ issue ∈ r.findings script s, issue.isError = false

theorem begins_of_live {script : Script} {s : Session σ} (hlive : r.machine.isDryRun = false) :
    r.Begins script s := by
  simp [Begins, findings, hlive]

open scoped Classical in
/-- A script that begins ends as its statements do, in the session that they leave,
    and any other one at once. -/
theorem execute_eq (fuel : Nat) (script : Script) (s : Session σ) :
    r.execute fuel script s =
      if r.Begins script s then
        ((r.exec fuel script.body).run (r.beginScript script s)).map fun (out, t) =>
          (r.report t (r.findings script s) out, t)
      else
        let errors := (r.findings script s).filter (·.isError)
        some (r.report (r.beginScript script s) (r.findings script s) (.error (.invalid errors)),
          r.beginScript script s) := by
  have hbegins : ((r.findings script s).filter (·.isError)).isEmpty = true ↔ r.Begins script s := by
    simp [Begins]
  change (if List.isEmpty ((r.findings script s).filter (·.isError)) then _ else _) = _
  by_cases h : r.Begins script s
  · rw [if_pos (hbegins.mpr h), if_pos h]
    cases (r.exec fuel script.body).run (r.beginScript script s) <;> rfl
  · rw [if_neg fun hempty => h (hbegins.mp hempty), if_neg h]
    rfl

theorem execute_of_begins {fuel : Nat} {script : Script} {s t : Session σ}
    {out : Except RunError (Option Signal)} (hbegins : r.Begins script s)
    (hrun : (r.exec fuel script.body).run (r.beginScript script s) = some (out, t)) :
    r.execute fuel script s = some (r.report t (r.findings script s) out, t) := by
  rw [execute_eq, if_pos hbegins, hrun, Option.map_some]

/-! ## Invariants -/

theorem stmt_surroundings {fuel : Nat} {x : Stmt} {s t : Session σ}
    {out : Except RunError (Option Signal)}
    (h : (r.stmt fuel (r.exec fuel) x).run s = some (out, t)) :
    t.surroundings = s.surroundings :=
  (stmt_agree fuel x fun _ _ ss _ _ => exec_keeps fuel ss).2 out t h

/-- A script leaves the surroundings in which it begins. -/
theorem execute_surroundings {fuel : Nat} {script : Script} {s t : Session σ} {report : Report}
    (h : r.execute fuel script s = some (report, t)) :
    t.surroundings = (r.beginScript script s).surroundings := by
  rw [execute_eq] at h
  split at h
  · obtain ⟨⟨out, u⟩, hrun, heq⟩ := Option.map_eq_some_iff.mp h
    cases heq
    exact (exec_keeps fuel script.body).2 out t hrun
  · cases h
    rfl

/-- What a statement runs is run in the surroundings that the statement makes. -/
theorem Enters.surrounds {fuel : Nat} {x : Stmt} {s t : Session σ} {ss : List Stmt}
    (h : r.Enters fuel x s ss t) : x.Surrounds s.scope s.surroundings t.surroundings := by
  obtain ⟨body, hbody, hne⟩ := h
  refine Classical.byContradiction fun hnot => hne ?_
  -- anywhere else the bodies agree, so that the statement does the same with both
  refine (stmt_agree fuel x fun a ha ss' u hu => ⟨hbody ss' u ?_, (exec_keeps fuel ss').2⟩).1
  rintro ⟨-, rfl⟩
  exact hnot (hu ▸ ha)

/-- What holds at the start, and inside of a statement if it holds before it,
    holds at every point. -/
theorem Reaches.invariant {I : List (Activation σ) → Surroundings → Prop} {start p : Point σ}
    (h : r.Reaches start p) (hstart : I start.around start.session.surroundings)
    (hinside : ∀ {around x s a}, I around s.surroundings → x.Surrounds s.scope s.surroundings a →
      I (⟨x, s⟩ :: around) a) : I p.around p.session.surroundings := by
  induction h with
  | start => exact hstart
  | next _ hrun ih =>
    rw [stmt_surroundings hrun]
    exact ih
  | last _ hrun _ ih =>
    rw [stmt_surroundings hrun]
    exact ih
  | inside _ henter ih => exact hinside ih henter.surrounds

/-! ## Entering functions -/

theorem run_call {body : Body σ} {line : Nat} {name : String} {args outs : List String}
    {scope : Scope} {s : Session σ} {f : Function} (hlive : r.machine.isDryRun = false)
    (hf : s.functions.find? (·.name == name) = some f)
    (hargs : s.scope.expandAll (r.machine.clock.seconds s.world) args = (outs, scope)) :
    (r.call body line name args).run s =
      (enterFunction body ⟨name, outs, line⟩ f.body).run { s with scope } := by
  simp only [call, Run.run_get_bind, hf, run_expandAll_bind hargs, invoke, hlive,
    Bool.false_eq_true, ↓reduceIte]

/-- What a statement does once what comes before it is over. -/
theorem run_stmt {fuel : Nat} {body : Body σ} {x : Stmt} {s t : Session σ}
    (hkind : x.line.kind.isSkipped = false) (hbefore : (r.approach x).run s = some (.ok (), t)) :
    (r.stmt fuel body x).run s =
      ((r.dispatch fuel body x).run t).map fun
        | (.ok signal, u) => (.ok signal, { u with linesExecuted := u.linesExecuted + 1 })
        | (.error e, u) => (.error (e.positioned x.line.number), u) := by
  simp only [stmt, hkind, Bool.false_eq_true, ↓reduceIte, Run.run_bind, hbefore, Run.run_positioned,
    Option.bind_some]
  cases (r.dispatch fuel body x).run t with
  | none => rfl
  | some result =>
    obtain ⟨out, u⟩ := result
    cases out <;> rfl

/-- A comment and a blank line do nothing. -/
theorem run_stmt_skipped {fuel : Nat} {body : Body σ} {x : Stmt} {s : Session σ}
    (hkind : x.line.kind.isSkipped = true) : (r.stmt fuel body x).run s = some (.ok none, s) := by
  simp only [stmt, hkind, ↓reduceIte]
  rfl

theorem isSome_run_enterFunction (body : Body σ) (call : Call) (ss : List Stmt) (s : Session σ) :
    ((enterFunction body call ss).run s).isSome = ((body ss).run (s.inCall call)).isSome := by
  simp only [enterFunction, Run.run_bind, Run.run_framed]
  cases (body ss).run (s.inCall call) with
  | none => rfl
  | some result =>
    obtain ⟨out, u⟩ := result
    cases out <;> rfl

open scoped Classical in
/-- The body that ends for `ss` in `t` exactly if `body` does not, and is the same
    everywhere else. -/
noncomputable def flippedAt (ss : List Stmt) (t : Session σ) (body : Body σ) : Body σ := fun ss' =>
  ExceptT.mk fun u =>
    if ss' = ss ∧ u = t then
      match (body ss).run t with
      | none => some (.ok none, t)
      | some _ => none
    else (body ss').run u

theorem isSome_run_flippedAt (ss : List Stmt) (t : Session σ) (body : Body σ) :
    ((flippedAt ss t body ss).run t).isSome = !((body ss).run t).isSome := by
  have hrun : (flippedAt ss t body ss).run t = match (body ss).run t with
      | none => some (.ok none, t)
      | some _ => none := if_pos ⟨rfl, rfl⟩
  rw [hrun]
  cases (body ss).run t <;> rfl

/-- A statement that ends exactly if a list ends in a session runs that list there. -/
theorem Enters.of_isSome {fuel : Nat} {x : Stmt} {s t : Session σ} {ss : List Stmt}
    (h : ∀ body : Body σ, ((r.stmt fuel body x).run s).isSome = ((body ss).run t).isSome) :
    r.Enters fuel x s ss t := by
  refine ⟨flippedAt ss t (r.exec fuel), fun ss' u hne => if_neg hne, fun heq => ?_⟩
  have hsame := congrArg Option.isSome heq
  rw [h, h, isSome_run_flippedAt] at hsame
  exact (Bool.not_eq_self _).mp hsame

/-- A statement that ends, and would not if a list did not in a session, runs that
    list there. -/
theorem Enters.of_none {fuel : Nat} {x : Stmt} {s t : Session σ} {ss : List Stmt}
    (h : ∀ body : Body σ, (body ss).run t = none → (r.stmt fuel body x).run s = none)
    (hends : ((r.stmt fuel (r.exec fuel) x).run s).isSome = true) : r.Enters fuel x s ss t := by
  refine ⟨flippedAt ss t (r.exec fuel), fun ss' u hne => if_neg hne, fun heq => ?_⟩
  have hlist : ((r.exec fuel ss).run t).isSome = true := by
    refine Option.isSome_iff_ne_none.mpr fun hnone => ?_
    simp [h _ hnone] at hends
  have hflipped : (flippedAt ss t (r.exec fuel) ss).run t = none := by
    simpa [hlist] using isSome_run_flippedAt ss t (r.exec fuel)
  simp [← heq, h _ hflipped] at hends

/-- A statement that comes down to running a body once enters that body. -/
theorem Enters.of_once {fuel : Nat} {x : Stmt} {s t u : Session σ} {ss : List Stmt}
    (hkind : x.line.kind.isSkipped = false) (hbefore : (r.approach x).run s = some (.ok (), t))
    (honce : ∀ body : Body σ, (r.dispatch fuel body x).run t = (once body ss).run u) :
    r.Enters fuel x s ss { u with loopDepth := u.loopDepth + 1 } := by
  refine .of_isSome fun body => ?_
  rw [run_stmt hkind hbefore, Option.isSome_map, honce, once, Run.run_bind, breakable,
    Run.run_framed]
  cases (body ss).run { u with loopDepth := u.loopDepth + 1 } with
  | none => rfl
  | some result =>
    obtain ⟨out, v⟩ := result
    cases out <;> rfl

/-- A live run enters the body of a loop that makes attempts. -/
theorem retry_enters {fuel left : Nat} {line : Line} {ss : List Stmt} {s t : Session σ}
    (hlive : r.machine.isDryRun = false) (hkind : line.kind.isSkipped = false)
    (hbefore : (r.approach (.loop line (.retry (left + 1)) ss)).run s = some (.ok (), t))
    (hends : ((r.stmt fuel (r.exec fuel) (.loop line (.retry (left + 1)) ss)).run s).isSome = true) :
    r.Enters fuel (.loop line (.retry (left + 1)) ss) s ss
      { t with loopDepth := t.loopDepth + 1 } := by
  refine .of_none (fun body hbody => ?_) hends
  rw [run_stmt (x := .loop line (.retry (left + 1)) ss) hkind hbefore]
  change Option.map _ ((if r.machine.isDryRun then _ else r.retry body ss _ (left + 1)).run t) = _
  rw [hlive, if_neg Bool.false_ne_true, retry, Run.run_bind, Run.run_attempt, breakable,
    Run.run_framed, hbody]
  rfl

/-- A live run enters the function that a call names. -/
theorem call_enters {fuel : Nat} {line : Line} {name : String} {args outs : List String}
    {scope : Scope} {s t : Session σ} {f : Function} (hlive : r.machine.isDryRun = false)
    (hkind : line.kind.isSkipped = false)
    (hbefore : (r.approach (.action line (.call name args))).run s = some (.ok (), t))
    (hf : t.functions.find? (·.name == name) = some f)
    (hargs : t.scope.expandAll (r.machine.clock.seconds t.world) args = (outs, scope)) :
    r.Enters fuel (.action line (.call name args)) s f.body
      (Session.inCall { t with scope } ⟨name, outs, line.number⟩) := by
  refine .of_isSome fun body => ?_
  rw [run_stmt (x := .action line (.call name args)) hkind hbefore, Option.isSome_map,
    ← isSome_run_enterFunction]
  exact congrArg Option.isSome (run_call hlive hf hargs)

/-! ## A run with nested calls -/

/-- Runs scripts on a machine that takes no time and records the keys that are
    pressed. -/
def keyLogger : Runner (List String) where
  machine := Live.machine ⟨fun key log => (.ok (), key.code :: log), fun _ _ log => (.ok (), log)⟩
    (fun _ log => (.ok [], log)) "" (fun _ log => log) 0 ⟨fun _ => 0, fun _ => 0⟩
  debugger := none
  settings := .standard
  files := .empty

/-- A function with two arguments that calls one with a single argument. -/
def nestedCalls : Script where
  body := [.action ⟨7, "", "", "", .directive, none⟩ (.call "outer" ["a", "b"])]
  functions :=
    [⟨"inner", 1, 3, [.plain ⟨2, "", "$\x7b2:-none\x7d", "", .text, none⟩]⟩,
      ⟨"outer", 4, 6, [.action ⟨5, "", "", "", .directive, none⟩ (.call "inner" ["c"])]⟩]
  summary := .of [] []

theorem nestedCalls_reaches :
    ∃ p, keyLogger.Reaches (keyLogger.beginning 3 nestedCalls (.start .empty [])) p ∧
      p.session.calls = [⟨"inner", ["c"], 5⟩, ⟨"outer", ["a", "b"], 7⟩] ∧
      p.session.scope = ⟨.empty, .empty, ⟨[("1", "c"), ("2", "b")]⟩⟩ := by
  have hstart : keyLogger.Reaches (keyLogger.beginning 3 nestedCalls (.start .empty []))
      (keyLogger.beginning 3 nestedCalls (.start .empty [])) := .start
  have houter := Reaches.inside hstart (call_enters rfl rfl rfl rfl rfl)
  have hinner := Reaches.inside houter (call_enters rfl rfl rfl rfl rfl)
  exact ⟨_, hinner, by decide +kernel, by decide +kernel⟩

end ConsoleScript.Runner
