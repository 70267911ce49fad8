-- SUMMARY: Dry runs of lines without a fault of their own do not fail.
import ConsoleScript.Proofs.Run.Located
import ConsoleScript.Proofs.Run.Lockstep
import ConsoleScript.Proofs.Run.Rehearsing

/-!
# Runs that do not fail

A dry run does not act, so that it fails for a line only if the line itself is at fault:
it lacks its directive, names an unknown key, includes a file, or calls a function that is
not there. Nor does it run late, without a deadline. On a machine that obliges each kind of
statement then succeeds if the lists in it do, and as a statement depends on the lists only
that it enters, no list of statements fails (`exec_succeeds`).
-/

namespace ConsoleScript

variable {σ α : Type}

/-! ## What cannot go wrong -/

/-- Scripts are only walked through, with no deadline and no debugger that stops them or
    fails. -/
structure Runner.Unhindered (r : Runner σ) : Prop where
  rehearses : r.machine.Rehearses
  noTimeout : r.settings.timeout = none
  lets : ∀ d, r.debugger = some d → ∀ e scope w, ∃ a, (d.decide e scope w).1 = .ok a ∧ a ≠ .stop

/-- The line includes no file, and calls no function that is not there. -/
structure Stmt.SelfContained (functions : List Function) (x : Stmt) : Prop where
  includesNothing : x.IncludesNothing
  linked : ∀ line name args, x = .action line (.call name args) →
    functions.find? (·.name == name) ≠ none

/-- What can go wrong with a line by itself does not: nothing is wrong with its text, and
    it needs no file and no function that is not there. -/
structure Stmt.Sound (functions : List Function) (x : Stmt) : Prop
    extends x.Readable, x.SelfContained functions

/-- Sound lines, with functions of such lines. -/
def Regime.sound (functions : List Function)
    (hbodies : ∀ f ∈ functions, ∀ x ∈ Stmt.nodesAll f.body, x.Sound functions) : Regime where
  Allows x := x.Sound functions
  Knows known := known = functions
  Permits _ := True
  outside _ := trivial
  raised _ _ _ := trivial
  called hknows hf := by
    subst hknows
    exact hbodies _ hf
  included _ hx _ := absurd rfl (hx.includesNothing _ _)

namespace Run

/-- The computation has no error. -/
def Succeeds (x : Run σ α) : Prop := FailsAs (fun _ => False) x

end Run

namespace Runner

open Run (FailsAs Succeeds)

variable {r : Runner σ} {n : Nat} {body : Body σ} {s : Session σ}

section

variable (hr : r.Unhindered)
include hr

theorem operate_succeeds {op : Operation σ Unit} (hop : r.machine.IsDeed op) :
    Succeeds (operate op) := by
  intro s e t h
  rw [run_operate (hr.rehearses.obliges hop s.world)] at h
  cases h

theorem sleep_succeeds (d : Duration) : Succeeds (r.sleep d) := by
  intro s e t h
  rw [run_sleep_dry hr.rehearses.isDryRun] at h
  cases h

theorem approach_ends (x : Stmt) : ∃ t, (r.approach x).run s = some (.ok (), t) := by
  rw [approach, checkDeadline_eq hr.noTimeout]
  change ∃ t, (r.consult x.entry).run { s with line := x.line.number } = _
  unfold consult
  split
  · exact ⟨_, rfl⟩
  · next d hd =>
    rw [Run.run_get_bind]
    dsimp only
    split
    · rw [Run.run_set_bind]
      obtain ⟨a, ha, hstop⟩ := hr.lets d hd x.entry s.scope s.world
      rw [ha]
      cases a with
      | stop => exact absurd rfl hstop
      | screenshot path => exact ⟨_, run_operate (hr.rehearses.obliges (.screenshot path _) _)⟩
      | step | proceed => exact ⟨_, rfl⟩
    · exact ⟨_, rfl⟩

/-! ## Statements -/

theorem branch_succeeds (h : ∀ ss, Succeeds (body ss)) (c : Condition) (yes no : List Stmt) :
    Succeeds (r.branch n body c yes no) := by
  simp only [branch, hr.rehearses.isDryRun, ↓reduceIte]
  refine (expand_failsAs _).bind fun _ => (narrate_failsAs _).bind fun _ => ?_
  refine (h yes).bind fun signal => ?_
  cases signal with
  | some signal => exact .pure _
  | none =>
    dsimp only
    split
    · exact (narrate_failsAs _).bind fun _ => h no
    · exact h no

theorem loop_succeeds (h : ∀ ss, Succeeds (body ss)) (ss : List Stmt) (l : Loop) :
    Succeeds (r.loop n body ss l) := by
  cases l with
  | retry attempts =>
    simp only [loop, hr.rehearses.isDryRun, ↓reduceIte]
    exact (narrate_failsAs _).bind fun _ => once_failsAs h ss
  | repeatTimes count =>
    simp only [loop, hr.rehearses.isDryRun, ↓reduceIte]
    exact (narrate_failsAs _).bind fun _ => once_failsAs h ss
  | whileScreen presence text timeout poll =>
    simp only [loop, hr.rehearses.isDryRun, ↓reduceIte]
    exact (expand_failsAs _).bind fun _ => (narrate_failsAs _).bind fun _ => once_failsAs h ss

theorem switch_succeeds (h : ∀ ss, Succeeds (body ss)) (options : SwitchOptions)
    (cases : List (Case Stmt)) (otherwise : Option (List Stmt)) :
    Succeeds (r.switch n body options cases otherwise) := by
  simp only [switch, hr.rehearses.isDryRun, ↓reduceIte]
  refine (expandAll_failsAs _).bind fun _ => (narrate_failsAs _).bind fun _ => ?_
  refine (tellCases_failsAs h _).bind fun signal => ?_
  cases signal with
  | some signal => exact .pure _
  | none =>
    cases otherwise with
    | none => exact .pure _
    | some ss => exact (narrate_failsAs _).bind fun _ => once_failsAs h ss

theorem plain_succeeds {line : Line} (hline : line.kind.isDirective = false) :
    Succeeds (r.plain line) := by
  unfold plain
  cases hkind : line.kind with
  | text => exact (expand_failsAs _).bind fun _ => (operate_succeeds hr (.typeText _)).then_pure
  | assignment => exact (assign_failsAs _).then_pure
  | directive => simp [hkind, LineKind.isDirective] at hline
  | conditional => simp [hkind, LineKind.isDirective] at hline
  | comment | blank => exact .pure _

/-- A call apart, which looks at the functions that are there. -/
theorem action_succeeds (n : Nat) (body : Body σ) {line : Line} {a : Action}
    (hx : (Stmt.action line a).Readable) (hcall : ∀ name args, a ≠ .call name args)
    (hinclude : ∀ path, a ≠ .includeFile path) :
    Succeeds (r.action n body line.number a) := by
  cases a with
  | key name =>
    obtain ⟨key, hname⟩ := Option.ne_none_iff_exists'.mp (hx.key line name rfl)
    simp only [action, hname]
    exact (operate_succeeds hr (.pressKey key)).then_pure
  | watch text timeout =>
    simp only [action, hr.rehearses.isDryRun, ↓reduceIte]
    exact (expand_failsAs _).bind fun _ => (narrate_failsAs _).then_pure
  | console number => exact (operate_succeeds hr (.switchConsole number)).then_pure
  | wait duration => exact (sleep_succeeds hr duration).then_pure
  | exit code => exact .pure _
  | endIf => exact .pure _
  | doReturn => exact .pure _
  | doBreak =>
    refine isDebugging_failsAs.bind fun debugging => .bind .get fun s => ?_
    split
    · exact .pure _
    · exact .pure _
  | screenshot path format =>
    exact (expand_failsAs _).bind fun _ => (operate_succeeds hr (.screenshot _ _)).then_pure
  | bind name value => exact (expand_failsAs _).bind fun _ => .then_pure (.modify _)
  | includeFile path => exact absurd rfl (hinclude path)
  | call name args => exact absurd rfl (hcall name args)

theorem dispatch_succeeds {x : Stmt} (h : ∀ ss, Succeeds (body ss)) (hx : x.Sound s.functions)
    {e : RunError} {t : Session σ} : (r.dispatch n body x).run s ≠ some (.error e, t) := by
  intro hrun
  cases x with
  | plain line => exact plain_succeeds hr (hx.directive line rfl) s e t hrun
  | loop line l ss => exact loop_succeeds hr h ss l s e t hrun
  | branch line c yes no => exact branch_succeeds hr h c yes no s e t hrun
  | switch line options cases otherwise =>
    exact switch_succeeds hr h options cases otherwise s e t hrun
  | action line a =>
    cases a with
    | call name args =>
      obtain ⟨f, hf⟩ := Option.ne_none_iff_exists'.mp (hx.linked line name args rfl)
      change (r.call body line.number name args).run s = _ at hrun
      rw [call, Run.run_get_bind, hf] at hrun
      have hsucceeds : Succeeds (r.expandAll args >>= fun args =>
          r.invoke body ⟨name, args, line.number⟩ f.body) :=
        (expandAll_failsAs args).bind fun args => invoke_failsAs h _ _
      exact hsucceeds s e t hrun
    | includeFile path => exact hx.includesNothing line path rfl
    | _ =>
      refine action_succeeds hr n body hx.toReadable ?_ ?_ s e t hrun
      all_goals simp

theorem stmt_succeeds {x : Stmt} (h : ∀ ss, Succeeds (body ss)) (hx : x.Sound s.functions)
    {e : RunError} {t : Session σ} : (r.stmt n body x).run s ≠ some (.error e, t) := by
  intro hrun
  cases hkind : x.line.kind.isSkipped with
  | true =>
    rw [run_stmt_skipped hkind] at hrun
    cases hrun
  | false =>
    obtain ⟨u, hu⟩ := approach_ends hr (s := s) x
    rw [run_stmt hkind hu] at hrun
    obtain ⟨⟨out, v⟩, hdispatch, heq⟩ := Option.map_eq_some_iff.mp hrun
    cases out with
    | ok signal => cases heq
    | error cause =>
      have hfunctions := congrArg Session.functions ((approach_blind x).keeps_functions hu)
      exact dispatch_succeeds hr h (hfunctions ▸ hx) hdispatch

end

/-! ## Runs -/

/-- Where only sound lines come next, and only functions of such lines are there, no list
    of statements fails from then on. -/
theorem exec_succeeds (hr : r.Unhindered) {functions : List Function}
    (hbodies : ∀ f ∈ functions, ∀ x ∈ Stmt.nodesAll f.body, x.Sound functions) {start p : Point σ}
    (hstart : ∀ x ∈ Stmt.nodesAll start.next, x.Sound functions)
    (hfunctions : start.session.functions = functions) (h : r.Reaches start p) {e : RunError}
    {t : Session σ} : (r.exec p.fuel p.next).run p.session ≠ some (.error e, t) := by
  obtain ⟨around, n, next, u⟩ := p
  dsimp only
  induction n generalizing around next u e t with
  | zero => nofun
  | succ n ih =>
    induction next generalizing u e t with
    | nil => nofun
    | cons x rest ihnext =>
      obtain ⟨hnext, hknown⟩ := h.regime (g := .sound functions hbodies) hstart hfunctions
      have hx : x.Sound u.functions := hknown ▸ hnext x (by simp [Stmt.mem_nodes_self])
      -- the lists that the statement enters do not fail, so all may be taken not to
      obtain ⟨body, hbody, hsame⟩ := exists_body_of_enters
        (G := fun _ _ result => ∀ e v, result ≠ some (.error e, v))
        (fun _ _ => ⟨none, nofun⟩)
        (fun ss v henter e w => ih _ ss v (h.inside henter))
      intro hrun
      rw [exec, stmts, Run.run_bind] at hrun
      obtain ⟨⟨out, v⟩, hstmt, hrest⟩ := Option.bind_eq_some_iff.mp hrun
      rcases out with cause | (- | signal)
      · exact stmt_succeeds hr hbody hx (hsame.trans hstmt)
      · exact ihnext v (h.next hstmt) hrest
      · cases hrest

end Runner

end ConsoleScript
