-- SUMMARY: What a run finds on the screen does not depend on the screens before.
import ConsoleScript.Proofs.Run.Reachable
import ConsoleScript.Proofs.Run.Timing
import ConsoleScript.Proofs.Screen.Tracking

/-!
# Looks at the screen

A session carries the last screen that was seen, and each look compares with it. That is
only a matter of where a text is found first: whether it is found depends on the screen at
hand alone (`run_probe`). So the last screen of a session has no influence on anything
but the last screen of the session that a run leaves. A computation of which this holds
is *oblivious*, and all that a runner does is (`exec_oblivious`).
-/

namespace ConsoleScript

variable {σ α β : Type}

/-- The session without the last screen. -/
def Session.unseen (s : Session σ) : Session σ := { s with screen := .empty }

theorem Session.eq_of_unseen {s s' : Session σ} (h : s.unseen = s'.unseen) :
    s = { s' with screen := s.screen } := by
  cases s
  cases s'
  simp only [unseen, Session.mk.injEq] at h ⊢
  simp [h]

namespace Run

/-- What a computation comes to, without the last screen. -/
def unseen (x : Run σ α) (s : Session σ) : Option (Except RunError α × Session σ) :=
  (x.run s).map fun (out, t) => (out, t.unseen)

/-- The computation comes to the same whatever was seen before. -/
def Oblivious (x : Run σ α) : Prop :=
  ∀ s tracker, unseen x { s with screen := tracker } = unseen x s

namespace Oblivious

variable {x : Run σ α} {g : α → Run σ β}

theorem pure (a : α) : Oblivious (pure a : Run σ α) := fun _ _ => rfl

theorem throw (e : RunError) : Oblivious (throw e : Run σ α) := fun _ _ => rfl

theorem outOfFuel : Oblivious (outOfFuel : Run σ α) := fun _ _ => rfl

theorem modify {m : Session σ → Session σ}
    (h : ∀ s tracker, (m { s with screen := tracker }).unseen = (m s).unseen) :
    Oblivious (modify m) := by
  intro s tracker
  change some (_, _) = some (_, _)
  rw [h]

theorem get {f : Session σ → Run σ α} (hf : ∀ s tracker, f { s with screen := tracker } = f s)
    (h : ∀ s, Oblivious (f s)) : Oblivious (get >>= f) := by
  intro s tracker
  unfold unseen
  rw [run_get_bind, run_get_bind, hf]
  exact h s s tracker

/-- The runs from two sessions that differ in the last screen only. -/
theorem cases {s : Session σ} (hx : Oblivious x) (tracker : ScreenTracker) :
    x.run { s with screen := tracker } = none ∧ x.run s = none ∨
    ∃ out t last, x.run { s with screen := tracker } = some (out, { t with screen := last }) ∧
      x.run s = some (out, t) := by
  have hsame := hx s tracker
  unfold unseen at hsame
  rcases hrun : x.run s with - | ⟨out, t⟩
  · rw [hrun] at hsame
    exact .inl ⟨Option.map_eq_none_iff.mp hsame, rfl⟩
  · rw [hrun, Option.map_some] at hsame
    obtain ⟨⟨out', t'⟩, hrun', heq⟩ := Option.map_eq_some_iff.mp hsame
    obtain ⟨rfl, ht⟩ := Prod.mk.inj heq
    refine .inr ⟨out', t, t'.screen, ?_, rfl⟩
    rw [hrun', ← Session.eq_of_unseen ht]

theorem bind (hx : Oblivious x) (hg : ∀ a, Oblivious (g a)) : Oblivious (x >>= g) := by
  intro s tracker
  unfold unseen
  rw [run_bind, run_bind]
  obtain ⟨hseen, hrun⟩ | ⟨out, t, last, hseen, hrun⟩ := hx.cases (s := s) tracker
  · rw [hseen, hrun, Option.bind_none]
  · rw [hseen, hrun]
    cases out with
    | error e => rfl
    | ok a => exact hg a t last

theorem then_pure {f : α → β} (hx : Oblivious x) :
    Oblivious (x >>= fun a => Pure.pure (f a)) :=
  hx.bind fun _ => pure _

theorem attempt (hx : Oblivious x) : Oblivious (attempt x) := by
  intro s tracker
  unfold unseen
  rw [run_attempt, run_attempt]
  obtain ⟨hseen, hrun⟩ | ⟨out, t, last, hseen, hrun⟩ := hx.cases (s := s) tracker
  all_goals rw [hseen, hrun]
  all_goals rfl

theorem positioned {line : Nat} (hx : Oblivious x) : Oblivious (positioned line x) := by
  intro s tracker
  unfold unseen
  rw [run_positioned, run_positioned]
  obtain ⟨hseen, hrun⟩ | ⟨out, t, last, hseen, hrun⟩ := hx.cases (s := s) tracker
  all_goals rw [hseen, hrun]
  all_goals rfl

/-- A frame may change anything but the last screen. -/
theorem framed {enter : Session σ → Session σ} {leave : Session σ → Session σ → Session σ}
    (hx : Oblivious x)
    (henter : ∀ s tracker, enter { s with screen := tracker } =
      { enter s with screen := tracker })
    (hleave : ∀ s t tracker last,
      (leave { s with screen := tracker } { t with screen := last }).unseen =
        (leave s t).unseen) :
    Oblivious (framed enter leave x) := by
  intro s tracker
  unfold unseen
  rw [run_framed, run_framed, henter]
  obtain ⟨hseen, hrun⟩ | ⟨out, t, last, hseen, hrun⟩ := hx.cases (s := enter s) tracker
  · rw [hseen, hrun]
    rfl
  · rw [hseen, hrun]
    exact congrArg (fun u => some (out, u)) (hleave s t tracker last)

theorem ite {p : Prop} [Decidable p] {y : Run σ α} (hx : Oblivious x) (hy : Oblivious y) :
    Oblivious (if p then x else y) := by
  split
  · exact hx
  · exact hy

end Oblivious

end Run

namespace Runner

open Run (Oblivious)

variable {r : Runner σ}

/-! ## Single steps -/

/-- A look at the screen finds what the screen shows. -/
theorem run_probe (text : String) (s : Session σ) :
    (r.probe text).run s =
      let (screen, world) := r.machine.capture s.world
      some (.ok (screen.toOption.map (·.shows text)),
        { s with world, screen := screen.toOption.elim s.screen (⟨some ·⟩) }) := by
  unfold probe
  rw [Run.run_bind, run_capture, Option.bind_some]
  rcases hcapture : r.machine.capture s.world with ⟨e | screen, world⟩
  · rfl
  · simp only [Except.toOption, Run.run_get_bind, Run.run_set_bind, Run.run_pure, Option.map_some,
      ScreenTracker.search_found_eq, ScreenTracker.search_snd, Option.elim_some]

theorem operate_oblivious (op : Operation σ α) : Oblivious (operate op) := by
  intro s tracker
  simp only [Run.unseen, operate, Run.run_get_bind, Run.run_set_bind]
  cases (op s.world).1 <;> rfl

theorem narrate_oblivious (text : String) : Oblivious (r.narrate text) := fun _ _ => rfl

theorem expand_oblivious (text : String) : Oblivious (r.expand text) := fun _ _ => rfl

theorem expandAll_oblivious (texts : List String) : Oblivious (r.expandAll texts) :=
  fun _ _ => rfl

theorem bind_oblivious (name value : String) : Oblivious (bind name value : Run σ Unit) :=
  fun _ _ => rfl

theorem assign_oblivious (line : String) : Oblivious (r.assign line) := by
  intro s tracker
  simp only [Run.unseen, assign, Run.run_get_bind]
  cases s.scope.readAssignment? (r.machine.clock.seconds s.world) line <;> rfl

theorem clockTime_oblivious : Oblivious r.clockTime := fun _ _ => rfl

theorem elapsedSince_oblivious (start : Duration) : Oblivious (r.elapsedSince start) :=
  fun _ _ => rfl

theorem checkDeadline_oblivious : Oblivious r.checkDeadline := by
  intro s tracker
  unfold Run.unseen
  rw [run_checkDeadline, run_checkDeadline]
  rfl

theorem sleep_oblivious (d : Duration) : Oblivious (r.sleep d) := by
  intro s tracker
  unfold Run.unseen
  rw [run_sleep, run_sleep]
  rfl

theorem capture_oblivious : Oblivious r.capture := by
  intro s tracker
  unfold Run.unseen
  rw [run_capture, run_capture]
  rfl

theorem probe_oblivious (text : String) : Oblivious (r.probe text) := by
  intro s tracker
  unfold Run.unseen
  rw [run_probe, run_probe]
  rfl

theorem probeCases_oblivious (patterns : List String) : Oblivious (r.probeCases patterns) := by
  refine capture_oblivious.bind fun screen => ?_
  cases screen with
  | none => exact .pure _
  | some screen => exact (Oblivious.modify fun _ _ => rfl).then_pure

theorem pollFor_oblivious (text : String) (timeout start : Duration) (fuel : Nat) :
    Oblivious (r.pollFor text timeout start fuel) := by
  induction fuel with
  | zero => exact .outOfFuel
  | succ fuel ih =>
    refine (probe_oblivious text).bind fun found => .ite (.pure _) ?_
    refine (elapsedSince_oblivious start).bind fun elapsed => .ite (.pure _) ?_
    exact checkDeadline_oblivious.bind fun _ => (sleep_oblivious _).bind fun _ => ih

theorem watch_oblivious (fuel : Nat) (text : String) (timeout : Duration) :
    Oblivious (r.watch fuel text timeout) := by
  refine clockTime_oblivious.bind fun start => ?_
  refine (pollFor_oblivious text timeout start fuel).bind fun found => .ite (.pure _) ?_
  exact (elapsedSince_oblivious start).bind fun _ => .throw _

theorem pollCases_oblivious (patterns : List String) (timeout poll start : Duration)
    (fuel : Nat) : Oblivious (r.pollCases patterns timeout poll start fuel) := by
  induction fuel with
  | zero => exact .outOfFuel
  | succ fuel ih =>
    refine (probeCases_oblivious patterns).bind fun hit => ?_
    cases hit with
    | some hit => exact .pure _
    | none =>
      refine (elapsedSince_oblivious start).bind fun elapsed => .ite (.pure _) ?_
      exact (sleep_oblivious _).bind fun _ => ih

theorem isDebugging_oblivious : Oblivious r.isDebugging := by
  unfold isDebugging
  cases r.debugger with
  | none => exact .pure _
  | some d => exact fun _ _ => rfl

theorem consult_oblivious (e : Entry) : Oblivious (r.consult e) := by
  unfold consult
  cases r.debugger with
  | none => exact .pure ()
  | some d =>
    intro s tracker
    simp only [Run.unseen, Run.run_get_bind]
    split
    · simp only [Run.run_set_bind]
      split
      · rfl
      · rfl
      · exact operate_oblivious _ { s with world := (d.decide e s.scope s.world).2 } tracker
      · rfl
    · rfl

/-! ## Statements -/

section

variable {body : Body σ}

theorem breakable_oblivious (h : ∀ ss, Oblivious (body ss)) (ss : List Stmt) :
    Oblivious (breakable body ss) :=
  (h ss).framed (fun _ _ => rfl) fun _ _ _ _ => rfl

theorem once_oblivious (h : ∀ ss, Oblivious (body ss)) (ss : List Stmt) :
    Oblivious (once body ss) :=
  (breakable_oblivious h ss).then_pure

theorem branch_oblivious (h : ∀ ss, Oblivious (body ss)) (fuel : Nat) (c : Condition)
    (yes no : List Stmt) : Oblivious (r.branch fuel body c yes no) := by
  refine (expand_oblivious c.text).bind fun text => .ite ?_ ?_
  · refine (narrate_oblivious _).bind fun _ => (h yes).bind fun signal => ?_
    cases signal with
    | some signal => exact .pure _
    | none =>
      dsimp only
      split
      · exact (narrate_oblivious _).bind fun _ => h no
      · exact h no
  · refine clockTime_oblivious.bind fun start => ?_
    exact (pollFor_oblivious text c.timeout start fuel).bind fun found => h _

theorem retry_oblivious (h : ∀ ss, Oblivious (body ss)) (ss : List Stmt) (total left : Nat) :
    Oblivious (r.retry body ss total left) := by
  induction left with
  | zero => exact .pure _
  | succ left ih =>
    refine (breakable_oblivious h ss).attempt.bind fun out => ?_
    cases out with
    | ok signal => exact .pure _
    | error e => exact .ite (.throw _) (.ite (.throw _) ((sleep_oblivious _).bind fun _ => ih))

theorem repeatTimes_oblivious (h : ∀ ss, Oblivious (body ss)) (ss : List Stmt)
    (total left : Nat) : Oblivious (repeatTimes body ss total left) := by
  induction left with
  | zero => exact .pure _
  | succ left ih =>
    refine (breakable_oblivious h ss).attempt.bind fun out => ?_
    split
    · exact .pure _
    · exact .pure _
    · exact ih
    · exact .ite (.throw _) (.throw _)

theorem whileScreen_oblivious (h : ∀ ss, Oblivious (body ss)) (ss : List Stmt)
    (presence : Presence) (text : String) (timeout poll start : Duration) (fuel : Nat) :
    Oblivious (r.whileScreen body ss presence text timeout poll start fuel) := by
  induction fuel with
  | zero => exact .outOfFuel
  | succ fuel ih =>
    refine (probe_oblivious text).bind fun found => .ite (.pure _) ?_
    refine Oblivious.bind (.ite (breakable_oblivious h ss) (.pure _)) fun signal => ?_
    cases signal with
    | some signal => exact .pure _
    | none =>
      refine (elapsedSince_oblivious start).bind fun elapsed => .ite (.throw _) ?_
      exact (sleep_oblivious _).bind fun _ => ih

theorem loop_oblivious (h : ∀ ss, Oblivious (body ss)) (fuel : Nat) (ss : List Stmt) (l : Loop) :
    Oblivious (r.loop fuel body ss l) := by
  cases l with
  | retry attempts =>
    refine .ite ?_ (retry_oblivious h ss attempts attempts)
    exact (narrate_oblivious _).bind fun _ => once_oblivious h ss
  | repeatTimes count =>
    refine .ite ?_ (repeatTimes_oblivious h ss count count)
    exact (narrate_oblivious _).bind fun _ => once_oblivious h ss
  | whileScreen presence text timeout poll =>
    refine (expand_oblivious text).bind fun text => .ite ?_ ?_
    · exact (narrate_oblivious _).bind fun _ => once_oblivious h ss
    · refine clockTime_oblivious.bind fun start => ?_
      exact whileScreen_oblivious h ss presence text timeout _ start fuel

theorem tellCases_oblivious (h : ∀ ss, Oblivious (body ss)) (cases : List (Case Stmt × String)) :
    Oblivious (r.tellCases body cases) := by
  induction cases with
  | nil => exact .pure _
  | cons head rest ih =>
    refine (narrate_oblivious _).bind fun _ => (once_oblivious h head.1.body).bind fun signal => ?_
    cases signal with
    | some signal => exact .pure _
    | none => exact ih

theorem switch_oblivious (h : ∀ ss, Oblivious (body ss)) (fuel : Nat) (options : SwitchOptions)
    (cases : List (Case Stmt)) (otherwise : Option (List Stmt)) :
    Oblivious (r.switch fuel body options cases otherwise) := by
  refine (expandAll_oblivious _).bind fun patterns => .ite ?_ ?_
  · refine (narrate_oblivious _).bind fun _ => (tellCases_oblivious h _).bind fun signal => ?_
    cases signal with
    | some signal => exact .pure _
    | none =>
      cases otherwise with
      | none => exact .pure _
      | some ss => exact (narrate_oblivious _).bind fun _ => once_oblivious h ss
  · refine clockTime_oblivious.bind fun start => ?_
    refine (pollCases_oblivious _ _ _ _ _).bind fun hit => ?_
    split
    · exact once_oblivious h _
    · cases otherwise with
      | none => exact .pure _
      | some ss => exact once_oblivious h ss

theorem enterFunction_oblivious (h : ∀ ss, Oblivious (body ss)) (call : Call) (ss : List Stmt) :
    Oblivious (enterFunction body call ss) :=
  ((h ss).framed (fun _ _ => rfl) fun _ _ _ _ => rfl).then_pure

theorem invoke_oblivious (h : ∀ ss, Oblivious (body ss)) (call : Call) (ss : List Stmt) :
    Oblivious (r.invoke body call ss) := by
  refine .ite ?_ (enterFunction_oblivious h call ss)
  refine (narrate_oblivious _).bind fun _ => .get (fun _ _ => rfl) fun s => .ite ?_ ?_
  · exact (narrate_oblivious _).then_pure
  · exact enterFunction_oblivious h call ss

theorem call_oblivious (h : ∀ ss, Oblivious (body ss)) (line : Nat) (name : String)
    (args : List String) : Oblivious (r.call body line name args) := by
  refine .get (fun _ _ => rfl) fun s => ?_
  split
  · exact .throw _
  · exact (expandAll_oblivious args).bind fun args => invoke_oblivious h _ _

theorem enterFile_oblivious (h : ∀ ss, Oblivious (body ss)) (path key : String)
    (ss : List Stmt) : Oblivious (enterFile body path key ss) :=
  ((h ss).framed (fun _ _ => rfl) fun _ _ _ _ => rfl).then_pure

theorem includeFile_oblivious (h : ∀ ss, Oblivious (body ss)) (path : String) :
    Oblivious (r.includeFile body path) := by
  refine (expand_oblivious path).bind fun path => .get (fun _ _ => rfl) fun s => ?_
  refine .ite (.throw _) ?_
  split
  · exact .throw _
  · split
    · exact .throw _
    · exact (Oblivious.modify fun _ _ => rfl).bind fun _ => enterFile_oblivious h _ _ _

theorem action_oblivious (h : ∀ ss, Oblivious (body ss)) (fuel line : Nat) (a : Action) :
    Oblivious (r.action fuel body line a) := by
  cases a with
  | key name =>
    simp only [action]
    split
    · exact .throw _
    · exact (operate_oblivious _).then_pure
  | watch text timeout =>
    refine (expand_oblivious text).bind fun text => .ite ?_ ?_
    · exact (narrate_oblivious _).then_pure
    · exact (watch_oblivious _ _ _).then_pure
  | console number => exact (operate_oblivious _).then_pure
  | wait duration => exact (sleep_oblivious duration).then_pure
  | exit code => exact .pure _
  | endIf => exact .pure _
  | doReturn => exact .pure _
  | doBreak =>
    refine isDebugging_oblivious.bind fun debugging => .get (fun _ _ => rfl) fun s => ?_
    exact .ite (.pure _) (.pure _)
  | includeFile path => exact includeFile_oblivious h path
  | screenshot path format =>
    exact (expand_oblivious path).bind fun path => (operate_oblivious _).then_pure
  | call name args => exact call_oblivious h line name args
  | bind name value =>
    exact (expand_oblivious value).bind fun value => (bind_oblivious name value).then_pure

theorem plain_oblivious (line : Line) : Oblivious (r.plain line) := by
  unfold plain
  cases line.kind with
  | text => exact (expand_oblivious _).bind fun text => (operate_oblivious _).then_pure
  | assignment => exact (assign_oblivious _).then_pure
  | directive | conditional => exact .throw _
  | comment | blank => exact .pure _

theorem dispatch_oblivious (h : ∀ ss, Oblivious (body ss)) (fuel : Nat) (x : Stmt) :
    Oblivious (r.dispatch fuel body x) := by
  cases x with
  | plain line => exact plain_oblivious line
  | action line a => exact action_oblivious h fuel line.number a
  | loop line l ss => exact loop_oblivious h fuel ss l
  | branch line c yes no => exact branch_oblivious h fuel c yes no
  | switch line options cases otherwise => exact switch_oblivious h fuel options cases otherwise

theorem approach_oblivious (x : Stmt) : Oblivious (r.approach x) :=
  checkDeadline_oblivious.bind fun _ =>
    (Oblivious.modify fun _ _ => rfl).bind fun _ => consult_oblivious _

theorem stmt_oblivious (h : ∀ ss, Oblivious (body ss)) (fuel : Nat) (x : Stmt) :
    Oblivious (r.stmt fuel body x) := by
  refine .ite (.pure _) ?_
  refine (approach_oblivious x).bind fun _ => ?_
  refine (dispatch_oblivious h fuel x).positioned.bind fun signal => ?_
  exact (Oblivious.modify fun _ _ => rfl).then_pure

theorem stmts_oblivious {one : Stmt → Run σ (Option Signal)} (h : ∀ x, Oblivious (one x))
    (ss : List Stmt) : Oblivious (stmts one ss) := by
  induction ss with
  | nil => exact .pure _
  | cons x rest ih =>
    refine (h x).bind fun signal => ?_
    cases signal with
    | some signal => exact .pure _
    | none => exact ih

end

/-! ## Runs -/

theorem exec_oblivious (fuel : Nat) (ss : List Stmt) : Oblivious (r.exec fuel ss) := by
  induction fuel generalizing ss with
  | zero => exact .outOfFuel
  | succ fuel ih => exact stmts_oblivious (fun x => stmt_oblivious ih fuel x) ss

theorem execute_unseen (fuel : Nat) (script : Script) (s : Session σ) (tracker : ScreenTracker) :
    (r.execute fuel script { s with screen := tracker }).map (Prod.map id Session.unseen) =
      (r.execute fuel script s).map (Prod.map id Session.unseen) := by
  have hbegins : r.Begins script { s with screen := tracker } ↔ r.Begins script s := Iff.rfl
  rw [execute_eq, execute_eq]
  by_cases h : r.Begins script s
  · rw [if_pos (hbegins.mpr h), if_pos h]
    have hseen' : r.beginScript script { s with screen := tracker } =
        { r.beginScript script s with screen := tracker } := rfl
    rw [hseen']
    obtain ⟨hseen, hrun⟩ | ⟨out, t, last, hseen, hrun⟩ :=
      (exec_oblivious (r := r) fuel script.body).cases (s := r.beginScript script s) tracker
    all_goals rw [hseen, hrun]
    all_goals rfl
  · rw [if_neg fun hyes => h (hbegins.mp hyes), if_neg h]
    rfl

/-- Searching the new rows first finds what a plain search finds, whatever has been done
    with the tracker before: a text is found exactly if some row of the screen contains it.
    So each look of a run is answered by the screen at hand, and neither what lists of
    statements do nor what a script does depends on the screens that were seen before. -/
theorem looks_forget_the_past (r : Runner σ) :
    (∀ (history : List ScreenTracker.Use) (screen : Screen) (needle : String),
      let (hit, tracker) := (ScreenTracker.ofHistory history).search screen needle
      (hit.found = true ↔ ∃ row ∈ screen, needle.toList <:+: row.toList) ∧
      (hit = .new → ∃ row ∈ screen, (∃ c ∈ row.toList, Text.isBlank c = false) ∧
        needle.toList <:+: row.toList) ∧
      tracker.last = some screen) ∧
    (∀ (text : String) (s : Session σ),
      (r.probe text).run s =
        let (screen, world) := r.machine.capture s.world
        some (.ok (screen.toOption.map (·.shows text)),
          { s with world, screen := screen.toOption.elim s.screen (⟨some ·⟩) })) ∧
    (∀ fuel ss (s : Session σ) tracker,
      ((r.exec fuel ss).run { s with screen := tracker }).map (Prod.map id Session.unseen) =
        ((r.exec fuel ss).run s).map (Prod.map id Session.unseen)) ∧
    ∀ fuel script (s : Session σ) tracker,
      (r.execute fuel script { s with screen := tracker }).map (Prod.map id Session.unseen) =
        (r.execute fuel script s).map (Prod.map id Session.unseen) := by
  refine ⟨fun history screen needle => ⟨?_, ?_, ?_⟩, run_probe, ?_, execute_unseen⟩
  · exact ScreenTracker.search_found_iff
  · exact ScreenTracker.exists_row_of_search_new
  · exact congrArg ScreenTracker.last ScreenTracker.search_snd
  · exact fun fuel ss s tracker => exec_oblivious fuel ss s tracker

end Runner

end ConsoleScript
