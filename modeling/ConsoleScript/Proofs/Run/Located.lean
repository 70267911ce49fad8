-- SUMMARY: An error leaves a line with the number of a line, unless asking the debugger fails.
import ConsoleScript.Proofs.Run.Entering
import ConsoleScript.Proofs.Run.Regimes
import ConsoleScript.Proofs.Run.Timing

/-!
# Located errors

A statement puts the number of its line on what goes wrong while it runs, so that an
error leaves a list with exactly one number on it, and what a counted loop keeps of its
last attempt has one too (`RunError.Located`). What goes wrong before a statement gets
no number: the deadline and a stop need none, but the debugger can fail, and so can a
screenshot that it asks for (`debugger_failure_unlocated`). Where neither happens in a
run, every failure is located (`failures_located`).
-/

namespace ConsoleScript

/-! ## Numbers on errors -/

namespace RunError

/-- Whether the error has the number of a line on it. -/
def isNumbered : RunError → Bool
  | atLine .. => true
  | _ => false

/-- No number stands directly under another one, and one stands on everything that a
    counted loop keeps. -/
def Tidy : RunError → Prop
  | atLine _ e => e.isNumbered = false ∧ e.Tidy
  | retryExhausted _ e | repeatFailed _ _ e => e.isNumbered = true ∧ e.Tidy
  | _ => True

/-- The errors with which a line fails. -/
structure Located (e : RunError) : Prop where
  tidy : e.Tidy
  line : e.Fatal ∨ e.isNumbered = true

theorem Fatal.tidy {e : RunError} (h : e.Fatal) : e.Tidy := by
  cases h <;> trivial

theorem Tidy.positioned {e : RunError} (h : e.Tidy) (line : Nat) : (e.positioned line).Located := by
  cases e with
  | atLine n c => exact ⟨h, .inr rfl⟩
  | timeout elapsed => exact ⟨h, .inl (.timeout elapsed)⟩
  | stopped => exact ⟨h, .inl .stopped⟩
  | _ => exact ⟨⟨rfl, h⟩, .inr rfl⟩

theorem Located.isNumbered {e : RunError} (h : e.Located) (hnot : e.isFatal = false) :
    e.isNumbered = true := by
  refine h.line.resolve_left fun hfatal => ?_
  rw [hfatal.isFatal] at hnot
  cases hnot

end RunError

/-! ## Errors of computations -/

namespace Run

variable {σ α β : Type} {P Q : RunError → Prop} {x : Run σ α} {f : α → Run σ β}

/-- What holds of all errors with which `x` fails. -/
def FailsAs (P : RunError → Prop) (x : Run σ α) : Prop :=
  ∀ s e t, x.run s = some (.error e, t) → P e

namespace FailsAs

theorem pure (a : α) : FailsAs P (pure a : Run σ α) := by
  intro s e t h
  cases h

theorem throw {e : RunError} (he : P e) : FailsAs P (throw e : Run σ α) := by
  intro s e' t h
  cases h
  exact he

theorem outOfFuel : FailsAs P (outOfFuel : Run σ α) := by
  intro s e t h
  cases h

theorem get : FailsAs P (get : Run σ (Session σ)) := by
  intro s e t h
  cases h

theorem modify (m : Session σ → Session σ) : FailsAs P (modify m : Run σ Unit) := by
  intro s e t h
  cases h

theorem set (s : Session σ) : FailsAs P (set s : Run σ Unit) := by
  intro s e t h
  cases h

theorem bind (hx : FailsAs P x) (hf : ∀ a, FailsAs P (f a)) : FailsAs P (x >>= f) := by
  intro s e t h
  rw [run_bind] at h
  obtain ⟨⟨out, u⟩, hfirst, hrest⟩ := Option.bind_eq_some_iff.mp h
  cases out with
  | ok a => exact hf a u e t hrest
  | error e' =>
    cases hrest
    exact hx s _ _ hfirst

theorem then_pure {f : α → β} (hx : FailsAs P x) : FailsAs P (x >>= fun a => Pure.pure (f a)) :=
  hx.bind fun _ => pure _

theorem mono (hx : FailsAs P x) (h : ∀ {e}, P e → Q e) : FailsAs Q x :=
  fun s e t hrun => h (hx s e t hrun)

theorem attempt_bind {f : Except RunError α → Run σ β} (hx : FailsAs P x)
    (hok : ∀ a, FailsAs Q (f (.ok a))) (herror : ∀ e, P e → FailsAs Q (f (.error e))) :
    FailsAs Q (attempt x >>= f) := by
  intro s e t h
  rw [run_bind, run_attempt] at h
  obtain ⟨⟨out, u⟩, hfirst, hrest⟩ := Option.bind_eq_some_iff.mp h
  obtain ⟨⟨inner, v⟩, hinner, heq⟩ := Option.map_eq_some_iff.mp hfirst
  cases heq
  cases inner with
  | ok a => exact hok a u e t hrest
  | error e' => exact herror e' (hx s e' u hinner) u e t hrest

theorem framed {enter : Session σ → Session σ} {leave : Session σ → Session σ → Session σ}
    (hx : FailsAs P x) : FailsAs P (framed enter leave x) := by
  intro s e t h
  rw [run_framed] at h
  obtain ⟨⟨out, u⟩, hinner, heq⟩ := Option.map_eq_some_iff.mp h
  cases heq
  exact hx _ e u hinner

end FailsAs

end Run

namespace Runner

open Run (FailsAs)
open RunError (Tidy Located)

variable {σ α : Type} {r : Runner σ} {P : RunError → Prop}

/-! ## Single steps -/

theorem operate_tidy (op : Operation σ α) : FailsAs Tidy (operate op) := by
  refine .bind .get fun s => .bind (.set _) fun _ => ?_
  split
  · exact .pure _
  · exact .throw trivial

theorem narrate_failsAs (text : String) : FailsAs P (r.narrate text) :=
  .modify _

theorem expand_failsAs (text : String) : FailsAs P (r.expand text) :=
  .bind .get fun _ => .then_pure (.set _)

theorem expandAll_failsAs (texts : List String) : FailsAs P (r.expandAll texts) :=
  .bind .get fun _ => .then_pure (.set _)

theorem assign_failsAs (line : String) : FailsAs P (r.assign line) := by
  refine .bind .get fun s => ?_
  split
  · exact .pure _
  · exact .set _

theorem clockTime_failsAs : FailsAs P r.clockTime :=
  .then_pure .get

theorem elapsedSince_failsAs (start : Duration) : FailsAs P (r.elapsedSince start) :=
  clockTime_failsAs.then_pure

theorem checkDeadline_tidy : FailsAs Tidy r.checkDeadline := by
  intro s e t h
  rw [run_checkDeadline] at h
  split at h
  · cases h
  · cases h
    trivial

theorem sleep_tidy (d : Duration) : FailsAs Tidy (r.sleep d) := by
  intro s e t h
  rw [run_sleep] at h
  dsimp only at h
  split at h
  · cases h
    trivial
  · cases h

theorem capture_failsAs : FailsAs P r.capture := by
  intro s e t h
  rw [run_capture] at h
  cases h

theorem probe_failsAs (text : String) : FailsAs P (r.probe text) := by
  refine capture_failsAs.bind fun screen => ?_
  cases screen with
  | none => exact .pure _
  | some screen => exact .bind .get fun _ => .then_pure (.set _)

theorem pollFor_tidy (text : String) (timeout start : Duration) (fuel : Nat) :
    FailsAs Tidy (r.pollFor text timeout start fuel) := by
  induction fuel with
  | zero => exact .outOfFuel
  | succ fuel ih =>
    refine (probe_failsAs text).bind fun found => ?_
    split
    · exact .pure _
    · refine (elapsedSince_failsAs start).bind fun elapsed => ?_
      split
      · exact .pure _
      · exact checkDeadline_tidy.bind fun _ => (sleep_tidy _).bind fun _ => ih

theorem watch_tidy (fuel : Nat) (text : String) (timeout : Duration) :
    FailsAs Tidy (r.watch fuel text timeout) := by
  refine clockTime_failsAs.bind fun start => ?_
  refine (pollFor_tidy text timeout start fuel).bind fun found => ?_
  split
  · exact .pure _
  · exact (elapsedSince_failsAs start).bind fun _ => .throw trivial

theorem pollCases_tidy (patterns : List String) (timeout poll start : Duration) (fuel : Nat) :
    FailsAs Tidy (r.pollCases patterns timeout poll start fuel) := by
  induction fuel with
  | zero => exact .outOfFuel
  | succ fuel ih =>
    have hprobe : FailsAs Tidy (r.probeCases patterns) := by
      refine capture_failsAs.bind fun screen => ?_
      cases screen with
      | none => exact .pure _
      | some screen => exact .then_pure (.modify _)
    refine hprobe.bind fun hit => ?_
    cases hit with
    | some hit => exact .pure _
    | none =>
      refine (elapsedSince_failsAs start).bind fun elapsed => ?_
      split
      · exact .pure _
      · exact (sleep_tidy _).bind fun _ => ih

theorem isDebugging_failsAs : FailsAs P r.isDebugging := by
  unfold isDebugging
  split
  · exact .pure _
  · exact .then_pure .get

/-! ## Statements -/

section

variable {body : Body σ}

/-- Whatever the body fails with is located. -/
def LocatesAll (body : Body σ) : Prop := ∀ ss, FailsAs Located (body ss)

theorem LocatesAll.tidy (h : LocatesAll body) (ss : List Stmt) : FailsAs Tidy (body ss) :=
  (h ss).mono Located.tidy

theorem once_failsAs (h : ∀ ss, FailsAs P (body ss)) (ss : List Stmt) :
    FailsAs P (once body ss) :=
  (h ss).framed.then_pure

theorem branch_tidy (h : LocatesAll body) (fuel : Nat) (c : Condition) (yes no : List Stmt) :
    FailsAs Tidy (r.branch fuel body c yes no) := by
  refine (expand_failsAs c.text).bind fun text => ?_
  dsimp only
  split
  · refine (narrate_failsAs _).bind fun _ => (h.tidy yes).bind fun signal => ?_
    cases signal with
    | some signal => exact .pure _
    | none =>
      dsimp only
      split
      · exact (narrate_failsAs _).bind fun _ => h.tidy no
      · exact h.tidy no
  · refine clockTime_failsAs.bind fun start => ?_
    exact (pollFor_tidy text c.timeout start fuel).bind fun found => h.tidy _

/-- What an attempt fails with is located, and so the loop keeps it with a number. -/
theorem retry_tidy (h : LocatesAll body) (ss : List Stmt) (total left : Nat) :
    FailsAs Tidy (r.retry body ss total left) := by
  induction left with
  | zero => exact .pure _
  | succ left ih =>
    refine (h ss).framed.attempt_bind (fun _ => .pure _) fun e he => ?_
    dsimp only
    split
    · exact .throw he.tidy
    · next hfatal =>
      split
      · exact .throw ⟨he.isNumbered (by simpa using hfatal), he.tidy⟩
      · exact (sleep_tidy _).bind fun _ => ih

theorem repeatTimes_tidy (h : LocatesAll body) (ss : List Stmt) (total left : Nat) :
    FailsAs Tidy (repeatTimes body ss total left) := by
  induction left with
  | zero => exact .pure _
  | succ left ih =>
    refine (h ss).framed.attempt_bind (fun signal => ?_) fun e he => ?_
    · split
      · exact .pure _
      · exact .pure _
      · exact ih
      · next heq => cases heq
    · dsimp only
      split
      · exact .throw he.tidy
      · next hfatal => exact .throw ⟨he.isNumbered (by simpa using hfatal), he.tidy⟩

theorem whileScreen_tidy (h : LocatesAll body) (ss : List Stmt) (presence : Presence)
    (text : String) (timeout poll start : Duration) (fuel : Nat) :
    FailsAs Tidy (r.whileScreen body ss presence text timeout poll start fuel) := by
  induction fuel with
  | zero => exact .outOfFuel
  | succ fuel ih =>
    refine (probe_failsAs text).bind fun found => ?_
    split
    · exact .pure _
    · apply FailsAs.bind
      · split
        · exact (h.tidy ss).framed
        · exact .pure _
      · intro signal
        cases signal with
        | some signal => exact .pure _
        | none =>
          refine (elapsedSince_failsAs start).bind fun elapsed => ?_
          split
          · exact .throw trivial
          · exact (sleep_tidy _).bind fun _ => ih

theorem loop_tidy (h : LocatesAll body) (fuel : Nat) (ss : List Stmt) (l : Loop) :
    FailsAs Tidy (r.loop fuel body ss l) := by
  cases l with
  | retry attempts =>
    simp only [loop]
    split
    · exact (narrate_failsAs _).bind fun _ => once_failsAs h.tidy ss
    · exact retry_tidy h ss attempts attempts
  | repeatTimes count =>
    simp only [loop]
    split
    · exact (narrate_failsAs _).bind fun _ => once_failsAs h.tidy ss
    · exact repeatTimes_tidy h ss count count
  | whileScreen presence text timeout poll =>
    refine (expand_failsAs text).bind fun text => ?_
    dsimp only
    split
    · exact (narrate_failsAs _).bind fun _ => once_failsAs h.tidy ss
    · exact clockTime_failsAs.bind fun start => whileScreen_tidy h ss presence text _ _ start fuel

theorem tellCases_failsAs (h : ∀ ss, FailsAs P (body ss)) (cases : List (Case Stmt × String)) :
    FailsAs P (r.tellCases body cases) := by
  induction cases with
  | nil => exact .pure _
  | cons head rest ih =>
    obtain ⟨c, pattern⟩ := head
    refine (narrate_failsAs _).bind fun _ => (once_failsAs h c.body).bind fun signal => ?_
    cases signal with
    | some signal => exact .pure _
    | none => exact ih

theorem switch_tidy (h : LocatesAll body) (fuel : Nat) (options : SwitchOptions)
    (cases : List (Case Stmt)) (otherwise : Option (List Stmt)) :
    FailsAs Tidy (r.switch fuel body options cases otherwise) := by
  refine (expandAll_failsAs _).bind fun patterns => ?_
  split
  · refine (narrate_failsAs _).bind fun _ => (tellCases_failsAs h.tidy _).bind fun signal => ?_
    cases signal with
    | some signal => exact .pure _
    | none =>
      cases otherwise with
      | none => exact .pure _
      | some ss => exact (narrate_failsAs _).bind fun _ => once_failsAs h.tidy ss
  · refine clockTime_failsAs.bind fun start => (pollCases_tidy _ _ _ _ _).bind fun hit => ?_
    split
    · exact once_failsAs h.tidy _
    · cases otherwise with
      | none => exact .pure _
      | some ss => exact once_failsAs h.tidy ss

theorem invoke_failsAs (h : ∀ ss, FailsAs P (body ss)) (call : Call) (ss : List Stmt) :
    FailsAs P (r.invoke body call ss) := by
  have henter : FailsAs P (enterFunction body call ss) := (h ss).framed.then_pure
  unfold invoke
  split
  · refine (narrate_failsAs _).bind fun _ => .bind .get fun s => ?_
    split
    · exact (narrate_failsAs _).then_pure
    · exact henter
  · exact henter

theorem call_tidy (h : LocatesAll body) (line : Nat) (name : String) (args : List String) :
    FailsAs Tidy (r.call body line name args) := by
  refine .bind .get fun s => ?_
  split
  · exact .throw trivial
  · exact (expandAll_failsAs args).bind fun args => invoke_failsAs h.tidy _ _

theorem includeFile_tidy (h : LocatesAll body) (path : String) :
    FailsAs Tidy (r.includeFile body path) := by
  refine (expand_failsAs path).bind fun path => .bind .get fun s => ?_
  dsimp only
  split
  · exact .throw trivial
  · split
    · exact .throw trivial
    · split
      · exact .throw trivial
      · exact .bind (.modify _) fun _ => (h.tidy _).framed.then_pure

theorem action_tidy (h : LocatesAll body) (fuel line : Nat) (act : Action) :
    FailsAs Tidy (r.action fuel body line act) := by
  cases act with
  | key name =>
    simp only [action]
    split
    · exact .throw trivial
    · exact (operate_tidy _).then_pure
  | watch text timeout =>
    refine (expand_failsAs text).bind fun text => ?_
    dsimp only
    split
    · exact (narrate_failsAs _).then_pure
    · exact (watch_tidy _ _ _).then_pure
  | console number => exact (operate_tidy _).then_pure
  | wait duration => exact (sleep_tidy duration).then_pure
  | exit code => exact .pure _
  | endIf => exact .pure _
  | doReturn => exact .pure _
  | doBreak =>
    refine isDebugging_failsAs.bind fun debugging => .bind .get fun s => ?_
    split <;> exact .pure _
  | includeFile path => exact includeFile_tidy h path
  | screenshot path format => exact (expand_failsAs path).bind fun _ => (operate_tidy _).then_pure
  | call name args => exact call_tidy h line name args
  | bind name value => exact (expand_failsAs value).bind fun _ => .then_pure (.modify _)

theorem plain_tidy (line : Line) : FailsAs Tidy (r.plain line) := by
  unfold plain
  cases line.kind with
  | text => exact (expand_failsAs line.trimmed).bind fun _ => (operate_tidy _).then_pure
  | assignment => exact (assign_failsAs line.trimmed).then_pure
  | directive | conditional => exact .throw trivial
  | comment | blank => exact .pure _

theorem dispatch_tidy (h : LocatesAll body) (fuel : Nat) (x : Stmt) :
    FailsAs Tidy (r.dispatch fuel body x) := by
  cases x with
  | plain line => exact plain_tidy line
  | action line act => exact action_tidy h fuel line.number act
  | loop line l ss => exact loop_tidy h fuel ss l
  | branch line c yes no => exact branch_tidy h fuel c yes no
  | switch line options cases otherwise => exact switch_tidy h fuel options cases otherwise

/-- A statement gives the number of its line to what has none. -/
theorem stmt_located (h : LocatesAll body) {fuel : Nat} {x : Stmt} {s t : Session σ} {e : RunError}
    (hbefore : x.line.kind.isSkipped = false →
      ∀ e u, (r.approach x).run s = some (.error e, u) → e.Fatal)
    (hrun : (r.stmt fuel body x).run s = some (.error e, t)) : e.Located := by
  simp only [stmt] at hrun
  split at hrun
  · cases hrun
  · next hkind =>
    rw [Run.run_bind] at hrun
    obtain ⟨⟨out, u⟩, hfirst, hrest⟩ := Option.bind_eq_some_iff.mp hrun
    cases out with
    | error e' =>
      cases hrest
      have hfatal := hbefore (by simpa using hkind) _ _ hfirst
      exact ⟨hfatal.tidy, .inl hfatal⟩
    | ok _ =>
      have hafter : FailsAs Located (Run.positioned x.line.number (r.dispatch fuel body x) >>=
          fun signal => do
            modify fun session => { session with linesExecuted := session.linesExecuted + 1 }
            return signal) := by
        refine .bind ?_ fun signal => .then_pure (.modify _)
        refine (dispatch_tidy h fuel x).attempt_bind (fun _ => .pure _) fun e he => ?_
        exact .throw (he.positioned _)
      exact hafter u e t hrest

end

/-! ## Runs -/

/-- Wherever the run comes to a statement, only the deadline and a stop keep it from
    running it. -/
def ConsultsCleanly (r : Runner σ) (start : Point σ) : Prop :=
  ∀ {around n x rest s}, r.Reaches start ⟨around, n + 1, x :: rest, s⟩ →
    x.line.kind.isSkipped = false →
    ∀ e t, (r.approach x).run s = some (.error e, t) → e.Fatal

theorem consult_fatal (h : ∀ d, r.debugger = some d → ∀ e scope w,
    (d.decide e scope w).1 ∈ [.ok .step, .ok .proceed, .ok .stop]) (e : Entry) :
    FailsAs RunError.Fatal (r.consult e) := by
  unfold consult
  split
  · exact .pure _
  · next d hd =>
    refine .bind .get fun s => ?_
    split
    · have hanswer := h d hd e s.scope s.world
      refine .bind (.set _) fun _ => ?_
      revert hanswer
      cases (d.decide e s.scope s.world).1 with
      | error e => simp
      | ok answer =>
        cases answer with
        | step | proceed => exact fun _ => .pure _
        | stop => exact fun _ => .throw .stopped
        | screenshot path => simp
    · exact .pure _

/-- A debugger that neither fails nor asks for a screenshot does not disturb a run. -/
theorem consultsCleanly_of_answers {start : Point σ} (h : ∀ d, r.debugger = some d →
    ∀ e scope w, (d.decide e scope w).1 ∈ [.ok .step, .ok .proceed, .ok .stop]) :
    r.ConsultsCleanly start := by
  intro around n x rest s _ _ e t hrun
  have hdeadline : FailsAs RunError.Fatal r.checkDeadline := by
    intro s e t hrun
    rw [run_checkDeadline] at hrun
    split at hrun
    · cases hrun
    · cases hrun
      exact .timeout _
  have happroach : FailsAs RunError.Fatal (r.approach x) :=
    hdeadline.bind fun _ => .bind (.modify _) fun _ => consult_fatal h x.entry
  exact happroach s e t hrun

/-- A statement that the run comes to fails with a located error if what it enters does. -/
theorem Reaches.stmt_located {start : Point σ} (hclean : r.ConsultsCleanly start)
    {around : List (Activation σ)} {n : Nat} {x : Stmt} {rest : List Stmt} {s t : Session σ}
    {e : RunError} (h : r.Reaches start ⟨around, n + 1, x :: rest, s⟩)
    (henters : ∀ ss u, r.Enters n x s ss u →
      ∀ e v, (r.exec n ss).run u = some (.error e, v) → e.Located)
    (hrun : (r.stmt n (r.exec n) x).run s = some (.error e, t)) : e.Located := by
  obtain ⟨body, hbody, hsame⟩ := exists_body_of_enters
    (G := fun _ _ out => ∀ e v, out = some (.error e, v) → e.Located)
    (fun _ _ => ⟨none, fun _ _ hnone => nomatch hnone⟩) henters
  rw [← hsame] at hrun
  exact Runner.stmt_located hbody (hclean h) hrun

theorem exec_located {start p : Point σ} (hclean : r.ConsultsCleanly start)
    (h : r.Reaches start p) :
    ∀ e t, (r.exec p.fuel p.next).run p.session = some (.error e, t) → e.Located := by
  obtain ⟨around, n, next, s⟩ := p
  dsimp only
  induction n generalizing around next s with
  | zero => exact fun e t hrun => nomatch hrun
  | succ n ih =>
    induction next generalizing s with
    | nil => exact fun e t hrun => nomatch hrun
    | cons x rest ihnext =>
      intro e t hrun
      rw [exec, stmts, Run.run_bind] at hrun
      obtain ⟨⟨out, u⟩, hfirst, hrest⟩ := Option.bind_eq_some_iff.mp hrun
      cases out with
      | error e' =>
        cases hrest
        exact h.stmt_located hclean (fun ss v henter => ih _ ss v (h.inside henter)) hfirst
      | ok signal =>
        cases signal with
        | some signal => cases hrest
        | none => exact ihnext u (h.next hfirst) e t hrest

/-- Where nothing goes wrong with asking the debugger, a line fails because of the
    deadline or a stop, or with exactly one number of a line, and counted loops keep
    numbered errors only. So the report on a run that fails begins with the number of a
    line, unless it failed because of these two, or did not begin. -/
theorem failures_located {start : Point σ} (hclean : r.ConsultsCleanly start) :
    (∀ {around n x rest s e t}, r.Reaches start ⟨around, n + 1, x :: rest, s⟩ →
      (r.stmt n (r.exec n) x).run s = some (.error e, t) →
      (e.Fatal ∨ ∃ line cause, e = .atLine line cause ∧ cause.isNumbered = false) ∧ e.Tidy) ∧
    ∀ {fuel script s report t e}, start = r.beginning fuel script s →
      r.execute fuel script s = some (report, t) → report.error = some e →
      e.Fatal ∨ (∃ issues, e = .invalid issues) ∨
        ∃ (line : Nat) (text : String), e.message = "line " ++ toString line ++ ": " ++ text := by
  have hline : ∀ {e : RunError}, e.Located →
      e.Fatal ∨ ∃ line cause, e = .atLine line cause ∧ cause.isNumbered = false := by
    rintro e ⟨htidy, hfatal | hnumbered⟩
    · exact .inl hfatal
    · cases e with
      | atLine line cause => exact .inr ⟨line, cause, rfl, htidy.1⟩
      | _ => cases hnumbered
  refine ⟨fun h hrun => ?_, fun hstart hrun he => ?_⟩
  · have hlocated := h.stmt_located hclean
      (fun ss v henter => exec_located hclean (h.inside henter)) hrun
    exact ⟨hline hlocated, hlocated.tidy⟩
  · subst hstart
    rw [execute_eq] at hrun
    split at hrun
    · obtain ⟨⟨out, u⟩, hexec, heq⟩ := Option.map_eq_some_iff.mp hrun
      cases heq
      rw [report_error he] at hexec
      rcases hline (exec_located hclean .start _ _ hexec) with hfatal | ⟨line, cause, rfl, -⟩
      · exact .inl hfatal
      · exact .inr (.inr ⟨line, cause.message, rfl⟩)
    · cases hrun
      cases report_error he
      exact .inr (.inl ⟨_, rfl⟩)

/-- Runs scripts on the machine that records keys, with a debugger that is asked at
    every line and gives one answer. -/
def answering (answer : Except DebugError DebugAction) : Runner (List String) :=
  { keyLogger with debugger := some ⟨fun _ => true, fun _ _ => true, fun _ _ w => (answer, w)⟩ }

/-- Two attempts to press a key that does not exist. -/
def pressesInVain : Script where
  body := [.loop ⟨1, "", "", "", .directive, none⟩ (.retry 2)
    [.action ⟨2, "", "", "", .directive, none⟩ (.key "nosuch")]]
  functions := []
  summary := .of [] []

theorem failures_located_in_vain :
    ∃ report t e, (answering (.ok .step)).execute 2 pressesInVain (.start .empty []) =
        some (report, t) ∧
      report.error = some e ∧
      e.message = "line 1: retry failed after 2 attempts: line 2: unknown key 'nosuch'" ∧
      e.Tidy ∧
      ∃ (line : Nat) (text : String), e.message = "line " ++ toString line ++ ": " ++ text := by
  have hclean : (answering (.ok .step)).ConsultsCleanly
      ((answering (.ok .step)).beginning 2 pressesInVain (.start .empty [])) := by
    refine consultsCleanly_of_answers fun d hd e scope w => ?_
    cases hd
    exact List.mem_cons_self
  obtain ⟨hlines, hreports⟩ := failures_located hclean
  refine ⟨_, _, _, rfl, rfl, by decide +kernel, (hlines .start rfl).2, ?_⟩
  rcases hreports rfl rfl rfl with hfatal | ⟨issues, hinvalid⟩ | hmessage
  · cases hfatal
  · cases hinvalid
  · exact hmessage

/-- The error of a debugger that fails before a line gets no number. -/
theorem debugger_failure_unlocated :
    ∃ report t e, (answering (.error (.io "debugger gone"))).execute 1
        ⟨[.plain ⟨1, "a", "a", "a", .text, none⟩], [], .of [] []⟩ (.start .empty []) =
        some (report, t) ∧
      report.error = some e ∧ e.message = "debugger I/O error: debugger gone" ∧
      ¬e.Fatal ∧
      ∀ (line : Nat) (text : String), e.message ≠ "line " ++ toString line ++ ": " ++ text := by
  have hmessage : (RunError.debugger (.io "debugger gone")).message =
      "debugger I/O error: debugger gone" := rfl
  refine ⟨_, _, .debugger (.io "debugger gone"), rfl, rfl, hmessage, ?_, fun line text heq => ?_⟩
  · intro hfatal
    cases hfatal
  · rw [hmessage, String.append_assoc, String.append_assoc] at heq
    have hfirst := congrArg (fun message => message.toList.head?) heq
    rw [String.toList_append, List.head?_append] at hfirst
    cases hfirst

end Runner

end ConsoleScript
