-- SUMMARY: Statements in a world with a debugger beside the machine do as without one.
import ConsoleScript.Proofs.Run.Entering
import ConsoleScript.Proofs.Run.Timing

/-!
# Worlds with a debugger beside the machine

The state of a debugger is no business of the machine: it stands beside the machine's
world (`Runner.watched`). `Run.Mirrors x y s` says that a computation `x` in such a
world does as `y` in the machine's world alone. All that a statement does is mirrored,
apart from asking the debugger before it and from a break, which looks whether there is
one (`dispatch_mirrors`).
-/

namespace ConsoleScript

variable {σ δ α β : Type}

/-! ## Beside the world -/

/-- An operation in a world with something beside that it does not see. -/
def Operation.beside (δ : Type) (op : Operation σ α) : Operation (σ × δ) α := fun w =>
  ((op w.1).1, (op w.1).2, w.2)

/-- A machine in a world with something beside that it does not see. -/
def Machine.beside (δ : Type) (m : Machine σ) : Machine (σ × δ) where
  typeText text := Operation.beside δ (m.typeText text)
  pressKey key := Operation.beside δ (m.pressKey key)
  switchConsole number := Operation.beside δ (m.switchConsole number)
  wait d w := (m.wait d w.1, w.2)
  screenshot path format := Operation.beside δ (m.screenshot path format)
  capture := Operation.beside δ m.capture
  isDryRun := m.isDryRun
  narrate text w := (m.narrate text w.1, w.2)
  clock := ⟨fun w => m.clock.elapsed w.1, fun w => m.clock.seconds w.1⟩

/-- A debugger that stands beside the world of a machine. It takes no time there, and
    does nothing to the machine. -/
def Debugger.beside (σ : Type) (d : Debugger δ) : Debugger (σ × δ) where
  isEnabled w := d.isEnabled w.2
  stopsAt e w := d.stopsAt e w.2
  decide e scope w := ((d.decide e scope w.2).1, w.1, (d.decide e scope w.2).2)

/-- The runner with a debugger beside. -/
def Runner.watched (r : Runner σ) (d : Debugger δ) : Runner (σ × δ) where
  machine := r.machine.beside δ
  debugger := some (d.beside σ)
  settings := r.settings
  files := r.files
  filesIn w := r.filesIn w.1

namespace Session

/-- The session with something beside its world. -/
def beside (s : Session σ) (state : δ) : Session (σ × δ) where
  line := s.line
  scope := s.scope
  calls := s.calls
  started := s.started
  linesExecuted := s.linesExecuted
  functions := s.functions
  includes := s.includes
  baseDir := s.baseDir
  loopDepth := s.loopDepth
  screen := s.screen
  world := (s.world, state)

/-- The session without what is beside its world. -/
def alone (s : Session (σ × δ)) : Session σ where
  line := s.line
  scope := s.scope
  calls := s.calls
  started := s.started
  linesExecuted := s.linesExecuted
  functions := s.functions
  includes := s.includes
  baseDir := s.baseDir
  loopDepth := s.loopDepth
  screen := s.screen
  world := s.world.1

end Session

/-! ## Mirrored computations -/

namespace Run

/-- From `s` on, `x` does as `y` does without what is beside. -/
def Mirrors (x : Run (σ × δ) α) (y : Run σ α) (s : Session (σ × δ)) : Prop :=
  (x.run s).map (fun (out, t) => (out, t.alone)) = y.run s.alone

namespace Mirrors

variable {x : Run (σ × δ) α} {y : Run σ α} {f : α → Run (σ × δ) β} {g : α → Run σ β}
  {s : Session (σ × δ)}

theorem pure (a : α) : Mirrors (pure a) (pure a) s := rfl

theorem throw (e : RunError) : Mirrors (throw e : Run (σ × δ) α) (throw e) s := rfl

theorem outOfFuel : Mirrors (outOfFuel : Run (σ × δ) α) outOfFuel s := rfl

theorem get {f : Session (σ × δ) → Run (σ × δ) α} {g : Session σ → Run σ α}
    (h : Mirrors (f s) (g s.alone) s) : Mirrors (get >>= f) (get >>= g) s := h

theorem set {t : Session (σ × δ)} {t' : Session σ} {f : Unit → Run (σ × δ) α}
    {g : Unit → Run σ α} (ht : t.alone = t') (h : Mirrors (f ()) (g ()) t) :
    Mirrors (set t >>= f) (set t' >>= g) s := by
  subst ht
  exact h

theorem modify {m : Session (σ × δ) → Session (σ × δ)} {m' : Session σ → Session σ}
    (h : (m s).alone = m' s.alone) : Mirrors (modify m) (modify m') s := by
  change some (_, _) = some (_, _)
  rw [h]

/-- It is enough that what follows is mirrored where the first part ends. -/
theorem bind_of (hx : Mirrors x y s)
    (hf : ∀ a t, x.run s = some (.ok a, t) → Mirrors (f a) (g a) t) :
    Mirrors (x >>= f) (y >>= g) s := by
  unfold Mirrors at hx ⊢
  rw [run_bind, run_bind, ← hx]
  cases hrun : x.run s with
  | none => rfl
  | some result =>
    obtain ⟨out, t⟩ := result
    cases out with
    | error e => rfl
    | ok a => exact hf a t hrun

theorem bind (hx : Mirrors x y s) (hf : ∀ a t, Mirrors (f a) (g a) t) :
    Mirrors (x >>= f) (y >>= g) s :=
  hx.bind_of fun a t _ => hf a t

theorem then_pure {f : α → β} (hx : Mirrors x y s) :
    Mirrors (x >>= fun a => Pure.pure (f a)) (y >>= fun a => Pure.pure (f a)) s :=
  hx.bind fun _ _ => pure _

theorem ite {p q : Prop} [Decidable p] [Decidable q] {x' : Run (σ × δ) α} {y' : Run σ α}
    (hpq : p ↔ q) (hyes : Mirrors x y s) (hno : Mirrors x' y' s) :
    Mirrors (if p then x else x') (if q then y else y') s := by
  by_cases hp : p
  · rwa [if_pos hp, if_pos (hpq.mp hp)]
  · rwa [if_neg hp, if_neg fun hq => hp (hpq.mpr hq)]

theorem attempt (hx : Mirrors x y s) : Mirrors (attempt x) (attempt y) s := by
  unfold Mirrors at hx ⊢
  rw [run_attempt, run_attempt, ← hx]
  cases x.run s <;> rfl

theorem positioned {line : Nat} (hx : Mirrors x y s) :
    Mirrors (positioned line x) (positioned line y) s := by
  unfold Mirrors at hx ⊢
  rw [run_positioned, run_positioned, ← hx]
  cases x.run s <;> rfl

theorem framed {enter : Session (σ × δ) → Session (σ × δ)} {enter' : Session σ → Session σ}
    {leave : Session (σ × δ) → Session (σ × δ) → Session (σ × δ)}
    {leave' : Session σ → Session σ → Session σ} (hx : Mirrors x y (enter s))
    (henter : (enter s).alone = enter' s.alone)
    (hleave : ∀ t, (leave s t).alone = leave' s.alone t.alone) :
    Mirrors (framed enter leave x) (framed enter' leave' y) s := by
  unfold Mirrors at hx ⊢
  rw [run_framed, run_framed, ← henter, ← hx]
  cases x.run (enter s) with
  | none => rfl
  | some result =>
    obtain ⟨out, t⟩ := result
    exact congrArg (fun u => some (out, u)) (hleave t)

end Mirrors

end Run

namespace Runner

open Run (Mirrors)

variable {r : Runner σ} {d : Debugger δ} {s : Session (σ × δ)}

/-! ## Single steps -/

theorem operate_mirrors (op : Operation σ α) :
    Mirrors (operate (Operation.beside δ op)) (operate op) s := by
  refine .get (.set rfl ?_)
  dsimp only [Operation.beside, Session.alone]
  cases (op s.world.1).1 with
  | ok a => exact .pure _
  | error e => exact .throw _

theorem narrate_mirrors (text : String) : Mirrors ((r.watched d).narrate text) (r.narrate text) s :=
  .modify rfl

theorem expand_mirrors (text : String) : Mirrors ((r.watched d).expand text) (r.expand text) s :=
  rfl

theorem expandAll_mirrors (texts : List String) :
    Mirrors ((r.watched d).expandAll texts) (r.expandAll texts) s :=
  rfl

theorem bind_mirrors (name value : String) :
    Mirrors (bind name value : Run (σ × δ) Unit) (bind name value) s :=
  rfl

theorem assign_mirrors (line : String) : Mirrors ((r.watched d).assign line) (r.assign line) s := by
  refine .get ?_
  dsimp only [watched, Machine.beside, Session.alone]
  cases s.scope.readAssignment? (r.machine.clock.seconds s.world.1) line with
  | none => exact .pure _
  | some result => rfl

theorem clockTime_mirrors : Mirrors (r.watched d).clockTime r.clockTime s :=
  rfl

theorem elapsedSince_mirrors (start : Duration) :
    Mirrors ((r.watched d).elapsedSince start) (r.elapsedSince start) s :=
  rfl

theorem checkDeadline_mirrors : Mirrors (r.watched d).checkDeadline r.checkDeadline s := by
  unfold Mirrors
  rw [run_checkDeadline, run_checkDeadline]
  rfl

theorem sleep_mirrors (t : Duration) : Mirrors ((r.watched d).sleep t) (r.sleep t) s := by
  unfold Mirrors
  rw [run_sleep, run_sleep]
  rfl

theorem capture_mirrors : Mirrors (r.watched d).capture r.capture s := by
  unfold Mirrors
  rw [run_capture, run_capture]
  rfl

theorem probe_mirrors (text : String) : Mirrors ((r.watched d).probe text) (r.probe text) s := by
  refine capture_mirrors.bind fun screen t => ?_
  cases screen <;> rfl

theorem pollFor_mirrors (text : String) (timeout start : Duration) (fuel : Nat) :
    Mirrors ((r.watched d).pollFor text timeout start fuel) (r.pollFor text timeout start fuel)
      s := by
  induction fuel generalizing s with
  | zero => exact .outOfFuel
  | succ fuel ih =>
    refine (probe_mirrors text).bind fun found t => ?_
    split
    · exact .pure _
    · refine (elapsedSince_mirrors start).bind fun elapsed t => ?_
      split
      · exact .pure _
      · exact checkDeadline_mirrors.bind fun _ t => (sleep_mirrors _).bind fun _ t => ih

theorem watch_mirrors (fuel : Nat) (text : String) (timeout : Duration) :
    Mirrors ((r.watched d).watch fuel text timeout) (r.watch fuel text timeout) s := by
  refine clockTime_mirrors.bind fun start t => ?_
  refine (pollFor_mirrors text timeout start fuel).bind fun found t => ?_
  split
  · exact .pure _
  · exact (elapsedSince_mirrors start).bind fun _ t => .throw _

theorem pollCases_mirrors (patterns : List String) (timeout poll start : Duration) (fuel : Nat) :
    Mirrors ((r.watched d).pollCases patterns timeout poll start fuel)
      (r.pollCases patterns timeout poll start fuel) s := by
  induction fuel generalizing s with
  | zero => exact .outOfFuel
  | succ fuel ih =>
    have hprobe : Mirrors ((r.watched d).probeCases patterns) (r.probeCases patterns) s := by
      refine capture_mirrors.bind fun screen t => ?_
      cases screen <;> rfl
    refine hprobe.bind fun hit t => ?_
    cases hit with
    | some hit => exact .pure _
    | none =>
      refine (elapsedSince_mirrors start).bind fun elapsed t => ?_
      split
      · exact .pure _
      · exact (sleep_mirrors _).bind fun _ t => ih

/-! ## Statements -/

section

variable {body : Body (σ × δ)} {body' : Body σ}

/-- What a body does the other one does without what is beside. -/
def BodyMirrors (body : Body (σ × δ)) (body' : Body σ) : Prop :=
  ∀ ss s, Mirrors (body ss) (body' ss) s

theorem breakable_mirrors (h : BodyMirrors body body') (ss : List Stmt) :
    Mirrors (breakable body ss) (breakable body' ss) s :=
  .framed (h ss _) rfl fun _ => rfl

theorem once_mirrors (h : BodyMirrors body body') (ss : List Stmt) :
    Mirrors (once body ss) (once body' ss) s :=
  (breakable_mirrors h ss).then_pure

theorem branch_mirrors (h : BodyMirrors body body') (fuel : Nat) (c : Condition)
    (yes no : List Stmt) :
    Mirrors ((r.watched d).branch fuel body c yes no) (r.branch fuel body' c yes no) s := by
  refine (expand_mirrors c.text).bind fun text t => .ite Iff.rfl ?_ ?_
  · refine (narrate_mirrors _).bind fun _ t => (h yes t).bind fun signal t => ?_
    cases signal with
    | some signal => exact .pure _
    | none =>
      dsimp only
      split
      · exact (narrate_mirrors _).bind fun _ t => h no t
      · exact h no t
  · refine clockTime_mirrors.bind fun start t => ?_
    exact (pollFor_mirrors text c.timeout start fuel).bind fun found t => h _ t

theorem retry_mirrors (h : BodyMirrors body body') (ss : List Stmt) (total left : Nat) :
    Mirrors ((r.watched d).retry body ss total left) (r.retry body' ss total left) s := by
  induction left generalizing s with
  | zero => exact .pure _
  | succ left ih =>
    refine (breakable_mirrors h ss).attempt.bind fun out t => ?_
    cases out with
    | ok signal => exact .pure _
    | error e =>
      dsimp only
      split
      · exact .throw _
      · split
        · exact .throw _
        · exact (sleep_mirrors _).bind fun _ t => ih

theorem repeatTimes_mirrors (h : BodyMirrors body body') (ss : List Stmt) (total left : Nat) :
    Mirrors (repeatTimes body ss total left) (repeatTimes body' ss total left) s := by
  induction left generalizing s with
  | zero => exact .pure _
  | succ left ih =>
    refine (breakable_mirrors h ss).attempt.bind fun out t => ?_
    split
    · exact .pure _
    · exact .pure _
    · exact ih
    · split <;> exact .throw _

theorem whileScreen_mirrors (h : BodyMirrors body body') (ss : List Stmt) (presence : Presence)
    (text : String) (timeout poll start : Duration) (fuel : Nat) :
    Mirrors ((r.watched d).whileScreen body ss presence text timeout poll start fuel)
      (r.whileScreen body' ss presence text timeout poll start fuel) s := by
  induction fuel generalizing s with
  | zero => exact .outOfFuel
  | succ fuel ih =>
    refine (probe_mirrors text).bind fun found t => ?_
    split
    · exact .pure _
    · apply Mirrors.bind
      · split
        · exact breakable_mirrors h ss
        · exact .pure _
      · intro signal t
        cases signal with
        | some signal => exact .pure _
        | none =>
          refine (elapsedSince_mirrors start).bind fun elapsed t => ?_
          split
          · exact .throw _
          · exact (sleep_mirrors _).bind fun _ t => ih

theorem loop_mirrors (h : BodyMirrors body body') (fuel : Nat) (ss : List Stmt) (l : Loop) :
    Mirrors ((r.watched d).loop fuel body ss l) (r.loop fuel body' ss l) s := by
  cases l with
  | retry attempts =>
    refine .ite Iff.rfl ?_ ?_
    · exact (narrate_mirrors _).bind fun _ t => once_mirrors h ss
    · exact retry_mirrors h ss attempts attempts
  | repeatTimes count =>
    refine .ite Iff.rfl ?_ ?_
    · exact (narrate_mirrors _).bind fun _ t => once_mirrors h ss
    · exact repeatTimes_mirrors h ss count count
  | whileScreen presence text timeout poll =>
    refine (expand_mirrors text).bind fun text t => .ite Iff.rfl ?_ ?_
    · exact (narrate_mirrors _).bind fun _ t => once_mirrors h ss
    · refine clockTime_mirrors.bind fun start t => ?_
      exact whileScreen_mirrors h ss presence text timeout _ start fuel

theorem tellCases_mirrors (h : BodyMirrors body body') (cases : List (Case Stmt × String)) :
    Mirrors ((r.watched d).tellCases body cases) (r.tellCases body' cases) s := by
  induction cases generalizing s with
  | nil => exact .pure _
  | cons head rest ih =>
    obtain ⟨c, pattern⟩ := head
    refine (narrate_mirrors _).bind fun _ t => (once_mirrors h c.body).bind fun signal t => ?_
    cases signal with
    | some signal => exact .pure _
    | none => exact ih

theorem switch_mirrors (h : BodyMirrors body body') (fuel : Nat) (options : SwitchOptions)
    (cases : List (Case Stmt)) (otherwise : Option (List Stmt)) :
    Mirrors ((r.watched d).switch fuel body options cases otherwise)
      (r.switch fuel body' options cases otherwise) s := by
  refine (expandAll_mirrors _).bind fun patterns t => .ite Iff.rfl ?_ ?_
  · refine (narrate_mirrors _).bind fun _ t => (tellCases_mirrors h _).bind fun signal t => ?_
    cases signal with
    | some signal => exact .pure _
    | none =>
      cases otherwise with
      | none => exact .pure _
      | some ss => exact (narrate_mirrors _).bind fun _ t => once_mirrors h ss
  · refine clockTime_mirrors.bind fun start t => ?_
    refine (pollCases_mirrors _ _ _ _ _).bind fun hit t => ?_
    split
    · exact once_mirrors h _
    · cases otherwise with
      | none => exact .pure _
      | some ss => exact once_mirrors h ss

theorem invoke_mirrors (h : BodyMirrors body body') (call : Call) (ss : List Stmt) :
    Mirrors ((r.watched d).invoke body call ss) (r.invoke body' call ss) s := by
  have henter : ∀ t : Session (σ × δ),
      Mirrors (enterFunction body call ss) (enterFunction body' call ss) t :=
    fun t => (Mirrors.framed (h ss _) rfl fun _ => rfl).then_pure
  refine .ite Iff.rfl ?_ ?_
  · refine (narrate_mirrors _).bind fun _ t => .get (.ite Iff.rfl ?_ ?_)
    · exact (narrate_mirrors _).then_pure
    · exact henter t
  · exact henter s

theorem call_mirrors (h : BodyMirrors body body') (line : Nat) (name : String)
    (args : List String) :
    Mirrors ((r.watched d).call body line name args) (r.call body' line name args) s := by
  refine .get ?_
  dsimp only [Session.alone]
  split
  · exact .throw _
  · exact (expandAll_mirrors args).bind fun args t => invoke_mirrors h _ _

theorem includeFile_mirrors (h : BodyMirrors body body') (path : String) :
    Mirrors ((r.watched d).includeFile body path) (r.includeFile body' path) s := by
  refine (expand_mirrors path).bind fun path t => .get (.ite Iff.rfl (.throw _) ?_)
  dsimp only [Session.alone, watched, Machine.beside]
  split
  · exact .throw _
  · split
    · exact .throw _
    · refine Mirrors.bind (.modify rfl) fun _ u => ?_
      exact (Mirrors.framed (h _ _) rfl fun _ => rfl).then_pure

/-- A break apart, which looks whether there is a debugger. -/
theorem action_mirrors (h : BodyMirrors body body') (fuel line : Nat) {act : Action}
    (hact : act ≠ .doBreak) :
    Mirrors ((r.watched d).action fuel body line act) (r.action fuel body' line act) s := by
  cases act with
  | key name =>
    simp only [action]
    split
    · exact .throw _
    · exact (operate_mirrors _).then_pure
  | watch text timeout =>
    refine (expand_mirrors text).bind fun text t => .ite Iff.rfl ?_ ?_
    · exact (narrate_mirrors _).then_pure
    · exact (watch_mirrors _ _ _).then_pure
  | console number => exact (operate_mirrors _).then_pure
  | wait duration => exact (sleep_mirrors duration).then_pure
  | exit code => exact .pure _
  | endIf => exact .pure _
  | doReturn => exact .pure _
  | doBreak => exact absurd rfl hact
  | includeFile path => exact includeFile_mirrors h path
  | screenshot path format =>
    exact (expand_mirrors path).bind fun path t => (operate_mirrors _).then_pure
  | call name args => exact call_mirrors h line name args
  | bind name value =>
    exact (expand_mirrors value).bind fun value t => (bind_mirrors name value).then_pure

theorem plain_mirrors (line : Line) : Mirrors ((r.watched d).plain line) (r.plain line) s := by
  unfold plain
  cases line.kind with
  | text => exact (expand_mirrors _).bind fun text t => (operate_mirrors _).then_pure
  | assignment => exact (assign_mirrors _).then_pure
  | directive | conditional => exact .throw _
  | comment | blank => exact .pure _

theorem dispatch_mirrors (h : BodyMirrors body body') (fuel : Nat) {x : Stmt}
    (hx : ∀ line, x ≠ .action line .doBreak) :
    Mirrors ((r.watched d).dispatch fuel body x) (r.dispatch fuel body' x) s := by
  cases x with
  | plain line => exact plain_mirrors line
  | action line act =>
    exact action_mirrors h fuel line.number fun hact => hx line (congrArg _ hact)
  | loop line l ss => exact loop_mirrors h fuel ss l
  | branch line c yes no => exact branch_mirrors h fuel c yes no
  | switch line options cases otherwise => exact switch_mirrors h fuel options cases otherwise

end

end Runner

end ConsoleScript
