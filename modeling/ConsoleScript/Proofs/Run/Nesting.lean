-- SUMMARY: In which surroundings a statement runs what is inside it, and that it leaves its own as they are.
import ConsoleScript.Run.Exec
import ConsoleScript.Proofs.Run.Keeping

/-!
# Nesting

`Stmt.Surrounds` says once and for all in which surroundings each kind of
statement runs what is inside it. For each kind it is shown that the statement
does the same with two bodies that agree in these surroundings, and that it
leaves its own surroundings as they were, whether it succeeds or fails. As a
body agrees with itself, running statements keeps the surroundings.
-/

namespace ConsoleScript

/-! ## Surroundings inside a statement -/

namespace Surroundings

/-- Inside a loop or a switch. -/
def inLoop (a : Surroundings) : Surroundings :=
  { a with loopDepth := a.loopDepth + 1 }

/-- Inside a function that is called. -/
def inCall (a : Surroundings) (call : Call) : Surroundings :=
  { a with
    calls := call :: a.calls
    loopDepth := 0
    layers := (a.layers.1, Scope.bindArguments a.layers.2 1 call.args) }

/-- Inside a file that is included. -/
def inFile (a : Surroundings) (key dir : String) : Surroundings :=
  { a with includes := key :: a.includes, baseDir := dir, loopDepth := 0 }

end Surroundings

/-- The surroundings of the lists that a statement runs, given its own and the
    scope in which it starts. -/
inductive Stmt.Surrounds (scope : Scope) (outer : Surroundings) : Stmt → Surroundings → Prop where
  | loop (line : Line) (l : Loop) (body : List Stmt) :
      Surrounds scope outer (.loop line l body) outer.inLoop
  | switch (line : Line) (options : SwitchOptions) (cases : List (Case Stmt))
      (otherwise : Option (List Stmt)) :
      Surrounds scope outer (.switch line options cases otherwise) outer.inLoop
  | branch (line : Line) (c : Condition) (yes no : List Stmt) :
      Surrounds scope outer (.branch line c yes no) outer
  | call (line : Line) (name : String) (args : List String) (now : Int) :
      Surrounds scope outer (.action line (.call name args))
        (outer.inCall ⟨name, (scope.expandAll now args).1, line.number⟩)
  /-- A file that is running already is not included. -/
  | file (line : Line) (path key dir : String)
      (hnew : outer.includes.any (Path.alike key) = false) :
      Surrounds scope outer (.action line (.includeFile path)) (outer.inFile key dir)

namespace Runner

open Run (Agree)

variable {σ : Type} {r : Runner σ} {s : Session σ} {a : Surroundings} {body body' : Body σ}

/-- The bodies do the same, and keep the surroundings, wherever these are `a`. -/
def BodiesAgree (a : Surroundings) (body body' : Body σ) : Prop :=
  ∀ ss (s : Session σ), s.surroundings = a → Agree Session.surroundings (body ss) (body' ss) s

theorem breakable_agree (h : BodiesAgree a.inLoop body body') (hs : s.surroundings = a)
    (ss : List Stmt) :
    Agree Session.surroundings (breakable body ss) (breakable body' ss) s := by
  refine Agree.framed (h ss _ (congrArg Surroundings.inLoop hs)) fun t ht => ?_
  exact congrArg (fun b : Surroundings => { b with loopDepth := b.loopDepth - 1 }) ht

theorem once_agree (h : BodiesAgree a.inLoop body body') (hs : s.surroundings = a)
    (ss : List Stmt) : Agree Session.surroundings (once body ss) (once body' ss) s :=
  (breakable_agree h hs ss).then_pure

/-! ## Conditions -/

theorem branch_agree (fuel : Nat) (c : Condition) (yes no : List Stmt)
    (h : BodiesAgree s.surroundings body body') :
    Agree Session.surroundings (r.branch fuel body c yes no) (r.branch fuel body' c yes no) s := by
  refine (expand_keeps c.text).bind fun text t ht => ?_
  dsimp only
  split
  · refine (narrate_keeps _).outside.bind fun _ t' ht' => ?_
    refine (h yes t' (ht'.trans ht)).bind fun signal t'' ht'' => ?_
    cases signal with
    | some signal => exact .pure _
    | none =>
      dsimp only
      split
      · refine (narrate_keeps _).outside.bind fun _ u hu => ?_
        exact h no u (hu.trans (ht''.trans (ht'.trans ht)))
      · exact h no t'' (ht''.trans (ht'.trans ht))
  · refine clockTime_keeps.outside.bind fun start t' ht' => ?_
    refine (pollFor_keeps text c.timeout start fuel).outside.bind fun found t'' ht'' => ?_
    exact h _ t'' (ht''.trans (ht'.trans ht))

/-! ## Loops -/

theorem retry_agree (h : BodiesAgree a.inLoop body body') (hs : s.surroundings = a)
    (ss : List Stmt) (total left : Nat) :
    Agree Session.surroundings (r.retry body ss total left) (r.retry body' ss total left) s := by
  induction left generalizing s with
  | zero => exact .pure _
  | succ left ih =>
    refine (breakable_agree h hs ss).attempt.bind fun out t ht => ?_
    cases out with
    | ok signal => exact .pure _
    | error e =>
      dsimp only
      split
      · exact .throw _
      · split
        · exact .throw _
        · exact (sleep_keeps _).outside.bind fun _ u hu => ih (hu.trans (ht.trans hs))

theorem repeatTimes_agree (h : BodiesAgree a.inLoop body body') (hs : s.surroundings = a)
    (ss : List Stmt) (total left : Nat) :
    Agree Session.surroundings (repeatTimes body ss total left) (repeatTimes body' ss total left)
      s := by
  induction left generalizing s with
  | zero => exact .pure _
  | succ left ih =>
    refine (breakable_agree h hs ss).attempt.bind fun out t ht => ?_
    split
    · exact .pure _
    · exact .pure _
    · exact ih (ht.trans hs)
    · split
      · exact .throw _
      · exact .throw _

theorem whileScreen_agree (h : BodiesAgree a.inLoop body body') (hs : s.surroundings = a)
    (ss : List Stmt) (presence : Presence) (text : String) (timeout poll start : Duration)
    (fuel : Nat) :
    Agree Session.surroundings (r.whileScreen body ss presence text timeout poll start fuel)
      (r.whileScreen body' ss presence text timeout poll start fuel) s := by
  induction fuel generalizing s with
  | zero => exact .outOfFuel
  | succ fuel ih =>
    refine (probe_keeps text).outside.bind fun found t ht => ?_
    split
    · exact .pure _
    · apply Agree.bind
      · split
        · exact breakable_agree h (ht.trans hs) ss
        · exact .pure _
      · intro signal u hu
        cases signal with
        | some signal => exact .pure _
        | none =>
          refine (elapsedSince_keeps start).outside.bind fun elapsed u' hu' => ?_
          split
          · exact .throw _
          · refine (sleep_keeps _).outside.bind fun _ u'' hu'' => ?_
            exact ih (hu''.trans (hu'.trans (hu.trans (ht.trans hs))))

theorem loop_agree (fuel : Nat) (ss : List Stmt) (l : Loop)
    (h : BodiesAgree s.surroundings.inLoop body body') :
    Agree Session.surroundings (r.loop fuel body ss l) (r.loop fuel body' ss l) s := by
  cases l with
  | retry attempts =>
    simp only [loop]
    split
    · exact (narrate_keeps _).outside.bind fun _ t ht => once_agree h ht ss
    · exact retry_agree h rfl ss attempts attempts
  | repeatTimes count =>
    simp only [loop]
    split
    · exact (narrate_keeps _).outside.bind fun _ t ht => once_agree h ht ss
    · exact repeatTimes_agree h rfl ss count count
  | whileScreen presence text timeout poll =>
    refine (expand_keeps text).bind fun text t ht => ?_
    dsimp only
    split
    · exact (narrate_keeps _).outside.bind fun _ u hu => once_agree h (hu.trans ht) ss
    · refine clockTime_keeps.outside.bind fun start u hu => ?_
      exact whileScreen_agree h (hu.trans ht) ss presence text timeout _ start fuel

/-! ## Switches -/

theorem tellCases_agree (h : BodiesAgree a.inLoop body body') (hs : s.surroundings = a)
    (cases : List (Case Stmt × String)) :
    Agree Session.surroundings (r.tellCases body cases) (r.tellCases body' cases) s := by
  induction cases generalizing s with
  | nil => exact .pure _
  | cons head rest ih =>
    obtain ⟨c, pattern⟩ := head
    refine (narrate_keeps _).outside.bind fun _ t ht => ?_
    refine (once_agree h (ht.trans hs) c.body).bind fun signal u hu => ?_
    cases signal with
    | some signal => exact .pure _
    | none => exact ih (hu.trans (ht.trans hs))

theorem switch_agree (fuel : Nat) (options : SwitchOptions) (cases : List (Case Stmt))
    (otherwise : Option (List Stmt)) (h : BodiesAgree s.surroundings.inLoop body body') :
    Agree Session.surroundings (r.switch fuel body options cases otherwise)
      (r.switch fuel body' options cases otherwise) s := by
  refine (expandAll_keeps _).bind fun patterns t ht => ?_
  split
  · refine (narrate_keeps _).outside.bind fun _ t' ht' => ?_
    refine (tellCases_agree h (ht'.trans ht) _).bind fun signal u hu => ?_
    cases signal with
    | some signal => exact .pure _
    | none =>
      cases otherwise with
      | none => exact .pure _
      | some ss =>
        refine (narrate_keeps _).outside.bind fun _ u' hu' => ?_
        exact once_agree h (hu'.trans (hu.trans (ht'.trans ht))) ss
  · refine clockTime_keeps.outside.bind fun start t' ht' => ?_
    refine (pollCases_keeps _ _ _ _ _).outside.bind fun hit u hu => ?_
    have hs := hu.trans (ht'.trans ht)
    split
    · exact once_agree h hs _
    · cases otherwise with
      | none => exact .pure _
      | some ss => exact once_agree h hs ss

/-! ## Calls and files -/

theorem enterFunction_agree (call : Call) (ss : List Stmt)
    (h : BodiesAgree (s.surroundings.inCall call) body body') :
    Agree Session.surroundings (enterFunction body call ss) (enterFunction body' call ss) s := by
  refine Agree.bind (Agree.framed (h ss _ rfl) fun t ht => ?_) fun _ _ _ => .pure _
  simp only [Session.surroundings, Session.inCall, Surroundings.mk.injEq] at ht ⊢
  simp [ht]

theorem invoke_agree (call : Call) (ss : List Stmt)
    (h : BodiesAgree (s.surroundings.inCall call) body body') :
    Agree Session.surroundings (r.invoke body call ss) (r.invoke body' call ss) s := by
  unfold invoke
  split
  · refine (narrate_keeps _).outside.bind fun _ t ht => .get ?_
    split
    · exact (narrate_keeps _).outside.then_pure
    · exact enterFunction_agree call ss (by rwa [ht])
  · exact enterFunction_agree call ss h

theorem call_agree (line : Nat) (name : String) (args : List String)
    (h : ∀ now, BodiesAgree (s.surroundings.inCall ⟨name, (s.scope.expandAll now args).1, line⟩)
      body body') :
    Agree Session.surroundings (r.call body line name args) (r.call body' line name args) s := by
  apply Agree.get
  split
  · exact .throw _
  · next f _ =>
    have hbody := h (r.machine.clock.seconds s.world)
    have hkept := surroundings_expandAll (s := s) (r.machine.clock.seconds s.world) args
    rcases hargs : s.scope.expandAll (r.machine.clock.seconds s.world) args with ⟨outs, scope⟩
    rw [hargs] at hbody hkept
    refine .step (run_expandAll_bind hargs) (run_expandAll_bind hargs) hkept ?_
    exact invoke_agree _ _ (by rwa [hkept])

theorem enterFile_agree (path key : String) (ss : List Stmt)
    (h : BodiesAgree (s.surroundings.inFile key ((Path.parent? path).getD "")) body body') :
    Agree Session.surroundings (enterFile body path key ss) (enterFile body' path key ss) s := by
  refine Agree.bind (Agree.framed (h ss _ rfl) fun t ht => ?_) fun _ _ _ => .pure _
  simp only [Session.surroundings, Session.inFile, Surroundings.mk.injEq] at ht ⊢
  simp [ht]

theorem includeFile_agree (path : String)
    (h : ∀ key dir, s.includes.any (Path.alike key) = false →
      BodiesAgree (s.surroundings.inFile key dir) body body') :
    Agree Session.surroundings (r.includeFile body path) (r.includeFile body' path) s := by
  refine (expand_keeps path).bind fun path t ht => .get ?_
  have hincludes : t.includes = s.includes := congrArg Surroundings.includes ht
  dsimp only
  split
  · exact .throw _
  · next hnew =>
    split
    · exact .throw _
    · split
      · exact .throw _
      · next script _ =>
        refine (Agree.modify rfl).bind fun _ u hu => enterFile_agree _ _ _ ?_
        rw [hu, ht]
        exact h _ _ (by simpa [hincludes] using hnew)

/-! ## Statements -/

theorem action_agree (fuel : Nat) (line : Line) (act : Action)
    (h : ∀ a, (Stmt.action line act).Surrounds s.scope s.surroundings a →
      BodiesAgree a body body') :
    Agree Session.surroundings (r.action fuel body line.number act)
      (r.action fuel body' line.number act) s := by
  cases act with
  | key name =>
    simp only [action]
    split
    · exact .throw _
    · exact (operate_keeps _).outside.then_pure
  | watch text timeout =>
    refine (expand_keeps text).bind fun text t ht => ?_
    dsimp only
    split
    · exact (narrate_keeps _).outside.then_pure
    · exact (watch_keeps _ _ _).outside.then_pure
  | console number => exact (operate_keeps _).outside.then_pure
  | wait duration => exact (sleep_keeps duration).outside.then_pure
  | exit code => exact .pure _
  | endIf => exact .pure _
  | doReturn => exact .pure _
  | doBreak =>
    refine isDebugging_keeps.outside.bind fun debugging t ht => .get ?_
    split
    · exact .pure _
    · exact .pure _
  | includeFile path =>
    exact includeFile_agree path fun key dir hnew => h _ (.file line path key dir hnew)
  | screenshot path format =>
    refine (expand_keeps path).bind fun path t ht => ?_
    exact (operate_keeps _).outside.then_pure
  | call name args =>
    exact call_agree line.number name args fun now => h _ (.call line name args now)
  | bind name value =>
    refine (expand_keeps value).bind fun value t ht => ?_
    exact (bind_keeps name value).then_pure

theorem plain_keeps (line : Line) :
    Agree Session.surroundings (r.plain line) (r.plain line) s := by
  unfold plain
  cases line.kind with
  | text =>
    refine (expand_keeps line.trimmed).bind fun text t ht => ?_
    exact (operate_keeps _).outside.then_pure
  | assignment => exact (assign_keeps line.trimmed).then_pure
  | directive => exact .throw _
  | conditional => exact .throw _
  | comment => exact .pure _
  | blank => exact .pure _

theorem dispatch_agree (fuel : Nat) (x : Stmt)
    (h : ∀ a, x.Surrounds s.scope s.surroundings a → BodiesAgree a body body') :
    Agree Session.surroundings (r.dispatch fuel body x) (r.dispatch fuel body' x) s := by
  cases x with
  | plain line => exact plain_keeps line
  | action line act => exact action_agree fuel line act h
  | loop line l ss => exact loop_agree fuel ss l (h _ (.loop line l ss))
  | branch line c yes no => exact branch_agree fuel c yes no (h _ (.branch line c yes no))
  | switch line options cases otherwise =>
    exact switch_agree fuel options cases otherwise (h _ (.switch line options cases otherwise))

theorem approach_keeps (x : Stmt) : Agree Session.footing (r.approach x) (r.approach x) s := by
  refine (checkDeadline_keeps.of_view fun _ => Session.footing_of_inner).bind fun _ t ht => ?_
  refine (Agree.modify rfl).bind fun _ u hu => ?_
  exact (consult_keeps _).of_view fun _ => Session.footing_of_inner

/-- A statement does the same with bodies that agree in the surroundings in which
    it runs them, and leaves its own surroundings as they were. -/
theorem stmt_agree (fuel : Nat) (x : Stmt)
    (h : ∀ a, x.Surrounds s.scope s.surroundings a → BodiesAgree a body body') :
    Agree Session.surroundings (r.stmt fuel body x) (r.stmt fuel body' x) s := by
  unfold stmt
  split
  · exact .pure _
  · refine (approach_keeps x).bind_of (fun t => congrArg Prod.snd) fun _ t ht => ?_
    obtain ⟨hscope, hsurroundings⟩ := Prod.mk.inj ht
    apply Agree.bind
    · apply Agree.positioned
      apply dispatch_agree
      rw [hscope, hsurroundings]
      exact h
    · intro signal u hu
      exact (Agree.modify rfl).then_pure

theorem stmts_agree {one one' : Stmt → Run σ (Option Signal)} {ss : List Stmt}
    (h : ∀ x ∈ ss, ∀ t : Session σ, t.surroundings = a →
      Agree Session.surroundings (one x) (one' x) t) (hs : s.surroundings = a) :
    Agree Session.surroundings (stmts one ss) (stmts one' ss) s := by
  induction ss generalizing s with
  | nil => exact .pure _
  | cons x rest ih =>
    obtain ⟨hx, hrest⟩ := List.forall_mem_cons.mp h
    refine (hx s hs).bind fun signal t ht => ?_
    cases signal with
    | some signal => exact .pure _
    | none => exact ih hrest (ht.trans hs)

/-- Running statements keeps the surroundings, whether they succeed or fail. -/
theorem exec_keeps (fuel : Nat) (ss : List Stmt) :
    Agree Session.surroundings (r.exec fuel ss) (r.exec fuel ss) s := by
  induction fuel generalizing s ss with
  | zero => exact .outOfFuel
  | succ fuel ih => exact stmts_agree (fun x _ t _ => stmt_agree fuel x fun a _ ss u _ => ih ss) rfl

end Runner

end ConsoleScript
