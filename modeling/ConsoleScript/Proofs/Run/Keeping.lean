-- SUMMARY: What the single steps of a run keep of the session.
import ConsoleScript.Run.Operate
import ConsoleScript.Proofs.Run.Agreement

/-!
# What single steps keep

Operating the machine, waiting, looking at the screen and asking the debugger
change the world and what was last seen of the screen, and nothing else of the
session: they keep `Session.inner`. Expanding texts and binding variables change
the script's own variables, and keep `Session.surroundings`.
-/

namespace ConsoleScript

/-! ## Layers -/

namespace Scope

/-- The layers that a script reads only. -/
def readOnly (scope : Scope) : Variables × Variables := (scope.env, scope.overrides)

@[simp] theorem set_readOnly (scope : Scope) (name value : String) :
    (scope.set name value).readOnly = scope.readOnly := rfl

theorem assignSegments_readOnly (now : Int) (scope : Scope) (segments : List (Text.Segment Guarded)) :
    (assignSegments now scope segments).2.readOnly = scope.readOnly := by
  fun_induction assignSegments now scope segments with
  | case1 => rfl
  | case2 scope c rest out scope' heq ih => simpa [heq] using ih
  | case3 scope g rest value hvalue out scope' heq ih => simpa [heq] using ih
  | case4 scope g rest hvalue value stored out scope' heq ih => simpa [heq, stored] using ih

theorem expandChars_readOnly (now : Int) (scope : Scope) (cs : List Char) :
    (expandChars now scope cs).2.readOnly = scope.readOnly := by
  simp only [expandChars, substitute, assignPass, assignSegments_readOnly]

theorem expand_readOnly (now : Int) (scope : Scope) (text : String) :
    (scope.expand now text).2.readOnly = scope.readOnly := by
  simp only [expand]
  split
  · simp only [expandChars_readOnly]
  · rfl

theorem expandAll_readOnly (now : Int) (scope : Scope) (texts : List String) :
    (scope.expandAll now texts).2.readOnly = scope.readOnly := by
  induction texts generalizing scope with
  | nil => rfl
  | cons text rest ih => simp only [expandAll, ih, expand_readOnly]

theorem readAssignment?_readOnly {now : Int} {scope scope' : Scope} {line name value : String}
    (h : scope.readAssignment? now line = some ((name, value), scope')) :
    scope'.readOnly = scope.readOnly := by
  unfold readAssignment? at h
  split at h
  · cases h
  · simp only [Option.some.injEq, Prod.mk.injEq] at h
    rw [← h.2, expand_readOnly]

end Scope

/-! ## Views of a session -/

/-- What is around a statement while it runs. -/
structure Surroundings where
  calls : List Call
  includes : List String
  baseDir : String
  loopDepth : Nat
  started : Duration
  /-- The layers of the scope that a script reads only. -/
  layers : Variables × Variables

namespace Session

variable {σ : Type} {s t : Session σ}

/-- The session without the outside world and what was last seen of it. -/
def inner (s : Session σ) : Session Unit :=
  { s with screen := .empty, world := () }

/-- What is around the statement that runs. -/
def surroundings (s : Session σ) : Surroundings :=
  ⟨s.calls, s.includes, s.baseDir, s.loopDepth, s.started, s.scope.readOnly⟩

/-- The scope together with what is around. -/
def footing (s : Session σ) : Scope × Surroundings := (s.scope, s.surroundings)

theorem footing_of_inner (h : t.inner = s.inner) : t.footing = s.footing :=
  congrArg (fun u : Session Unit => u.footing) h

end Session

/-- A step that changes the outside only keeps the surroundings. -/
theorem Run.Agree.outside {σ α : Type} {x y : Run σ α} {s : Session σ}
    (h : Run.Agree Session.inner x y s) : Run.Agree Session.surroundings x y s :=
  h.of_view fun _ ht => congrArg Prod.snd (Session.footing_of_inner ht)

/-! ## Outside steps -/

namespace Runner

open Run (Agree)

variable {σ α : Type} {r : Runner σ} {s : Session σ}

theorem operate_keeps (op : Operation σ α) : Agree Session.inner (operate op) (operate op) s := by
  refine .get (.set rfl ?_)
  cases (op s.world).1 with
  | ok a => exact .pure a
  | error e => exact .throw _

theorem narrate_keeps (text : String) : Agree Session.inner (r.narrate text) (r.narrate text) s :=
  .modify rfl

theorem clockTime_keeps : Agree Session.inner r.clockTime r.clockTime s :=
  .get (.pure _)

theorem elapsedSince_keeps (start : Duration) :
    Agree Session.inner (r.elapsedSince start) (r.elapsedSince start) s :=
  clockTime_keeps.then_pure

theorem elapsed_keeps : Agree Session.inner r.elapsed r.elapsed s :=
  .get (elapsedSince_keeps _)

theorem checkDeadline_keeps : Agree Session.inner r.checkDeadline r.checkDeadline s := by
  unfold checkDeadline
  cases r.settings.timeout with
  | none => exact .pure ()
  | some timeout =>
    refine elapsed_keeps.bind fun elapsed t _ => ?_
    split
    · exact .throw _
    · exact .pure ()

theorem wait_keeps (d : Duration) : Agree Session.inner (r.wait d) (r.wait d) s :=
  .modify rfl

theorem sleep_keeps (d : Duration) : Agree Session.inner (r.sleep d) (r.sleep d) s := by
  unfold sleep
  split
  · exact wait_keeps d
  · cases r.settings.timeout with
    | none => exact wait_keeps d
    | some timeout =>
      refine elapsed_keeps.bind fun elapsed t _ => ?_
      dsimp only
      split
      · exact (wait_keeps _).bind fun _ _ _ => elapsed_keeps.bind fun _ _ _ => .throw _
      · exact wait_keeps d

theorem capture_keeps : Agree Session.inner r.capture r.capture s := by
  refine (operate_keeps _).attempt.bind fun out t _ => ?_
  cases out with
  | ok screen => exact .pure _
  | error e => exact .pure _

theorem probe_keeps (text : String) : Agree Session.inner (r.probe text) (r.probe text) s := by
  refine capture_keeps.bind fun screen t _ => ?_
  cases screen with
  | none => exact .pure _
  | some screen => exact .get (.set rfl (.pure _))

theorem pollFor_keeps (text : String) (timeout start : Duration) (fuel : Nat) :
    Agree Session.inner (r.pollFor text timeout start fuel) (r.pollFor text timeout start fuel) s := by
  induction fuel generalizing s with
  | zero => exact .outOfFuel
  | succ fuel ih =>
    refine (probe_keeps text).bind fun found t _ => ?_
    split
    · exact .pure _
    · refine (elapsedSince_keeps start).bind fun elapsed t _ => ?_
      split
      · exact .pure _
      · exact checkDeadline_keeps.bind fun _ _ _ => (sleep_keeps _).bind fun _ _ _ => ih

theorem watch_keeps (fuel : Nat) (text : String) (timeout : Duration) :
    Agree Session.inner (r.watch fuel text timeout) (r.watch fuel text timeout) s := by
  refine clockTime_keeps.bind fun start t _ => ?_
  refine (pollFor_keeps text timeout start fuel).bind fun found t _ => ?_
  cases found with
  | false => exact (elapsedSince_keeps start).bind fun _ _ _ => .throw _
  | true => exact .pure _

theorem probeCases_keeps (patterns : List String) :
    Agree Session.inner (r.probeCases patterns) (r.probeCases patterns) s := by
  refine capture_keeps.bind fun screen t _ => ?_
  cases screen with
  | none => exact .pure _
  | some screen => exact (Agree.modify rfl).then_pure

theorem pollCases_keeps (patterns : List String) (timeout poll start : Duration) (fuel : Nat) :
    Agree Session.inner (r.pollCases patterns timeout poll start fuel)
      (r.pollCases patterns timeout poll start fuel) s := by
  induction fuel generalizing s with
  | zero => exact .outOfFuel
  | succ fuel ih =>
    refine (probeCases_keeps patterns).bind fun hit t _ => ?_
    cases hit with
    | some hit => exact .pure _
    | none =>
      refine (elapsedSince_keeps start).bind fun elapsed t _ => ?_
      split
      · exact .pure _
      · exact (sleep_keeps _).bind fun _ _ _ => ih

theorem isDebugging_keeps : Agree Session.inner r.isDebugging r.isDebugging s := by
  unfold isDebugging
  cases r.debugger with
  | none => exact .pure _
  | some d => exact .get (.pure _)

theorem consult_keeps (e : Entry) : Agree Session.inner (r.consult e) (r.consult e) s := by
  unfold consult
  cases r.debugger with
  | none => exact .pure ()
  | some d =>
    apply Agree.get
    dsimp only
    split
    · refine .set rfl ?_
      split
      · exact .throw _
      · exact .throw _
      · exact operate_keeps _
      · exact .pure ()
    · exact .pure ()

/-! ## Expansion -/

theorem surroundings_of_readOnly {scope : Scope} (h : scope.readOnly = s.scope.readOnly) :
    ({ s with scope } : Session σ).surroundings = s.surroundings := by
  simp [Session.surroundings, h]

theorem surroundings_expandAll (now : Int) (texts : List String) :
    ({ s with scope := (s.scope.expandAll now texts).2 } : Session σ).surroundings =
      s.surroundings :=
  surroundings_of_readOnly (Scope.expandAll_readOnly now s.scope texts)

theorem expand_keeps (text : String) :
    Agree Session.surroundings (r.expand text) (r.expand text) s :=
  .get (.set (surroundings_of_readOnly (Scope.expand_readOnly _ _ text)) (.pure _))

theorem expandAll_keeps (texts : List String) :
    Agree Session.surroundings (r.expandAll texts) (r.expandAll texts) s :=
  .get (.set (surroundings_expandAll _ texts) (.pure _))

/-- What is done with texts after they are expanded. -/
theorem run_expandAll_bind {texts outs : List String} {scope : Scope} {f : List String → Run σ α}
    (h : s.scope.expandAll (r.machine.clock.seconds s.world) texts = (outs, scope)) :
    (r.expandAll texts >>= f).run s = (f outs).run { s with scope } := by
  change (f (s.scope.expandAll (r.machine.clock.seconds s.world) texts).1).run
    { s with scope := (s.scope.expandAll (r.machine.clock.seconds s.world) texts).2 } = _
  rw [h]

theorem bind_keeps (name value : String) :
    Agree Session.surroundings (bind name value) (bind name value) s :=
  .modify rfl

theorem assign_keeps (line : String) :
    Agree Session.surroundings (r.assign line) (r.assign line) s := by
  apply Agree.get
  split
  · exact .pure ()
  · next name value scope h =>
    refine ⟨rfl, fun out t ht => ?_⟩
    cases ht
    exact surroundings_of_readOnly
      ((Scope.set_readOnly scope name value).trans (Scope.readAssignment?_readOnly h))

end Runner

end ConsoleScript
