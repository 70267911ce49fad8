-- SUMMARY: Which signals a statement gives: no break out of a loop or a switch, only exits out of a call or a file.
import ConsoleScript.Proofs.Run.Reachable

/-!
# Where signals go

A signal leaves the statements around it up to the construct that it is meant for.
`Run.Yields P x s` says that `P` holds of every result of `x` from the session `s` on.
Whatever the lists inside of them do, loops and switches yield no break, and calls and
files yield nothing but exits. That leaves the break itself and conditions: a list
yields a break only if a loop or a switch is around it (`exec_yields`), and then only
conditions are between the two (`reaches_inLoop`).
-/

namespace ConsoleScript

/-! ## Results -/

namespace Run

variable {σ α β γ : Type} {s : Session σ} {P : α → Session σ → Prop} {Q : β → Session σ → Prop}
  {x : Run σ α} {f : α → Run σ β}

/-- What holds of the results of `x` from `s` on. -/
def Yields (P : α → Session σ → Prop) (x : Run σ α) (s : Session σ) : Prop :=
  ∀ a t, x.run s = some (.ok a, t) → P a t

namespace Yields

theorem pure {a : α} (h : P a s) : Yields P (pure a) s := by
  intro b t hrun
  cases hrun
  exact h

theorem throw (e : RunError) : Yields P (throw e) s := by
  intro a t hrun
  cases hrun

theorem outOfFuel : Yields P outOfFuel s := by
  intro a t hrun
  cases hrun

theorem bind (hx : Yields P x s) (hf : ∀ a t, P a t → Yields Q (f a) t) :
    Yields Q (x >>= f) s := by
  intro b u hrun
  rw [run_bind] at hrun
  obtain ⟨⟨out, t⟩, hfirst, hrest⟩ := Option.bind_eq_some_iff.mp hrun
  cases out with
  | error e => cases hrest
  | ok a => exact hf a t (hx a t hfirst) b u hrest

/-- What comes last decides. -/
theorem last (hf : ∀ a t, Yields Q (f a) t) : Yields Q (x >>= f) s :=
  bind (P := fun _ _ => True) (fun _ _ _ => trivial) fun a t _ => hf a t

/-- What comes after a step can count on what the step keeps. -/
theorem after {v : Session σ → γ} (hx : Agree v x x s)
    (hf : ∀ a t, v t = v s → Yields Q (f a) t) : Yields Q (x >>= f) s :=
  bind (P := fun _ t => v t = v s) (fun _ t hrun => hx.2 _ t hrun) hf

theorem mono {P' : α → Session σ → Prop} (hx : Yields P x s) (h : ∀ a t, P a t → P' a t) :
    Yields P' x s :=
  fun a t hrun => h a t (hx a t hrun)

theorem positioned {line : Nat} (hx : Yields P x s) : Yields P (positioned line x) s := by
  intro a t hrun
  rw [run_positioned] at hrun
  obtain ⟨⟨out, u⟩, hinner, heq⟩ := Option.map_eq_some_iff.mp hrun
  cases out with
  | error e => cases heq
  | ok b =>
    cases heq
    exact hx _ _ hinner

end Yields

end Run

namespace Signal

/-- No break. -/
def NoBreak (signal : Option Signal) : Prop := signal ≠ some .doBreak

/-- Nothing but an exit. -/
def OnlyExit (signal : Option Signal) : Prop := signal = none ∨ ∃ code, signal = some (.exit code)

theorem noBreak_none : NoBreak none := nofun

theorem noBreak_exit (code : Int) : NoBreak (some (.exit code)) := nofun

theorem noBreak_doReturn : NoBreak (some .doReturn) := nofun

theorem noBreak_outsideLoop (signal : Option Signal) : NoBreak (outsideLoop signal) := by
  rcases signal with _ | _ | _ | code <;> simp [NoBreak, outsideLoop]

theorem onlyExit_outsideFrame (signal : Option Signal) : OnlyExit (outsideFrame signal) := by
  rcases signal with _ | _ | _ | code <;> simp [OnlyExit, outsideFrame]

theorem OnlyExit.noBreak {signal : Option Signal} (h : OnlyExit signal) : NoBreak signal := by
  rintro rfl
  simp [OnlyExit] at h

end Signal

namespace Runner

open Run (Yields)
open Signal (NoBreak OnlyExit)

variable {σ : Type} {r : Runner σ} {body : Body σ} {s : Session σ}

/-! ## Loops and switches -/

theorem once_yields (ss : List Stmt) : Yields (fun signal _ => NoBreak signal) (once body ss) s :=
  .last fun signal _ => .pure (Signal.noBreak_outsideLoop signal)

theorem retry_yields (ss : List Stmt) (total left : Nat) :
    Yields (fun signal _ => NoBreak signal) (r.retry body ss total left) s := by
  induction left generalizing s with
  | zero => exact .pure nofun
  | succ left ih =>
    refine .last fun out t => ?_
    cases out with
    | ok signal => exact .pure (Signal.noBreak_outsideLoop signal)
    | error e =>
      dsimp only
      split
      · exact .throw _
      · split
        · exact .throw _
        · exact .last fun _ _ => ih

theorem repeatTimes_yields (ss : List Stmt) (total left : Nat) :
    Yields (fun signal _ => NoBreak signal) (repeatTimes body ss total left) s := by
  induction left generalizing s with
  | zero => exact .pure nofun
  | succ left ih =>
    refine .last fun out t => ?_
    split
    · exact .pure nofun
    · next signal hsignal =>
      refine .pure fun hbreak => hsignal ?_
      cases hbreak
      rfl
    · exact ih
    · split
      · exact .throw _
      · exact .throw _

theorem whileScreen_yields (ss : List Stmt) (presence : Presence) (text : String)
    (timeout poll start : Duration) (fuel : Nat) :
    Yields (fun signal _ => NoBreak signal)
      (r.whileScreen body ss presence text timeout poll start fuel) s := by
  induction fuel generalizing s with
  | zero => exact .outOfFuel
  | succ fuel ih =>
    refine .last fun found t => ?_
    split
    · exact .pure nofun
    · refine .last fun signal u => ?_
      cases signal with
      | some signal => exact .pure (Signal.noBreak_outsideLoop _)
      | none =>
        refine .last fun elapsed v => ?_
        split
        · exact .throw _
        · exact .last fun _ _ => ih

theorem loop_yields (fuel : Nat) (ss : List Stmt) (l : Loop) :
    Yields (fun signal _ => NoBreak signal) (r.loop fuel body ss l) s := by
  cases l with
  | retry attempts =>
    simp only [loop]
    split
    · exact .last fun _ _ => once_yields ss
    · exact retry_yields ss attempts attempts
  | repeatTimes count =>
    simp only [loop]
    split
    · exact .last fun _ _ => once_yields ss
    · exact repeatTimes_yields ss count count
  | whileScreen presence text timeout poll =>
    refine .last fun text t => ?_
    dsimp only
    split
    · exact .last fun _ _ => once_yields ss
    · exact .last fun start u => whileScreen_yields ss presence text timeout _ start fuel

theorem tellCases_yields (cases : List (Case Stmt × String)) :
    Yields (fun signal _ => NoBreak signal) (r.tellCases body cases) s := by
  induction cases generalizing s with
  | nil => exact .pure nofun
  | cons head rest ih =>
    obtain ⟨c, pattern⟩ := head
    refine .last fun _ t => (once_yields c.body).bind fun signal u hsignal => ?_
    cases signal with
    | some signal => exact .pure hsignal
    | none => exact ih

theorem switch_yields (fuel : Nat) (options : SwitchOptions) (cases : List (Case Stmt))
    (otherwise : Option (List Stmt)) :
    Yields (fun signal _ => NoBreak signal) (r.switch fuel body options cases otherwise) s := by
  refine .last fun patterns t => ?_
  split
  · refine .last fun _ u => (tellCases_yields _).bind fun signal v hsignal => ?_
    cases signal with
    | some signal => exact .pure hsignal
    | none =>
      cases otherwise with
      | none => exact .pure nofun
      | some ss => exact .last fun _ _ => once_yields ss
  · refine .last fun start u => .last fun hit v => ?_
    split
    · exact once_yields _
    · cases otherwise with
      | none => exact .pure nofun
      | some ss => exact once_yields ss

/-! ## Calls and files -/

theorem enterFunction_yields (call : Call) (ss : List Stmt) :
    Yields (fun signal _ => OnlyExit signal) (enterFunction body call ss) s :=
  .last fun signal _ => .pure (Signal.onlyExit_outsideFrame signal)

theorem call_yields (line : Nat) (name : String) (args : List String) :
    Yields (fun signal _ => OnlyExit signal) (r.call body line name args) s := by
  refine .last fun t u => ?_
  split
  · exact .throw _
  · refine .last fun outs v => ?_
    unfold invoke
    split
    · refine .last fun _ _ => .last fun w _ => ?_
      split
      · exact .last fun _ _ => .pure (.inl rfl)
      · exact enterFunction_yields _ _
    · exact enterFunction_yields _ _

theorem includeFile_yields (path : String) :
    Yields (fun signal _ => OnlyExit signal) (r.includeFile body path) s := by
  refine .last fun path t => .last fun u v => ?_
  dsimp only
  split
  · exact .throw _
  · split
    · exact .throw _
    · split
      · exact .throw _
      · refine .last fun _ _ => .last fun signal _ => ?_
        exact .pure (Signal.onlyExit_outsideFrame signal)

/-! ## Statements -/

/-- What every signal of a statement is, if nothing is one. -/
theorem stmt_yields {P : Option Signal → σ → Prop} {fuel : Nat} {x : Stmt}
    (hnone : ∀ w, P none w)
    (h : ∀ t : Session σ, t.surroundings = s.surroundings →
      Yields (fun signal u => P signal u.world) (r.dispatch fuel body x) t) :
    Yields (fun signal u => P signal u.world) (r.stmt fuel body x) s := by
  unfold stmt
  split
  · exact .pure (hnone _)
  · refine .after (approach_keeps x) fun _ t ht => ?_
    refine Yields.bind (h t (congrArg Prod.snd ht)).positioned fun signal u hsignal => ?_
    intro a v hrun
    cases hrun
    exact hsignal

theorem stmt_noBreak {fuel : Nat} {x : Stmt} (hx : x.directive.any Directive.isBreakable = true) :
    Yields (fun signal _ => NoBreak signal) (r.stmt fuel body x) s := by
  refine stmt_yields (P := fun signal _ => NoBreak signal) (fun _ => nofun) fun t _ => ?_
  cases x with
  | plain | action | branch => cases hx
  | loop line l ss => exact loop_yields fuel ss l
  | switch line options cases otherwise => exact switch_yields fuel options cases otherwise

/-- The action runs a list in a frame of its own. -/
def EntersFrame (a : Action) : Prop :=
  (∃ name args, a = .call name args) ∨ ∃ path, a = .includeFile path

theorem stmt_onlyExit {fuel : Nat} {line : Line} {a : Action} (ha : EntersFrame a) :
    Yields (fun signal _ => OnlyExit signal) (r.stmt fuel body (.action line a)) s := by
  refine stmt_yields (P := fun signal _ => OnlyExit signal) (fun _ => .inl rfl) fun t _ => ?_
  obtain ⟨name, args, rfl⟩ | ⟨path, rfl⟩ := ha
  · exact call_yields line.number name args
  · exact includeFile_yields path

/-- No debugger watches the run, in a world. -/
def Unwatched (r : Runner σ) (w : σ) : Prop := ∀ d, r.debugger = some d → d.isEnabled w = false

/-- A break is there only inside of a loop or a switch, and if no debugger watches. -/
def MayYield (r : Runner σ) (depth : Nat) (signal : Option Signal) (w : σ) : Prop :=
  signal = some .doBreak → 0 < depth ∧ r.Unwatched w

theorem MayYield.of_noBreak {depth : Nat} {signal : Option Signal} {w : σ} (h : NoBreak signal) :
    r.MayYield depth signal w :=
  fun hbreak => absurd hbreak h

theorem isDebugging_yields :
    Yields (fun debugging t =>
      t.loopDepth = s.loopDepth ∧ (debugging = false → r.Unwatched t.world)) r.isDebugging s := by
  intro debugging t hrun
  unfold isDebugging at hrun
  cases hd : r.debugger with
  | none =>
    rw [hd] at hrun
    cases hrun
    exact ⟨rfl, fun _ d hsome => by simp [hd] at hsome⟩
  | some d =>
    rw [hd] at hrun
    cases hrun
    refine ⟨rfl, fun hoff d' hsome => ?_⟩
    rw [hd] at hsome
    cases hsome
    exact hoff

theorem action_yields (fuel line : Nat) (a : Action) :
    Yields (fun signal u => r.MayYield s.loopDepth signal u.world)
      (r.action fuel body line a) s := by
  have hquiet : ∀ {signal : Option Signal} {t : Session σ}, NoBreak signal →
      Yields (fun signal u => r.MayYield s.loopDepth signal u.world) (pure signal) t :=
    fun h => .pure (.of_noBreak h)
  cases a with
  | key name =>
    simp only [action]
    split
    · exact .throw _
    · exact .last fun _ _ => hquiet Signal.noBreak_none
  | watch text timeout =>
    refine .last fun text t => ?_
    dsimp only
    split
    · exact .last fun _ _ => hquiet Signal.noBreak_none
    · exact .last fun _ _ => hquiet Signal.noBreak_none
  | console number => exact .last fun _ _ => hquiet Signal.noBreak_none
  | wait duration => exact .last fun _ _ => hquiet Signal.noBreak_none
  | exit code => exact hquiet (Signal.noBreak_exit code)
  | endIf => exact hquiet Signal.noBreak_none
  | doReturn => exact hquiet Signal.noBreak_doReturn
  | doBreak =>
    refine isDebugging_yields.bind fun debugging t ht => ?_
    refine Yields.bind (P := fun u v => u = t ∧ v = t) ?_ fun u v huv => ?_
    · intro u v hrun
      cases hrun
      exact ⟨rfl, rfl⟩
    · obtain ⟨rfl, rfl⟩ := huv
      split
      · next hin => exact .pure fun _ => ⟨ht.1 ▸ hin.1, ht.2 (by simpa using hin.2)⟩
      · exact hquiet Signal.noBreak_none
  | includeFile path => exact (includeFile_yields path).mono fun _ _ h => .of_noBreak h.noBreak
  | screenshot path format => exact .last fun _ _ => .last fun _ _ => hquiet Signal.noBreak_none
  | call name args => exact (call_yields line name args).mono fun _ _ h => .of_noBreak h.noBreak
  | bind name value => exact .last fun _ _ => .last fun _ _ => hquiet Signal.noBreak_none

theorem plain_yields (line : Line) : Yields (fun signal _ => NoBreak signal) (r.plain line) s := by
  unfold plain
  cases line.kind with
  | text => exact .last fun _ _ => .last fun _ _ => .pure nofun
  | assignment => exact .last fun _ _ => .pure nofun
  | directive => exact .throw _
  | conditional => exact .throw _
  | comment => exact .pure nofun
  | blank => exact .pure nofun

/-- A condition passes on what its lists yield, in surroundings that are its own. -/
theorem branch_yields {P : Option Signal → Session σ → Prop} (fuel : Nat) (c : Condition)
    (yes no : List Stmt)
    (h : ∀ ss (t : Session σ), t.surroundings = s.surroundings → Yields P (r.exec fuel ss) t) :
    Yields P (r.branch fuel (r.exec fuel) c yes no) s := by
  refine .after (expand_keeps c.text) fun text t ht => ?_
  dsimp only
  split
  · refine .after (narrate_keeps _).outside fun _ u hu => ?_
    have hyes : Yields (fun signal v => v.surroundings = s.surroundings ∧ P signal v)
        (r.exec fuel yes) u := fun signal v hrun =>
      ⟨((exec_keeps fuel yes).2 _ v hrun).trans (hu.trans ht), h yes u (hu.trans ht) signal v hrun⟩
    refine hyes.bind fun signal v hv => ?_
    cases signal with
    | some signal => exact .pure hv.2
    | none =>
      dsimp only
      split
      · exact .after (narrate_keeps _).outside fun _ w hw => h no w (hw.trans hv.1)
      · exact h no v hv.1
  · refine .after clockTime_keeps.outside fun start u hu => ?_
    refine .after (pollFor_keeps text c.timeout start fuel).outside fun found v hv => ?_
    exact h _ v (hv.trans (hu.trans ht))

/-- What a statement yields, if its lists yield a break only where they may. -/
theorem stmt_mayYield {fuel : Nat} (x : Stmt)
    (h : ∀ ss (t : Session σ),
      Yields (fun signal u => r.MayYield t.loopDepth signal u.world) (r.exec fuel ss) t) :
    Yields (fun signal u => r.MayYield s.loopDepth signal u.world) (r.stmt fuel (r.exec fuel) x)
      s := by
  refine stmt_yields (fun w => .of_noBreak nofun) fun t ht => ?_
  have hdepth : t.loopDepth = s.loopDepth := congrArg Surroundings.loopDepth ht
  rw [← hdepth]
  cases x with
  | plain line => exact (plain_yields line).mono fun _ _ h => .of_noBreak h
  | action line a => exact action_yields fuel line.number a
  | loop line l own => exact (loop_yields fuel own l).mono fun _ _ h => .of_noBreak h
  | branch line c yes no =>
    refine branch_yields fuel c yes no fun ss u hu => ?_
    have hinner : u.loopDepth = t.loopDepth := congrArg Surroundings.loopDepth hu
    rw [← hinner]
    exact h ss u
  | switch line options cases otherwise =>
    exact (switch_yields fuel options cases otherwise).mono fun _ _ h => .of_noBreak h

/-- A list yields a break only inside of a loop or a switch, and if no debugger watches. -/
theorem exec_yields (fuel : Nat) (ss : List Stmt) :
    Yields (fun signal u => r.MayYield s.loopDepth signal u.world) (r.exec fuel ss) s := by
  induction fuel generalizing ss s with
  | zero => exact .outOfFuel
  | succ fuel ihfuel =>
    change Yields _ (stmts _ ss) s
    induction ss generalizing s with
    | nil => exact .pure (.of_noBreak nofun)
    | cons x rest ih =>
      have hx : Yields (fun signal t =>
          t.surroundings = s.surroundings ∧ r.MayYield s.loopDepth signal t.world)
          (r.stmt fuel (r.exec fuel) x) s := fun signal t hrun =>
        ⟨stmt_surroundings hrun, stmt_mayYield x (fun ss t => ihfuel ss) signal t hrun⟩
      refine hx.bind fun signal t ht => ?_
      cases signal with
      | some signal => exact .pure ht.2
      | none =>
        have hdepth : t.loopDepth = s.loopDepth := congrArg Surroundings.loopDepth ht.1
        rw [← hdepth]
        exact ih

/-! ## Where a break comes from -/

/-- Nothing but conditions is between a point and a loop or a switch around it. -/
inductive InLoop : List (Activation σ) → Prop where
  | here {x : Stmt} {s : Session σ} {around : List (Activation σ)}
      (h : x.directive.any Directive.isBreakable = true) : InLoop (⟨x, s⟩ :: around)
  | condition {line : Line} {c : Condition} {yes no : List Stmt} {s : Session σ}
      {around : List (Activation σ)} (h : InLoop around) :
      InLoop (⟨.branch line c yes no, s⟩ :: around)

theorem reaches_inLoop {fuel : Nat} {script : Script} {p : Point σ} (hdepth : s.loopDepth = 0)
    (h : r.Reaches (r.beginning fuel script s) p) (hp : 0 < p.session.loopDepth) :
    InLoop p.around := by
  refine h.invariant (I := fun around a => 0 < a.loopDepth → InLoop around) ?_ ?_ hp
  · intro hstart
    exact absurd hdepth (Nat.ne_of_gt hstart)
  · intro around x u a hbefore hx ha
    cases hx with
    | loop line l own => exact .here rfl
    | switch line options cases otherwise => exact .here rfl
    | branch line c yes no => exact .condition (hbefore ha)
    | call line name args now => exact absurd ha (Nat.lt_irrefl 0)
    | file line path key dir hnew => exact absurd ha (Nat.lt_irrefl 0)

end Runner

end ConsoleScript
