-- SUMMARY: Which turns a loop takes while a text is on the screen, or is not, and how it ends.
import ConsoleScript.Proofs.Run.Vigils

/-!
# Loops while the screen shows a text

Such a loop takes turns: it looks at the screen, runs its body if it sees what it asks for,
and pauses before the next turn. A look that fails makes a turn as well, but nothing is run
in it. Each turn follows from the session before it (`Turn.Taken`), and either goes on
(`Turn.GoesOn`) or ends the loop in one of five ways (`Turn.Ends`). What the loop comes to is
what its last turn ends with (`while_takes_turns`).
-/

namespace ConsoleScript

variable {σ : Type}

/-- The screen is as a loop asks for: it contains the text, or does not. -/
def Presence.HoldsOn (presence : Presence) (text : String) (screen : Screen) : Prop :=
  presence = .found ↔ screen.Contains text

theorem Presence.agrees_shows_iff {presence : Presence} {text : String} {screen : Screen} :
    presence.agrees (screen.shows text) = true ↔ presence.HoldsOn text screen := by
  have hshows : screen.shows text = true ↔ screen.Contains text := Screen.shows_eq_true_iff
  unfold HoldsOn
  rw [← hshows]
  cases presence <;> cases screen.shows text <;> decide

/-- A turn of a loop. -/
structure Turn (σ : Type) where
  look : Look σ
  /-- What the body came to, if it was run. -/
  ran : Option (Except RunError (Option Signal))
  /-- The session that the turn leaves. -/
  left : Session σ

namespace Turn

/-- The turn that a loop takes in a session. The body is run, once, after a look that finds
    what the loop asks for, and is not run after any other. -/
structure Taken (r : Runner σ) (body : Runner.Body σ) (ss : List Stmt) (P : Screen → Prop)
    (s : Session σ) (turn : Turn σ) : Prop where
  looks : turn.look = r.look s.world
  runs : turn.look.Finds P → ∃ out, turn.ran = some out ∧
    (Runner.breakable body ss).run (s.looked turn.look) = some (out, turn.left)
  skips : ¬turn.look.Finds P → turn.ran = none ∧ turn.left = s.looked turn.look

/-- The turn is over, and nothing in it has ended the loop. -/
def Over (turn : Turn σ) : Prop :=
  turn.look.screen = none ∨ turn.ran = some (.ok none)

/-- After the turn there is another one. -/
def GoesOn (r : Runner σ) (v : Vigil) (turn : Turn σ) : Prop :=
  turn.Over ∧ r.time v.start turn.left.world < v.timeout

/-- The turn ends the loop, and this is what the loop comes to then. -/
inductive Ends (r : Runner σ) (v : Vigil) (presence : Presence) (text : String)
    (turn : Turn σ) : Except RunError (Option Signal) → Prop where
  /-- The look has found that the screen is not as the loop asks for. -/
  | cleared (h : turn.look.Finds (¬presence.HoldsOn text ·)) :
      Ends r v presence text turn (.ok none)
  | failed {e : RunError} (h : turn.ran = some (.error e)) : Ends r v presence text turn (.error e)
  | broken (h : turn.ran = some (.ok (some .doBreak))) : Ends r v presence text turn (.ok none)
  | signalled {signal : Signal} (h : turn.ran = some (.ok (some signal)))
      (hleaves : signal ≠ .doBreak) : Ends r v presence text turn (.ok (some signal))
  | late {elapsed : Duration} (h : turn.Over)
      (helapsed : elapsed = r.time v.start turn.left.world) (hlate : v.timeout ≤ elapsed) :
      Ends r v presence text turn (.error (.whileTimeout presence text v.timeout elapsed))

end Turn

namespace Runner

/-- The turns that a loop takes from a session on, with a pause between two of them. -/
def Turns (r : Runner σ) (v : Vigil) (body : Body σ) (ss : List Stmt) (P : Screen → Prop) :
    Session σ → List (Turn σ) → Prop
  | _, [] => True
  | s, turn :: rest => turn.Taken r body ss P s ∧ r.Turns v body ss P (r.paused v turn.left) rest

variable {r : Runner σ} {v : Vigil} {body : Body σ} {ss : List Stmt} {P : Screen → Prop}
  {presence : Presence} {text : String} {s t u : Session σ} {turn : Turn σ}
  {out : Except RunError (Option Signal)}

/-! ## What a loop does in one turn -/

/-- What comes after a turn that is over, with `next` for the turns to come. -/
def afterTurn (r : Runner σ) (v : Vigil) (presence : Presence) (text : String)
    (next : Run σ (Option Signal)) : Run σ (Option Signal) := do
  let elapsed ← r.elapsedSince v.start
  if v.timeout ≤ elapsed then throw (.whileTimeout presence text v.timeout elapsed)
  else
    r.sleep (min v.poll (v.timeout - elapsed))
    next

/-- What comes after the body. -/
def afterBody (r : Runner σ) (v : Vigil) (presence : Presence) (text : String)
    (next : Run σ (Option Signal)) : Option Signal → Run σ (Option Signal)
  | some signal => return Signal.outsideLoop (some signal)
  | none => r.afterTurn v presence text next

theorem run_afterTurn (htimeout : r.settings.timeout = none) (next : Run σ (Option Signal))
    (s : Session σ) :
    (r.afterTurn v presence text next).run s =
      if v.timeout ≤ r.time v.start s.world then
        some (.error (.whileTimeout presence text v.timeout (r.time v.start s.world)), s)
      else next.run (r.paused v s) := by
  change (if v.timeout ≤ r.time v.start s.world then _ else _ : Run σ (Option Signal)).run s = _
  split
  · rfl
  · rw [Run.run_bind_ok (run_sleep_all htimeout _ s)]
    rfl

/-- What a loop does from a look on depends on whether that fails, and on whether it shows
    what the loop asks for. -/
theorem run_whileScreen_succ (n : Nat) (s : Session σ) :
    (r.whileScreen body ss presence text v.timeout v.poll v.start (n + 1)).run s =
      let next := r.whileScreen body ss presence text v.timeout v.poll v.start n
      match (r.look s.world).screen with
      | none => (r.afterTurn v presence text next).run (s.looked (r.look s.world))
      | some screen =>
        if presence.agrees (screen.shows text) then
          (breakable body ss >>= r.afterBody v presence text next).run (s.looked (r.look s.world))
        else some (.ok none, s.looked (r.look s.world)) := by
  rw [whileScreen, Run.run_bind_ok (run_probe_look text s)]
  rcases (r.look s.world).screen with - | screen
  · rfl
  · cases hagrees : presence.agrees (screen.shows text)
    · simp [hagrees]
    · simp only [hagrees, Option.map_some, Option.any_some, Bool.not_true, Bool.false_eq_true,
        ↓reduceIte, Option.isSome_some]
      refine congrArg (fun f => (breakable body ss >>= f).run _) (funext fun signal => ?_)
      cases signal <;> rfl

/-- If the body comes to an end wherever it is run, a loop takes a turn. -/
theorem exists_taken (hends : (r.look s.world).Finds P →
    ∃ out t, (breakable body ss).run (s.looked (r.look s.world)) = some (out, t)) :
    ∃ turn : Turn σ, turn.Taken r body ss P s := by
  by_cases hfinds : (r.look s.world).Finds P
  · obtain ⟨out, t, hruns⟩ := hends hfinds
    exact ⟨⟨r.look s.world, some out, t⟩, rfl, fun _ => ⟨out, rfl, hruns⟩, fun h => absurd hfinds h⟩
  · exact ⟨⟨r.look s.world, none, s.looked (r.look s.world)⟩, rfl, fun h => absurd h hfinds,
      fun _ => ⟨rfl, rfl⟩⟩

end Runner

/-! ## One turn -/

namespace Turn.Taken

open Runner

variable {r : Runner σ} {v : Vigil} {body : Body σ} {ss : List Stmt} {P : Screen → Prop}
  {presence : Presence} {text : String} {s u : Session σ} {turn : Turn σ} {n : Nat}
  {out : Except RunError (Option Signal)}

theorem of_ran (h : turn.Taken r body ss P s) (hran : turn.ran = some out) :
    turn.look.Finds P ∧ (breakable body ss).run (s.looked turn.look) = some (out, turn.left) := by
  by_cases hfinds : turn.look.Finds P
  · obtain ⟨out', hran', hruns⟩ := h.runs hfinds
    rw [hran] at hran'
    cases hran'
    exact ⟨hfinds, hruns⟩
  · rw [(h.skips hfinds).1] at hran
    cases hran

/-- A turn either goes on or ends the loop. -/
theorem goesOn_or_ends (h : turn.Taken r body ss (presence.HoldsOn text) s) (v : Vigil) :
    turn.GoesOn r v ∨ ∃ out, turn.Ends r v presence text out := by
  have hover : turn.Over → turn.GoesOn r v ∨ ∃ out, turn.Ends r v presence text out := by
    intro hover
    rcases Nat.lt_or_ge (r.time v.start turn.left.world) v.timeout with hleft | hlate
    · exact .inl ⟨hover, hleft⟩
    · exact .inr ⟨_, .late hover rfl hlate⟩
  by_cases hfinds : turn.look.Finds (presence.HoldsOn text)
  · obtain ⟨out, hran, -⟩ := h.runs hfinds
    rcases out with e | - | signal
    · exact .inr ⟨_, .failed hran⟩
    · exact hover (.inr hran)
    · by_cases hbreak : signal = .doBreak
      · subst hbreak
        exact .inr ⟨_, .broken hran⟩
      · exact .inr ⟨_, .signalled hran hbreak⟩
  · cases hscreen : turn.look.screen with
    | none => exact hover (.inl hscreen)
    | some screen =>
      exact .inr ⟨_, .cleared ⟨screen, hscreen, fun hholds => hfinds ⟨screen, hscreen, hholds⟩⟩⟩

section

variable (h : turn.Taken r body ss (presence.HoldsOn text) s)
include h

/-- After a look that finds what it asks for, a loop goes on with the body. -/
theorem run_of_finds (hfinds : turn.look.Finds (presence.HoldsOn text)) (n : Nat) :
    (r.whileScreen body ss presence text v.timeout v.poll v.start (n + 1)).run s =
      (breakable body ss >>= r.afterBody v presence text
        (r.whileScreen body ss presence text v.timeout v.poll v.start n)).run
          (s.looked turn.look) := by
  obtain ⟨screen, hscreen, hholds⟩ := hfinds
  rw [h.looks] at hscreen ⊢
  rw [run_whileScreen_succ]
  simp only [hscreen, Presence.agrees_shows_iff.mpr hholds, if_true]

theorem run_of_clears (hclears : turn.look.Finds (¬presence.HoldsOn text ·)) (n : Nat) :
    (r.whileScreen body ss presence text v.timeout v.poll v.start (n + 1)).run s =
      some (.ok none, turn.left) := by
  obtain ⟨screen, hscreen, hclears⟩ := hclears
  rw [(h.skips fun hfinds => hclears (hfinds.of_screen hscreen)).2]
  rw [h.looks] at hscreen ⊢
  rw [run_whileScreen_succ]
  simp only [hscreen, mt Presence.agrees_shows_iff.mp hclears, Bool.false_eq_true, if_false]

/-- A turn that is over is followed by the next one, unless the time is over, too. -/
theorem run_of_over (hover : turn.Over) (n : Nat) :
    (r.whileScreen body ss presence text v.timeout v.poll v.start (n + 1)).run s =
      (r.afterTurn v presence text
        (r.whileScreen body ss presence text v.timeout v.poll v.start n)).run turn.left := by
  rcases hover with hscreen | hran
  · rw [(h.skips (Look.not_finds_of_fails hscreen)).2]
    rw [h.looks] at hscreen ⊢
    rw [run_whileScreen_succ]
    simp only [hscreen]
  · obtain ⟨hfinds, hruns⟩ := h.of_ran hran
    rw [h.run_of_finds hfinds n, Run.run_bind_ok hruns]
    rfl

variable (htimeout : r.settings.timeout = none)
include htimeout

theorem run_of_goesOn (hgoes : turn.GoesOn r v) (n : Nat) :
    (r.whileScreen body ss presence text v.timeout v.poll v.start (n + 1)).run s =
      (r.whileScreen body ss presence text v.timeout v.poll v.start n).run
        (r.paused v turn.left) := by
  rw [h.run_of_over hgoes.1 n, run_afterTurn htimeout, if_neg (Nat.not_le_of_lt hgoes.2)]

theorem run_of_ends (hends : turn.Ends r v presence text out) (n : Nat) :
    (r.whileScreen body ss presence text v.timeout v.poll v.start (n + 1)).run s =
      some (out, turn.left) := by
  cases hends with
  | cleared hclears => exact h.run_of_clears hclears n
  | failed hran =>
    obtain ⟨hfinds, hruns⟩ := h.of_ran hran
    rw [h.run_of_finds hfinds n, Run.run_bind_error hruns]
  | broken hran =>
    obtain ⟨hfinds, hruns⟩ := h.of_ran hran
    rw [h.run_of_finds hfinds n, Run.run_bind_ok hruns]
    rfl
  | @signalled signal hran hleaves =>
    obtain ⟨hfinds, hruns⟩ := h.of_ran hran
    rw [h.run_of_finds hfinds n, Run.run_bind_ok hruns]
    cases signal with
    | doBreak => exact absurd rfl hleaves
    | doReturn => rfl
    | exit code => rfl
  | late hover helapsed hlate =>
    subst helapsed
    rw [h.run_of_over hover n, run_afterTurn htimeout, if_pos hlate]

end

end Turn.Taken

/-! ## All turns -/

namespace Runner

variable {r : Runner σ} {v : Vigil} {body : Body σ} {ss : List Stmt} {presence : Presence}
  {text : String} {s t u : Session σ} {fuel : Nat} {out : Except RunError (Option Signal)}

/-- A loop that comes to an end takes a turn, whatever that does. -/
theorem exists_taken_of_run
    (hrun : (r.whileScreen body ss presence text v.timeout v.poll v.start (fuel + 1)).run s =
      some (out, u)) :
    ∃ turn : Turn σ, turn.Taken r body ss (presence.HoldsOn text) s := by
  refine exists_taken fun ⟨screen, hscreen, hholds⟩ => ?_
  rw [run_whileScreen_succ] at hrun
  simp only [hscreen, Presence.agrees_shows_iff.mpr hholds, if_true, Run.run_bind] at hrun
  obtain ⟨⟨out', t⟩, hruns, -⟩ := Option.bind_eq_some_iff.mp hrun
  exact ⟨out', t, hruns⟩

theorem run_whileScreen_iff (htimeout : r.settings.timeout = none) :
    (r.whileScreen body ss presence text v.timeout v.poll v.start fuel).run s = some (out, u) ↔
      ∃ turns last, turns.length < fuel ∧
        r.Turns v body ss (presence.HoldsOn text) s (turns ++ [last]) ∧
        (∀ turn ∈ turns, turn.GoesOn r v) ∧ last.Ends r v presence text out ∧ last.left = u := by
  constructor
  · intro hrun
    induction fuel generalizing s with
    | zero => cases hrun
    | succ fuel ih =>
      obtain ⟨turn, htaken⟩ := exists_taken_of_run hrun
      rcases htaken.goesOn_or_ends v with hgoes | ⟨out', hends⟩
      · rw [htaken.run_of_goesOn htimeout hgoes] at hrun
        obtain ⟨turns, last, hlength, hturns, hall, hlast⟩ := ih hrun
        exact ⟨turn :: turns, last, Nat.succ_lt_succ hlength, ⟨htaken, hturns⟩,
          List.forall_mem_cons.mpr ⟨hgoes, hall⟩, hlast⟩
      · rw [htaken.run_of_ends htimeout hends] at hrun
        cases hrun
        exact ⟨[], turn, Nat.succ_pos fuel, ⟨htaken, trivial⟩, nofun, hends, rfl⟩
  · rintro ⟨turns, last, hlength, hturns, hall, hends, rfl⟩
    induction turns generalizing s fuel with
    | nil =>
      cases fuel with
      | zero => cases hlength
      | succ fuel => exact hturns.1.run_of_ends htimeout hends fuel
    | cons turn turns ih =>
      cases fuel with
      | zero => cases hlength
      | succ fuel =>
        obtain ⟨htaken, hrest⟩ := hturns
        obtain ⟨hgoes, hall⟩ := List.forall_mem_cons.mp hall
        rw [htaken.run_of_goesOn htimeout hgoes fuel]
        exact ih (Nat.lt_of_succ_lt_succ hlength) hrest hall

/-- A loop that goes on while a text is on the screen, or is not, takes turns, in a run
    without a deadline that is no dry run: it comes to an end exactly if some turn ends it,
    and all before go on, and then does as that turn says. In each turn the body is run once
    if the look finds what the loop asks for, and not at all otherwise. The loop succeeds at
    the first look that finds the opposite, and if the body is left by a break. It fails or
    is left as the body is, and it fails when a turn is over and the time is, too. A look
    that fails neither runs the body nor ends the loop itself. -/
theorem while_takes_turns {timeout : Duration} {poll : Option Duration} {shown : String}
    {scope : Scope} (hlive : r.machine.isDryRun = false) (htimeout : r.settings.timeout = none)
    (hshown : s.scope.expand (r.machine.clock.seconds s.world) text = (shown, scope)) :
    let v : Vigil := ⟨timeout, poll.getD r.settings.poll, r.machine.clock.elapsed s.world⟩
    (r.loop fuel body ss (.whileScreen presence text timeout poll)).run s = some (out, u) ↔
      ∃ turns last, turns.length < fuel ∧
        r.Turns v body ss (presence.HoldsOn shown) { s with scope } (turns ++ [last]) ∧
        (∀ turn ∈ turns, turn.GoesOn r v) ∧ last.Ends r v presence shown out ∧
        last.left = u := by
  intro v
  have hexpands : (r.expand text).run s = some (.ok shown, { s with scope }) := by
    rw [expand, Run.run_get_bind, hshown]
    rfl
  rw [← run_whileScreen_iff htimeout, loop, Run.run_bind_ok hexpands]
  simp only [hlive, Bool.false_eq_true, ↓reduceIte]
  rw [Run.run_bind_ok run_clockTime]

/-- The body waits and is run twice, with a look that fails between. The time it takes
    leaves room for a fourth look, which no longer shows the text. -/
theorem while_takes_turns_until_ready :
    let r := Runner.slides
    let s : Session Slides := .start .empty
      ⟨0, [(some ["busy"], 100), (none, 50), (some ["still busy"], 0), (some ["ready"], 0)]⟩
    let v : Vigil := ⟨5000, 500, 0⟩
    let ss : List Stmt := [.action ⟨3, "", "<wait 700ms>", "", .directive, none⟩ (.wait 700)]
    r.machine.isDryRun = false ∧ r.settings.timeout = none ∧
      ∃ turns last, turns.length < 5 ∧
        r.Turns v (r.exec 3) ss (Presence.found.HoldsOn "busy") s (turns ++ [last]) ∧
        (∀ turn ∈ turns, turn.GoesOn r v) ∧ last.Ends r v .found "busy" (.ok none) ∧
        last.left.world.now = 3050 := by
  intro r s v ss
  refine ⟨rfl, rfl, ?_⟩
  have hends : ((r.loop 5 (r.exec 3) ss (.whileScreen .found "busy" 5000 none)).run s).map
      (fun (out, u) => (out.toOption, u.world.now)) = some (some none, 3050) := by
    decide +kernel
  obtain ⟨⟨out, u⟩, hrun, hout⟩ := Option.map_eq_some_iff.mp hends
  obtain ⟨hok, hnow⟩ := Prod.mk.inj hout
  have hshown : s.scope.expand (r.machine.clock.seconds s.world) "busy" = ("busy", s.scope) := by
    decide +kernel
  obtain ⟨turns, last, hlength, hturns, hall, hlast, rfl⟩ :=
    (while_takes_turns rfl rfl hshown).mp hrun
  cases out with
  | error e => cases hok
  | ok signal =>
    cases hok
    exact ⟨turns, last, hlength, hturns, hall, hlast, hnow⟩

end Runner

end ConsoleScript
