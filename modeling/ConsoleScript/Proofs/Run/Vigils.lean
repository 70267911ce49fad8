-- SUMMARY: Loops that look at the screen again and again: their looks, and which is the last one.
import ConsoleScript.Proofs.Run.Looks
import ConsoleScript.Proofs.Screen.Choosing

/-!
# Vigils

A loop that waits for something on the screen looks, pauses, and looks again, until it
finds it or its time is over: it keeps a *vigil*. Its looks follow from the world in which
it begins (`Runner.looks`), as long as nothing else is done between them. So does the last
one, which is the first to find something or to be late (`Runner.LastLook`). A loop *keeps*
a vigil if it takes one look a round and ends with that look or goes on after the pause
(`Runner.Keeps`); then it ends with the last look, and does not end if there is none
(`Keeps.run`, `Keeps.exists_lastLook`). Looking for a text is such a loop
(`pollFor_keeps_vigil`), and so is looking for one of the patterns of a switch
(`pollCases_keeps_vigil`).
-/

namespace ConsoleScript

variable {σ α : Type}

/-- A look at the screen. -/
structure Look (σ : Type) where
  /-- The world in which it begins. -/
  before : σ
  /-- What is on the screen, if that could be read. -/
  screen : Option Screen
  after : σ

/-- The look finds a screen of a certain kind. -/
def Look.Finds (look : Look σ) (P : Screen → Prop) : Prop :=
  ∃ screen, look.screen = some screen ∧ P screen

theorem Look.Finds.of_screen {look : Look σ} {P : Screen → Prop} {screen : Screen}
    (h : look.Finds P) (hscreen : look.screen = some screen) : P screen := by
  obtain ⟨shown, hshown, hP⟩ := h
  obtain rfl : screen = shown := Option.some.inj (hscreen.symm.trans hshown)
  exact hP

theorem Look.not_finds_of_fails {look : Look σ} {P : Screen → Prop} (h : look.screen = none) :
    ¬look.Finds P := by
  rintro ⟨screen, hscreen, -⟩
  rw [h] at hscreen
  cases hscreen

/-- For how long, and how often, a loop looks at the screen. -/
structure Vigil where
  timeout : Duration
  /-- The pause between two looks, unless less time is left. -/
  poll : Duration
  /-- When it began. -/
  start : Duration

/-- The session after a look, which remembers the screen. -/
def Session.looked (s : Session σ) (look : Look σ) : Session σ :=
  { s with world := look.after, screen := look.screen.elim s.screen (⟨some ·⟩) }

namespace Runner

/-! ## Looks one after the other -/

/-- A look at the screen in a world. -/
def look (r : Runner σ) (w : σ) : Look σ :=
  ⟨w, (r.machine.capture w).1.toOption, (r.machine.capture w).2⟩

/-- The world after the pause that a vigil makes in a world. -/
def resumed (r : Runner σ) (v : Vigil) (w : σ) : σ :=
  r.machine.wait (min v.poll (v.timeout - r.time v.start w)) w

/-- The looks of a vigil that begins in a world, if none of them ends it. -/
def looks (r : Runner σ) (v : Vigil) (w : σ) : Nat → Look σ
  | 0 => r.look w
  | n + 1 => r.look (r.resumed v (r.looks v w n).after)

/-- The look `n` is the last one of a vigil: the first that finds what is looked for, or
    that is over when the time is. -/
structure LastLook (r : Runner σ) (v : Vigil) (P : Screen → Prop) (w : σ) (n : Nat) : Prop where
  misses : ∀ m < n, ¬(r.looks v w m).Finds P
  inTime : ∀ m < n, r.time v.start (r.looks v w m).after < v.timeout
  ends : (r.looks v w n).Finds P ∨ v.timeout ≤ r.time v.start (r.looks v w n).after

/-- The session after the look `n` of a vigil that begins in a session. -/
def afterLook (r : Runner σ) (v : Vigil) (s : Session σ) : Nat → Session σ
  | 0 => s.looked (r.look s.world)
  | n + 1 => (r.afterLook v s n).looked (r.looks v s.world (n + 1))

/-- The session after a pause. -/
def paused (r : Runner σ) (v : Vigil) (s : Session σ) : Session σ :=
  { s with world := r.resumed v s.world }

section

variable (r : Runner σ) (v : Vigil) (w : σ) (s : Session σ) (n : Nat)

@[simp] theorem afterLook_world : (r.afterLook v s n).world = (r.looks v s.world n).after := by
  cases n <;> rfl

theorem looks_succ :
    r.looks v w (n + 1) = r.looks v (r.resumed v (r.look w).after) n := by
  induction n with
  | zero => rfl
  | succ n ih => rw [looks, ih, looks]

theorem afterLook_succ : r.afterLook v s (n + 1) =
    r.afterLook v (r.paused v (s.looked (r.look s.world))) n := by
  induction n with
  | zero => rfl
  | succ n ih =>
    rw [afterLook, ih, afterLook, looks_succ]
    rfl

end

variable {r : Runner σ} {v : Vigil} {P : Screen → Prop} {w : σ} {s t : Session σ} {n fuel : Nat}

/-! ## The last look -/

/-- A look that goes on: it does not find what is looked for, and there is time left. -/
def GoesOnAfter (r : Runner σ) (v : Vigil) (P : Screen → Prop) (look : Look σ) : Prop :=
  ¬look.Finds P ∧ r.time v.start look.after < v.timeout

namespace LastLook

theorem goesOn (h : r.LastLook v P w n) : ∀ m < n, r.GoesOnAfter v P (r.looks v w m) :=
  fun m hm => ⟨h.misses m hm, h.inTime m hm⟩

theorem zero (h : ¬r.GoesOnAfter v P (r.look w)) : r.LastLook v P w 0 where
  misses _ hm := absurd hm (Nat.not_lt_zero _)
  inTime _ hm := absurd hm (Nat.not_lt_zero _)
  ends := by
    refine Classical.byContradiction fun hends => h ?_
    obtain ⟨hmisses, hleft⟩ := not_or.mp hends
    exact ⟨hmisses, Nat.lt_of_not_le hleft⟩

/-- The last look is the same for a vigil whose first look goes on and for what is left of
    it after that. -/
theorem succ_iff (hfirst : r.GoesOnAfter v P (r.look w)) :
    r.LastLook v P w (n + 1) ↔ r.LastLook v P (r.resumed v (r.look w).after) n := by
  constructor
  · intro h
    refine ⟨fun m hm => ?_, fun m hm => ?_, ?_⟩
    · rw [← looks_succ]
      exact h.misses (m + 1) (Nat.succ_lt_succ hm)
    · rw [← looks_succ]
      exact h.inTime (m + 1) (Nat.succ_lt_succ hm)
    · rw [← looks_succ]
      exact h.ends
  · intro h
    refine ⟨fun m hm => ?_, fun m hm => ?_, ?_⟩
    · cases m with
      | zero => exact hfirst.1
      | succ m =>
        rw [looks_succ]
        exact h.misses m (Nat.lt_of_succ_lt_succ hm)
    · cases m with
      | zero => exact hfirst.2
      | succ m =>
        rw [looks_succ]
        exact h.inTime m (Nat.lt_of_succ_lt_succ hm)
    · rw [looks_succ]
      exact h.ends

/-- There is only one last look. -/
theorem eq {m : Nat} (h : r.LastLook v P w n) (hm : r.LastLook v P w m) : n = m := by
  have hnot : ∀ {i j}, r.LastLook v P w i → r.LastLook v P w j → ¬i < j := fun hi hj hlt =>
    hi.ends.elim (hj.misses _ hlt) (Nat.not_le_of_lt (hj.inTime _ hlt))
  exact Nat.le_antisymm (Nat.le_of_not_lt (hnot hm h)) (Nat.le_of_not_lt (hnot h hm))

/-- If some look does not go on there is a last one. -/
theorem exists_le {bound : Nat} (h : ∃ m ≤ bound, ¬r.GoesOnAfter v P (r.looks v w m)) :
    ∃ n ≤ bound, r.LastLook v P w n := by
  induction bound generalizing w with
  | zero =>
    obtain ⟨m, hm, hstops⟩ := h
    obtain rfl := Nat.le_zero.mp hm
    exact ⟨0, hm, zero hstops⟩
  | succ bound ih =>
    by_cases hfirst : r.GoesOnAfter v P (r.look w)
    · obtain ⟨m, hm, hstops⟩ := h
      cases m with
      | zero => exact absurd hfirst hstops
      | succ m =>
        rw [looks_succ] at hstops
        obtain ⟨n, hn, hlast⟩ := ih ⟨m, Nat.le_of_succ_le_succ hm, hstops⟩
        exact ⟨n + 1, Nat.succ_le_succ hn, (succ_iff hfirst).mpr hlast⟩
    · exact ⟨0, Nat.zero_le _, zero hfirst⟩

end LastLook

/-! ## Loops that keep a vigil -/

/-- The loop takes one look a round. It ends with a look that does not go on, with an
    answer from what is on the screen, and otherwise looks again after a pause. -/
structure Keeps (r : Runner σ) (v : Vigil) (P : Screen → Prop) (answer : Option Screen → α)
    (loop : Nat → Run σ α) : Prop where
  zero : ∀ s, (loop 0).run s = none
  stops : ∀ n s, ¬r.GoesOnAfter v P (r.look s.world) →
    (loop (n + 1)).run s = some (.ok (answer (r.look s.world).screen), s.looked (r.look s.world))
  goesOn : ∀ n s, r.GoesOnAfter v P (r.look s.world) →
    (loop (n + 1)).run s = (loop n).run (r.paused v (s.looked (r.look s.world)))

namespace Keeps

variable {answer : Option Screen → α} {loop : Nat → Run σ α}

/-- The loop ends with the last look, if it has fuel for that. -/
theorem run (h : r.Keeps v P answer loop) (hlast : r.LastLook v P s.world n) (fuel : Nat) :
    (loop fuel).run s =
      if n < fuel then some (.ok (answer (r.looks v s.world n).screen), r.afterLook v s n)
      else none := by
  induction n generalizing s fuel with
  | zero =>
    cases fuel with
    | zero => exact h.zero s
    | succ fuel =>
      have hstops : ¬r.GoesOnAfter v P (r.look s.world) := fun hgoes =>
        hlast.ends.elim hgoes.1 (Nat.not_le_of_lt hgoes.2)
      rw [if_pos (Nat.succ_pos fuel)]
      exact h.stops fuel s hstops
  | succ n ih =>
    cases fuel with
    | zero => exact h.zero s
    | succ fuel =>
      have hfirst : r.GoesOnAfter v P (r.look s.world) := hlast.goesOn 0 (Nat.succ_pos n)
      have hrest : r.LastLook v P (r.paused v (s.looked (r.look s.world))).world n :=
        (LastLook.succ_iff hfirst).mp hlast
      rw [h.goesOn fuel s hfirst, ih hrest fuel, looks_succ, afterLook_succ]
      simp only [Nat.succ_lt_succ_iff]
      rfl

/-- A loop that ends has come to its last look. -/
theorem exists_lastLook {out : Except RunError α} (h : r.Keeps v P answer loop)
    (hrun : (loop fuel).run s = some (out, t)) : ∃ n < fuel, r.LastLook v P s.world n := by
  induction fuel generalizing s with
  | zero =>
    rw [h.zero s] at hrun
    cases hrun
  | succ fuel ih =>
    by_cases hfirst : r.GoesOnAfter v P (r.look s.world)
    · rw [h.goesOn fuel s hfirst] at hrun
      obtain ⟨n, hn, hlast⟩ := ih hrun
      exact ⟨n + 1, Nat.succ_lt_succ hn, (LastLook.succ_iff hfirst).mpr hlast⟩
    · exact ⟨0, Nat.succ_pos fuel, .zero hfirst⟩

end Keeps

/-! ## Steps without a deadline -/

section

variable (htimeout : r.settings.timeout = none)
include htimeout

/-- Without a deadline all of a pause passes. -/
theorem run_sleep_all (d : Duration) (s : Session σ) :
    (r.sleep d).run s = some (.ok (), { s with world := r.machine.wait d s.world }) := by
  have hgranted : r.granted s.started s.world d = d := by
    simp [granted, htimeout]
  rw [run_sleep, hgranted]
  simp

theorem run_checkDeadline_none (s : Session σ) : r.checkDeadline.run s = some (.ok (), s) := by
  have hin : r.InTime s.started s.world := by
    simp [InTime, htimeout]
  rw [run_checkDeadline, if_pos hin]

end

/-! ## Looking for a text -/

theorem run_probe_look (text : String) (s : Session σ) :
    (r.probe text).run s =
      some (.ok ((r.look s.world).screen.map (·.shows text)), s.looked (r.look s.world)) :=
  run_probe text s

/-- A look that finds a text, as the loops ask for it. -/
theorem map_shows_eq_some_true_iff {look : Look σ} {text : String} :
    look.screen.map (·.shows text) = some true ↔ look.Finds (·.Contains text) := by
  simp only [Option.map_eq_some_iff, Screen.shows_eq_true_iff, Look.Finds, Screen.Contains]

theorem any_shows_eq_true_iff {look : Look σ} {text : String} :
    look.screen.any (·.shows text) = true ↔ look.Finds (·.Contains text) := by
  simp only [Option.any_eq_true, Screen.shows_eq_true_iff, Look.Finds, Screen.Contains]

theorem any_shows_eq_false_iff {look : Look σ} {text : String} :
    look.screen.any (·.shows text) = false ↔ ¬look.Finds (·.Contains text) := by
  rw [← any_shows_eq_true_iff, Bool.not_eq_true]

theorem pollFor_keeps_vigil (htimeout : r.settings.timeout = none) (text : String)
    (timeout start : Duration) :
    r.Keeps ⟨timeout, r.settings.poll, start⟩ (·.Contains text)
      (fun screen => screen.any (·.shows text)) (r.pollFor text timeout start) where
  zero _ := rfl
  stops n s hstops := by
    rw [pollFor, Run.run_bind_ok (run_probe_look text s)]
    by_cases hfinds : (r.look s.world).Finds (·.Contains text)
    · rw [if_pos (map_shows_eq_some_true_iff.mpr hfinds), any_shows_eq_true_iff.mpr hfinds]
      rfl
    · have hlate : timeout ≤ r.time start (r.look s.world).after :=
        Nat.le_of_not_lt fun hlt => hstops ⟨hfinds, hlt⟩
      rw [if_neg (mt map_shows_eq_some_true_iff.mp hfinds), any_shows_eq_false_iff.mpr hfinds]
      change (if timeout ≤ r.time start (r.look s.world).after then _ else _ : Run σ Bool).run _ = _
      rw [if_pos hlate]
      rfl
  goesOn n s hgoes := by
    rw [pollFor, Run.run_bind_ok (run_probe_look text s),
      if_neg (mt map_shows_eq_some_true_iff.mp hgoes.1)]
    change (if timeout ≤ r.time start (r.look s.world).after then _ else _ : Run σ Bool).run _ = _
    rw [if_neg (Nat.not_le_of_lt hgoes.2), Run.run_bind_ok (run_checkDeadline_none htimeout _),
      Run.run_bind_ok (run_sleep_all htimeout _ _)]
    rfl

/-! ## Looking for one of several patterns -/

theorem run_probeCases_look (patterns : List String) (s : Session σ) :
    (r.probeCases patterns).run s =
      some (.ok ((r.look s.world).screen.bind (Screen.selectCase? patterns)),
        s.looked (r.look s.world)) := by
  rw [probeCases, Run.run_bind_ok run_capture]
  unfold look
  cases (r.machine.capture s.world).1 <;> rfl

theorem isSome_bind_selectCase?_iff {look : Look σ} {patterns : List String} :
    (look.screen.bind (Screen.selectCase? patterns)).isSome = true ↔
      look.Finds (·.Offers patterns) := by
  simp only [Option.isSome_bind, Option.any_eq_true, Screen.selectCase?_isSome_iff, Look.Finds]

theorem pollCases_keeps_vigil (htimeout : r.settings.timeout = none) (patterns : List String)
    (v : Vigil) :
    r.Keeps v (·.Offers patterns)
      (fun screen => (screen.bind (Screen.selectCase? patterns)).map (·.case))
      (r.pollCases patterns v.timeout v.poll v.start) where
  zero _ := rfl
  stops n s hstops := by
    rw [pollCases, Run.run_bind_ok (run_probeCases_look patterns s)]
    cases hhit : (r.look s.world).screen.bind (Screen.selectCase? patterns) with
    | some hit => rfl
    | none =>
      have hmisses : ¬(r.look s.world).Finds (·.Offers patterns) := by
        rw [← isSome_bind_selectCase?_iff, hhit]
        exact Bool.false_ne_true
      have hlate : v.timeout ≤ r.time v.start (r.look s.world).after :=
        Nat.le_of_not_lt fun hlt => hstops ⟨hmisses, hlt⟩
      change (if v.timeout ≤ r.time v.start (r.look s.world).after then _ else _ :
        Run σ (Option Nat)).run _ = _
      rw [if_pos hlate]
      rfl
  goesOn n s hgoes := by
    rw [pollCases, Run.run_bind_ok (run_probeCases_look patterns s)]
    have hnone : (r.look s.world).screen.bind (Screen.selectCase? patterns) = none :=
      Option.not_isSome_iff_eq_none.mp fun hsome =>
        hgoes.1 (isSome_bind_selectCase?_iff.mp hsome)
    rw [hnone]
    change (if v.timeout ≤ r.time v.start (r.look s.world).after then _ else _ :
      Run σ (Option Nat)).run _ = _
    rw [if_neg (Nat.not_le_of_lt hgoes.2), Run.run_bind_ok (run_sleep_all htimeout _ _)]
    rfl

end Runner

/-! ## A machine that shows one screen after another -/

/-- A world with a clock, and the screens that are to come: what each of them shows, unless
    it cannot be read, and how long a look at it takes. -/
structure Slides where
  now : Duration
  coming : List (Option Screen × Duration)

/-- Looks at the screens one by one. Nothing else takes time but a pause. -/
def Machine.slides : Machine Slides where
  typeText _ w := (.ok (), w)
  pressKey _ w := (.ok (), w)
  switchConsole _ w := (.ok (), w)
  wait d w := { w with now := w.now + d }
  screenshot _ _ w := (.ok (), w)
  capture w :=
    match w.coming with
    | [] => (.ok [], w)
    | (screen, cost) :: rest => (screen.elim (.error (.refused "")) .ok, ⟨w.now + cost, rest⟩)
  isDryRun := false
  narrate _ w := w
  clock := ⟨Slides.now, fun _ => 0⟩

/-- Runs scripts on such a machine, with a pause of 500 ms between two looks. -/
def Runner.slides : Runner Slides where
  machine := .slides
  debugger := none
  settings := .standard
  files := .empty

end ConsoleScript
