-- SUMMARY: What checking the deadline, sleeping and looking at the screen do, in one equation each.
import ConsoleScript.Proofs.Run.Agreement
import ConsoleScript.Run.Operate

/-!
# Steps in time

A run asks the machine to wait in one place only, when it sleeps: for as long as
it is granted, which is all of the pause or what is left until the deadline. A
pause that is cut short ends the run. It reads the screen in one place as well,
where a screen that cannot be read counts as none. `run_checkDeadline`,
`run_sleep` and `run_capture` say all that these steps do.
-/

namespace ConsoleScript

/-- No operation of the machine sets its clock back. -/
structure Machine.Forward {σ : Type} (m : Machine σ) : Prop where
  typeText : ∀ text w, m.clock.elapsed w ≤ m.clock.elapsed (m.typeText text w).2
  pressKey : ∀ key w, m.clock.elapsed w ≤ m.clock.elapsed (m.pressKey key w).2
  switchConsole : ∀ number w, m.clock.elapsed w ≤ m.clock.elapsed (m.switchConsole number w).2
  wait : ∀ d w, m.clock.elapsed w ≤ m.clock.elapsed (m.wait d w)
  screenshot : ∀ path format w,
    m.clock.elapsed w ≤ m.clock.elapsed (m.screenshot path format w).2
  capture : ∀ w, m.clock.elapsed w ≤ m.clock.elapsed (m.capture w).2

/-- A machine whose world is the time. A look at the screen takes `cost` and shows
    `screen`; nothing else takes time but a pause. -/
def Machine.ticking (cost : Duration) (screen : Screen) : Machine Duration where
  typeText _ w := (.ok (), w)
  pressKey _ w := (.ok (), w)
  switchConsole _ w := (.ok (), w)
  wait d w := w + d
  screenshot _ _ w := (.ok (), w)
  capture w := (.ok screen, w + cost)
  isDryRun := false
  narrate _ w := w
  clock := ⟨id, fun _ => 0⟩

theorem Machine.ticking_forward (cost : Duration) (screen : Screen) :
    (ticking cost screen).Forward where
  typeText _ _ := Nat.le_refl _
  pressKey _ _ := Nat.le_refl _
  switchConsole _ _ := Nat.le_refl _
  wait _ _ := Nat.le_add_right _ _
  screenshot _ _ _ := Nat.le_refl _
  capture _ := Nat.le_add_right _ _

/-- Runs scripts on such a machine, for a certain time. -/
def Runner.ticking (cost : Duration) (screen : Screen) (timeout : Duration) : Runner Duration where
  machine := .ticking cost screen
  debugger := none
  settings := { Settings.standard with timeout := some timeout }
  files := .empty

namespace Runner

variable {σ : Type} {r : Runner σ} {s : Session σ}

/-- The time since the run began, in a world. -/
def time (r : Runner σ) (started : Duration) (world : σ) : Duration :=
  r.machine.clock.elapsed world - started

/-- The deadline is not over. -/
def InTime (r : Runner σ) (started : Duration) (world : σ) : Prop :=
  ∀ timeout, r.settings.timeout = some timeout → r.time started world < timeout

/-- How much of a pause passes: what is left until the deadline, if that is less.
    In a dry run it is all of it. -/
def granted (r : Runner σ) (started : Duration) (world : σ) (d : Duration) : Duration :=
  if r.machine.isDryRun then d
  else
    match r.settings.timeout with
    | none => d
    | some timeout => min d (timeout - r.time started world)

theorem granted_le (started : Duration) (world : σ) (d : Duration) :
    r.granted started world d ≤ d := by
  unfold granted
  split
  · exact Nat.le_refl d
  · split
    · exact Nat.le_refl d
    · exact Nat.min_le_left _ _

/-- What is granted does not pass the deadline. -/
theorem granted_le_left {timeout : Duration} (hlive : r.machine.isDryRun = false)
    (htimeout : r.settings.timeout = some timeout) (started : Duration) (world : σ)
    (d : Duration) : r.granted started world d ≤ timeout - r.time started world := by
  simp only [granted, hlive, htimeout, Bool.false_eq_true, ↓reduceIte]
  exact Nat.min_le_right _ _

/-- A pause that is cut short lasts until the deadline. -/
theorem granted_eq_left {timeout : Duration} {started : Duration} {world : σ} {d : Duration}
    (htimeout : r.settings.timeout = some timeout) (hcut : r.granted started world d < d) :
    r.granted started world d = timeout - r.time started world := by
  unfold granted at hcut ⊢
  split at hcut
  · exact absurd hcut (Nat.lt_irrefl d)
  · next hlive =>
    rw [if_neg hlive]
    simp only [htimeout] at hcut ⊢
    grind

theorem run_clockTime : r.clockTime.run s = some (.ok (r.machine.clock.elapsed s.world), s) := rfl

open scoped Classical in
/-- Checking the deadline changes nothing, and fails if it is over. -/
theorem run_checkDeadline :
    r.checkDeadline.run s =
      some (if r.InTime s.started s.world then .ok ()
        else .error (.timeout (r.time s.started s.world)), s) := by
  unfold checkDeadline InTime
  cases htimeout : r.settings.timeout with
  | none => simp
  | some timeout =>
    change (if timeout ≤ r.time s.started s.world then
      throw (.timeout (r.time s.started s.world)) else pure () : Run σ Unit).run s = _
    by_cases hover : timeout ≤ r.time s.started s.world
    · simp [hover]
    · simp [hover, Nat.lt_of_not_le hover]

/-- Sleeping waits for as long as is granted, and fails if that is not all. -/
theorem run_sleep (d : Duration) :
    (r.sleep d).run s =
      let t := { s with world := r.machine.wait (r.granted s.started s.world d) s.world }
      some (if r.granted s.started s.world d < d then .error (.timeout (r.time t.started t.world))
        else .ok (), t) := by
  unfold sleep granted
  by_cases hdry : r.machine.isDryRun = true
  · simp only [hdry, ↓reduceIte, Nat.lt_irrefl]
    rfl
  · simp only [hdry, Bool.false_eq_true, ↓reduceIte]
    cases htimeout : r.settings.timeout with
    | none =>
      simp only [Nat.lt_irrefl, ↓reduceIte]
      rfl
    | some timeout =>
      change (if timeout - r.time s.started s.world < d then _ else _ : Run σ Unit).run s = _
      by_cases hcut : timeout - r.time s.started s.world < d
      · have hmin : min d (timeout - r.time s.started s.world)
            = timeout - r.time s.started s.world :=
          Nat.min_eq_right (Nat.le_of_lt hcut)
        simp only [hcut, hmin, ↓reduceIte]
        rfl
      · have hmin : min d (timeout - r.time s.started s.world) = d :=
          Nat.min_eq_left (Nat.le_of_not_lt hcut)
        simp only [hcut, hmin, Nat.lt_irrefl, ↓reduceIte]
        rfl

/-- Reading the screen does not fail. -/
theorem run_capture :
    r.capture.run s =
      some (.ok (r.machine.capture s.world).1.toOption,
        { s with world := (r.machine.capture s.world).2 }) := by
  have hoperate : (operate r.machine.capture).run s =
      some ((r.machine.capture s.world).1.mapError .machine,
        { s with world := (r.machine.capture s.world).2 }) := by
    simp only [operate, Run.run_get_bind, Run.run_set_bind]
    cases (r.machine.capture s.world).1 <;> rfl
  simp only [capture, Run.run_bind, Run.run_attempt, hoperate]
  cases (r.machine.capture s.world).1 <;> rfl

end Runner

end ConsoleScript
