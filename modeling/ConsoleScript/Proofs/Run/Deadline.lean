-- SUMMARY: What a deadline keeps a run from: statements that begin late, pauses that outlast it.
import ConsoleScript.Proofs.Run.Conduct.Points

/-!
# Deadlines

Where pauses take the time that they are asked for, and no debugger interferes, a
run with a deadline begins no statement once it is over. A pause that it asks for
is not longer than what is left, and an error that says how late it is says the
truth: the deadline is over by then (`deadline_kept`).
-/

namespace ConsoleScript

theorem Machine.Forward.deed {σ : Type} {m : Machine σ} (h : m.Forward) {op : Operation σ Unit}
    (hop : m.IsDeed op) (w : σ) : m.clock.elapsed w ≤ m.clock.elapsed (op w).2 := by
  cases hop with
  | typeText text => exact h.typeText text w
  | pressKey key => exact h.pressKey key w
  | switchConsole number => exact h.switchConsole number w
  | screenshot path format => exact h.screenshot path format w

namespace Runner

variable {σ : Type} {r : Runner σ}

/-- A run with a deadline, on a machine whose pauses take the time that they are asked
    for and whose other operations take any time, without a debugger. -/
structure Timed (r : Runner σ) (timeout : Duration) : Prop where
  isLive : r.machine.isDryRun = false
  noDebugger : r.debugger = none
  hasTimeout : r.settings.timeout = some timeout
  forward : r.machine.Forward
  wait : ∀ d w, r.machine.clock.elapsed (r.machine.wait d w) = r.machine.clock.elapsed w + d

/-- A pause that ends before the deadline, or is none at all. -/
def Fits (r : Runner σ) (timeout started d : Duration) (w : σ) : Prop :=
  d = 0 ∨ r.time started w + d ≤ timeout

/-- The statement, begun in `s`, is dispatched in `t`. -/
def Dispatches (r : Runner σ) (x : Stmt) (s t : Session σ) : Prop :=
  x.line.kind.isSkipped = false ∧ (r.approach x).run s = some (.ok (), t)

namespace Timed

variable {timeout started d : Duration} {w : σ} (h : r.Timed timeout)
include h

theorem inTime_iff : r.InTime started w ↔ r.time started w < timeout := by
  simp [InTime, h.hasTimeout]

/-- What is granted fits. -/
theorem granted_fits (d : Duration) : r.Fits timeout started (r.granted started w d) w := by
  have hleft := granted_le_left h.isLive h.hasTimeout started w d
  unfold Fits
  simp only [Duration] at *
  omega

/-- When a pause is cut short the deadline is over. -/
theorem late_of_cut (hstarted : started ≤ r.machine.clock.elapsed w)
    (hcut : r.granted started w d < d) :
    timeout ≤ r.time started (r.machine.wait (r.granted started w d) w) := by
  have hleft := granted_eq_left h.hasTimeout hcut
  rw [time, h.wait, hleft]
  unfold time
  simp only [Duration] at *
  omega

/-- A statement is dispatched before the deadline is over, in the world as it is. -/
theorem dispatched {x : Stmt} {s t : Session σ} (hx : r.Dispatches x s t) :
    r.time s.started s.world < timeout ∧ t.world = s.world := by
  have hrun := hx.2
  rw [approach, Run.run_bind, run_checkDeadline] at hrun
  split at hrun
  · next hin =>
    have hconsult : r.consult x.entry = pure () := by
      rw [consult, h.noDebugger]
    rw [hconsult] at hrun
    cases hrun
    exact ⟨h.inTime_iff.mp hin, rfl⟩
  · cases hrun

end Timed

end Runner

/-- Time goes on from the beginning of the run, and errors that say how late it is do
    not say so too early. -/
def Conduct.punctual {σ : Type} (r : Runner σ) (timeout started : Duration) : Conduct σ where
  Allows _ := True
  Knows _ := True
  Rest started' w := started' = started ∧ started ≤ r.machine.clock.elapsed w
  Ready started' w := started' = started ∧ started ≤ r.machine.clock.elapsed w
  Paces _ := True
  Fails e := ∀ elapsed, e.cause = .timeout elapsed → timeout ≤ elapsed
  Escapes _ _ := False
  Total := False

namespace Conduct

variable {σ : Type} {r : Runner σ} {timeout started : Duration}

theorem punctual_watches (h : r.Timed timeout) {wait' : Duration → σ → σ}
    (hwait : ∀ d w, r.Fits timeout started d w → wait' d w = r.machine.wait d w) :
    (punctual r timeout started).Watches r wait' r.machine.capture where
  rest hrest := hrest
  inTime hrest _ := hrest
  waits d hrest := by
    obtain ⟨rfl, hstarted⟩ := hrest
    exact ⟨hwait _ _ (h.granted_fits d), rfl, Nat.le_trans hstarted (h.forward.wait _ _)⟩
  sleeps d hrest := ⟨hrest.1, Nat.le_trans hrest.2 (h.forward.wait _ _)⟩
  pauses hrest _ _ := ⟨hrest.1, Nat.le_trans hrest.2 (h.forward.wait _ _)⟩
  looks _ hrest := ⟨rfl, hrest.1, Nat.le_trans hrest.2 (h.forward.capture _)⟩
  acts hop hrest := ⟨hrest.1, Nat.le_trans hrest.2 (h.forward.deed hop _)⟩
  asks _ _ hd _ := by simp [h.noDebugger] at hd
  tells _ hdry _ := by simp [h.isLive] at hdry
  loops _ _ := trivial
  switches _ _ := trivial

theorem punctual_judges (h : r.Timed timeout) : (punctual r timeout started).Judges r := by
  refine .of_cause (fun e => ∀ elapsed, e = .timeout elapsed → timeout ≤ elapsed)
    Iff.rfl ?_ ?_ ?_ ?_
  · intro started' w hrest hover elapsed heq
    cases heq
    exact Nat.le_of_not_lt fun hlt => hover (h.inTime_iff.mpr hlt)
  · intro started' w d hrest hcut elapsed heq
    cases heq
    obtain ⟨rfl, hstarted⟩ := hrest
    exact h.late_of_cut hstarted hcut
  · intro e he hnot elapsed heq
    exact absurd heq (hnot elapsed)
  · intro functions x e _ _ hraises elapsed heq
    subst heq
    cases hraises

theorem punctual_governs (h : r.Timed timeout) (started : Duration) (wait' : Duration → σ → σ)
    (hwait : ∀ d w, r.Fits timeout started d w → wait' d w = r.machine.wait d w) :
    (punctual r timeout started).Governs r wait' r.machine.capture where
  toWatches := punctual_watches h hwait
  toJudges := punctual_judges h
  dry htotal := htotal.elim
  fatal h := h.elim
  called _ _ _ _ := trivial
  included _ _ _ _ := ⟨trivial, fun _ _ => trivial⟩

end Conduct

namespace Runner

variable {σ : Type} {r : Runner σ} {timeout : Duration}

/-- In every run with a deadline no statement is dispatched once it is over, at any
    depth. No pause is asked for that would go on past the deadline: whatever the
    machine would do then, the run is the same. An error that says how late it is, at
    any point, does not say less than the deadline. -/
theorem deadline_kept (h : r.Timed timeout) (fuel : Nat) (script : Script) (s : Session σ) :
    (∀ {around n x rest u v}, r.Reaches (r.beginning fuel script s) ⟨around, n, x :: rest, u⟩ →
      r.Dispatches x u v → r.time (r.machine.clock.elapsed s.world) v.world < timeout) ∧
    (∀ wait' : Duration → σ → σ,
      (∀ d w, r.Fits timeout (r.machine.clock.elapsed s.world) d w →
        wait' d w = r.machine.wait d w) →
      (r.swapped wait' r.machine.capture).execute fuel script s = r.execute fuel script s) ∧
    (∀ {p e t elapsed}, r.Reaches (r.beginning fuel script s) p →
      (r.exec p.fuel p.next).run p.session = some (.error e, t) → e.cause = .timeout elapsed →
      timeout ≤ elapsed) := by
  have hC := Conduct.punctual_governs h (r.machine.clock.elapsed s.world) r.machine.wait
    fun _ _ _ => rfl
  have hstart : (Conduct.punctual r timeout (r.machine.clock.elapsed s.world)).At _
      (Conduct.punctual r timeout (r.machine.clock.elapsed s.world)).Rest
      (r.beginScript script s) := ⟨rfl, trivial, rfl, Nat.le_refl _⟩
  refine ⟨?_, ?_, ?_⟩
  · intro around n x rest u v hreaches hx
    obtain ⟨-, hu⟩ := hC.reaches id (fun _ _ => id) hreaches (fun _ _ => trivial) hstart
    obtain ⟨htime, hworld⟩ := h.dispatched hx
    rw [hworld, ← hu.2.2.1]
    exact htime
  · intro wait' hwait
    exact (Conduct.punctual_governs h _ wait' hwait).execute id (fun _ _ => id)
      (fun _ _ => trivial) hstart
  · intro p e t elapsed hreaches hrun hcause
    obtain ⟨-, hp⟩ := hC.reaches id (fun _ _ => id) hreaches (fun _ _ => trivial) hstart
    have hends := hC.ends id (fun _ _ => id) p.fuel p.next (fun _ _ => trivial) hp
    rw [hrun] at hends
    exact hends.2 elapsed hcause

theorem ticking_timed (cost : Duration) (screen : Screen) (timeout : Duration) :
    (ticking cost screen timeout).Timed timeout where
  isLive := rfl
  noDebugger := rfl
  hasTimeout := rfl
  forward := Machine.ticking_forward cost screen
  wait _ _ := rfl

/-- Two pauses, of which the second one would go on past a deadline of three. -/
def twoPauses : Script where
  body := [.action ⟨1, "", "", "", .directive, none⟩ (.wait 2),
    .action ⟨2, "", "", "", .directive, none⟩ (.wait 2)]
  functions := []
  summary := .of [] []

/-- The second pause is dispatched in time and cut short, so that it does not matter
    what longer pauses do. -/
theorem deadline_kept_twoPauses :
    let r := ticking 0 [] 3
    let s : Session Duration := .start .empty 7
    let wait' : Duration → Duration → Duration := fun d w =>
      if d = 0 ∨ w - 7 + d ≤ 3 then w + d else 0
    (∃ n x rest u v, r.Reaches (r.beginning 1 twoPauses s) ⟨[], n, x :: rest, u⟩ ∧ rest = [] ∧
      r.Dispatches x u v ∧ r.time 7 v.world < 3) ∧
    (r.swapped wait' r.machine.capture).execute 1 twoPauses s = r.execute 1 twoPauses s ∧
    ∃ elapsed t, (r.exec 1 twoPauses.body).run (r.beginScript twoPauses s) =
      some (.error (.timeout elapsed), t) ∧ 3 ≤ elapsed := by
  intro r s wait'
  obtain ⟨hdispatched, hpauses, herrors⟩ := deadline_kept (ticking_timed 0 [] 3) 1 twoPauses s
  have hstart : r.Reaches (r.beginning 1 twoPauses s) (r.beginning 1 twoPauses s) := .start
  refine ⟨?_, hpauses wait' fun d w hfits => if_pos hfits, ?_⟩
  · have hsecond := Reaches.next hstart rfl
    exact ⟨_, _, _, _, _, hsecond, rfl, ⟨rfl, rfl⟩, hdispatched hsecond ⟨rfl, rfl⟩⟩
  · exact ⟨3, _, rfl, herrors hstart rfl rfl⟩

end Runner

end ConsoleScript
