-- SUMMARY: How often a loop that waits for a text looks at the screen, when, and what comes of it.
import ConsoleScript.Proofs.Run.Vigils
import Mathlib.Algebra.Order.Floor.Div

/-!
# Waiting for a text

Where pauses take the time that they are asked for, every look that goes on brings a vigil
forward by its poll interval, or up to its timeout if that is less (`progress`). So there
is a last look, and it is among the first ones that fit into the timeout
(`exists_lastLook`). No pause goes on past the timeout (`before_succ_le`). What a watch and
a condition do follows from the last look alone (`vigil_for_text`).
-/

namespace ConsoleScript

variable {σ : Type}

/-- A pause takes the time that it is asked for, and a look at the screen takes any time. -/
structure Machine.KeepsTime (m : Machine σ) : Prop where
  wait : ∀ d w, m.clock.elapsed (m.wait d w) = m.clock.elapsed w + d
  capture : ∀ w, m.clock.elapsed w ≤ m.clock.elapsed (m.capture w).2

namespace Runner

variable {r : Runner σ} {v : Vigil} {P : Screen → Prop} {w : σ} {s t : Session σ} {n fuel : Nat}

/-! ## When looks are taken -/

section

variable (h : r.machine.KeepsTime)
include h

theorem elapsed_resumed (v : Vigil) (w : σ) :
    r.machine.clock.elapsed (r.resumed v w) =
      r.machine.clock.elapsed w + min v.poll (v.timeout - r.time v.start w) :=
  h.wait _ w

theorem before_le_after (v : Vigil) (w : σ) (n : Nat) :
    r.machine.clock.elapsed (r.looks v w n).before ≤
      r.machine.clock.elapsed (r.looks v w n).after := by
  cases n <;> exact h.capture _

theorem start_le_before (hstart : v.start ≤ r.machine.clock.elapsed w) (n : Nat) :
    v.start ≤ r.machine.clock.elapsed (r.looks v w n).before := by
  induction n with
  | zero => exact hstart
  | succ n ih =>
    have hlook := before_le_after h v w n
    have hpause := elapsed_resumed h v (r.looks v w n).after
    change _ ≤ r.machine.clock.elapsed (r.resumed v (r.looks v w n).after)
    simp only [Duration] at *
    omega

/-- The pause after a look does not go on past the timeout. -/
theorem before_succ_le (hstart : v.start ≤ r.machine.clock.elapsed w)
    (hin : r.time v.start (r.looks v w n).after < v.timeout) :
    r.machine.clock.elapsed (r.looks v w (n + 1)).before ≤ v.start + v.timeout := by
  have hbegan := start_le_before h hstart n
  have hlook := before_le_after h v w n
  have hpause := elapsed_resumed h v (r.looks v w n).after
  change r.machine.clock.elapsed (r.resumed v (r.looks v w n).after) ≤ _
  unfold time at hin hpause
  simp only [Duration] at *
  omega

/-- Each look that goes on takes the vigil forward by a poll interval, up to the timeout. -/
theorem progress (hstart : v.start ≤ r.machine.clock.elapsed w)
    (hin : ∀ m < n, r.time v.start (r.looks v w m).after < v.timeout) :
    min (n * v.poll) v.timeout ≤ r.time v.start (r.looks v w n).before := by
  induction n with
  | zero => simp
  | succ n ih =>
    have hforward := ih fun m hm => hin m (Nat.lt_succ_of_lt hm)
    have hbegan := start_le_before h hstart n
    have hlook := before_le_after h v w n
    have hpause := elapsed_resumed h v (r.looks v w n).after
    change _ ≤ r.machine.clock.elapsed (r.resumed v (r.looks v w n).after) - _
    rw [Nat.succ_mul]
    unfold time at hforward hpause
    simp only [Duration] at *
    omega

/-- There is a last look, and it is among the first ones that fit into the timeout. -/
theorem exists_lastLook (P : Screen → Prop) (hpoll : 0 < v.poll)
    (hstart : v.start ≤ r.machine.clock.elapsed w) :
    ∃ n ≤ v.timeout ⌈/⌉ v.poll, r.LastLook v P w n := by
  apply LastLook.exists_le
  refine Classical.byContradiction fun hnone => ?_
  have hgoes : ∀ m ≤ v.timeout ⌈/⌉ v.poll, r.GoesOnAfter v P (r.looks v w m) :=
    fun m hm => Classical.byContradiction fun hstops => hnone ⟨m, hm, hstops⟩
  have hforward := progress h hstart fun m hm => (hgoes m (Nat.le_of_lt hm)).2
  have hlook := before_le_after h v w (v.timeout ⌈/⌉ v.poll)
  have hleft := (hgoes _ (Nat.le_refl _)).2
  -- by then the pauses alone have taken all of the time
  have hfull : v.timeout ≤ (v.timeout ⌈/⌉ v.poll) * v.poll := by
    rw [Nat.mul_comm]
    exact (ceilDiv_le_iff_le_mul hpoll).mp (Nat.le_refl _)
  rw [Nat.min_eq_right hfull] at hforward
  unfold time at hforward hleft
  simp only [Duration] at *
  omega

/-- If the last look takes no time and does not find anything, it is taken just when the
    time is over. -/
theorem LastLook.before_eq (hlast : r.LastLook v P w n)
    (hstart : v.start = r.machine.clock.elapsed w) (hmisses : ¬(r.looks v w n).Finds P)
    (hinstant : r.machine.clock.elapsed (r.looks v w n).after =
      r.machine.clock.elapsed (r.looks v w n).before) :
    r.machine.clock.elapsed (r.looks v w n).before = v.start + v.timeout := by
  have hlate := hlast.ends.resolve_left hmisses
  have hbegan := start_le_before h (Nat.le_of_eq hstart) n
  have hsoon : r.machine.clock.elapsed (r.looks v w n).before ≤ v.start + v.timeout := by
    cases n with
    | zero =>
      change r.machine.clock.elapsed w ≤ _
      rw [← hstart]
      exact Nat.le_add_right _ _
    | succ n => exact before_succ_le h (Nat.le_of_eq hstart) (hlast.inTime n (Nat.lt_succ_self n))
  unfold time at hlate
  simp only [Duration] at *
  omega

end

/-! ## Directives that wait for a text -/

/-- Whether the last of a number of looks shows the text. -/
theorem LastLook.any_shows_iff {text : String} (hlast : r.LastLook v (·.Contains text) w n) :
    (r.looks v w n).screen.any (·.shows text) = true ↔
      ∃ m ≤ n, (r.looks v w m).Finds (·.Contains text) := by
  rw [any_shows_eq_true_iff]
  constructor
  · intro hfinds
    exact ⟨n, Nat.le_refl n, hfinds⟩
  · rintro ⟨m, hm, hfinds⟩
    rcases Nat.lt_or_eq_of_le hm with hlt | rfl
    · exact absurd hfinds (hlast.misses m hlt)
    · exact hfinds

theorem run_watch {text : String} {timeout : Duration} {found : Bool}
    (hpolls : (r.pollFor text timeout (r.machine.clock.elapsed s.world) fuel).run s =
      some (.ok found, t)) :
    (r.watch fuel text timeout).run s =
      some (if found then .ok () else .error (.watchTimeout text timeout
        (r.time (r.machine.clock.elapsed s.world) t.world)), t) := by
  rw [watch, Run.run_bind_ok run_clockTime, Run.run_bind_ok hpolls]
  cases found <;> rfl

section

variable (hlive : r.machine.isDryRun = false)
include hlive

theorem run_action_watch {body : Body σ} {line : Nat} {shown text : String}
    {limit : Option Duration} {found : Bool} {u : Session σ}
    (hshown : (r.expand shown).run u = some (.ok text, s))
    (hpolls : (r.pollFor text (limit.getD r.settings.watchTimeout)
      (r.machine.clock.elapsed s.world) fuel).run s = some (.ok found, t)) :
    (r.action fuel body line (.watch shown limit)).run u =
      some (if found then .ok none else .error (.watchTimeout text
        (limit.getD r.settings.watchTimeout)
        (r.time (r.machine.clock.elapsed s.world) t.world)), t) := by
  rw [action, Run.run_bind_ok hshown]
  simp only [hlive, Bool.false_eq_true, ↓reduceIte, Run.run_bind, run_watch hpolls]
  cases found <;> rfl

theorem run_branch {body : Body σ} {c : Condition} {yes no : List Stmt} {text : String}
    {found : Bool} {u : Session σ} (hshown : (r.expand c.text).run u = some (.ok text, s))
    (hpolls : (r.pollFor text c.timeout (r.machine.clock.elapsed s.world) fuel).run s =
      some (.ok found, t)) :
    (r.branch fuel body c yes no).run u =
      (body (if c.presence = .found ↔ found = true then yes else no)).run t := by
  rw [branch, Run.run_bind_ok hshown]
  simp only [hlive, Bool.false_eq_true, ↓reduceIte]
  rw [Run.run_bind_ok run_clockTime, Run.run_bind_ok hpolls]
  cases c.presence <;> cases found <;> rfl

end

/-- Without a deadline for the whole run, looking for a text ends: with the first look that
    shows the text, or else with the first that is over when the time is. There is at least
    one look, and not more than one and those poll intervals that begin within the timeout.
    No pause between two looks goes on past it, and if the last look misses the text and
    takes no time, it is taken just when the time is over. Unless the run is a dry run, in
    which nothing is looked for, a watch fails exactly if no look shows the text, and says
    how long it has waited, which is not less than the timeout. A condition runs its first
    part exactly if the text was found, or was not, as it asks. -/
theorem vigil_for_text (h : r.machine.KeepsTime) (htimeout : r.settings.timeout = none)
    (hpoll : 0 < r.settings.poll) (text : String) (timeout : Duration) (s : Session σ) :
    let start := r.machine.clock.elapsed s.world
    let v : Vigil := ⟨timeout, r.settings.poll, start⟩
    let look := r.looks v s.world
    ∃ (n : Nat) (found : Bool), r.LastLook v (·.Contains text) s.world n ∧
      (found = true ↔ ∃ m ≤ n, (look m).Finds (·.Contains text)) ∧
      n + 1 ≤ timeout ⌈/⌉ r.settings.poll + 1 ∧
      (∀ m < n, r.machine.clock.elapsed (look (m + 1)).before ≤ start + timeout) ∧
      (found = false →
        r.machine.clock.elapsed (look n).after = r.machine.clock.elapsed (look n).before →
        r.machine.clock.elapsed (look n).before = start + timeout) ∧
      (∀ fuel, (r.pollFor text timeout start fuel).run s =
        if n < fuel then some (.ok found, r.afterLook v s n) else none) ∧
      ∀ {fuel} {body : Body σ} {u}, r.machine.isDryRun = false → n < fuel →
        (∀ {line shown limit}, (r.expand shown).run u = some (.ok text, s) →
          limit.getD r.settings.watchTimeout = timeout →
          ∃ waited, (r.action fuel body line (.watch shown limit)).run u =
              some (if found then .ok none else .error (.watchTimeout text timeout waited),
                r.afterLook v s n) ∧
            (found = false → timeout ≤ waited)) ∧
        ∀ {c yes no}, (r.expand c.text).run u = some (.ok text, s) → c.timeout = timeout →
          (r.branch fuel body c yes no).run u =
            (body (if c.presence = .found ↔ found = true then yes else no)).run
              (r.afterLook v s n) := by
  intro start v look
  obtain ⟨n, hn, hlast⟩ := exists_lastLook h (v := v) (w := s.world) (·.Contains text) hpoll
    (Nat.le_refl _)
  have hfound := hlast.any_shows_iff
  have hlate : (look n).screen.any (·.shows text) = false →
      timeout ≤ r.time start (look n).after := fun hmisses =>
    hlast.ends.resolve_left (any_shows_eq_false_iff.mp hmisses)
  have hpolls := (pollFor_keeps_vigil htimeout text timeout start).run hlast
  refine ⟨n, _, hlast, hfound, Nat.succ_le_succ hn, ?_, ?_, hpolls, ?_⟩
  · intro m hm
    exact before_succ_le h (Nat.le_refl _) (hlast.inTime m hm)
  · intro hmisses hinstant
    exact hlast.before_eq h rfl (any_shows_eq_false_iff.mp hmisses) hinstant
  · intro fuel body u hlive hfuel
    have hends := hpolls fuel
    rw [if_pos hfuel] at hends
    constructor
    · rintro line shown limit hshown rfl
      refine ⟨_, run_action_watch hlive hshown hends, ?_⟩
      rw [afterLook_world]
      exact hlate
    · rintro c yes no hshown rfl
      exact run_branch hlive hshown hends

theorem slides_keepsTime : Machine.slides.KeepsTime where
  wait _ _ := rfl
  capture w := by
    obtain ⟨now, coming⟩ := w
    cases coming with
    | nil => exact Nat.le_refl _
    | cons slide rest => exact Nat.le_add_right _ _

/-- The first look fails, the second one misses the text, and the third one shows it, just
    when the time is over. -/
theorem vigil_for_text_late :
    let r := Runner.slides
    let s : Session Slides := .start .empty
      ⟨0, [(none, 300), (some ["boot"], 0), (some ["host login: "], 100)]⟩
    let v : Vigil := ⟨1200, 500, 0⟩
    r.machine.KeepsTime ∧ r.settings.timeout = none ∧ 0 < r.settings.poll ∧
      ∃ n, r.LastLook v (·.Contains "login:") s.world n ∧ n + 1 ≤ 4 ∧
        (∀ body, (r.action 3 body 7 (.watch "login:" (some 1200))).run s =
          some (.ok none, r.afterLook v s n)) ∧
        ∀ (body : Body Slides) yes no,
          (r.branch 3 body ⟨.notFound, "login:", 1200⟩ yes no).run s =
            (body no).run (r.afterLook v s n) := by
  intro r s v
  refine ⟨slides_keepsTime, rfl, by decide, ?_⟩
  obtain ⟨n, found, hlast, -, hn, -, -, hpolls, hdirectives⟩ :=
    vigil_for_text (r := r) slides_keepsTime rfl (by decide) "login:" 1200 s
  have hsees : ((r.pollFor "login:" 1200 (r.machine.clock.elapsed s.world) 3).run s).map
      (·.1.toOption) = some (some true) := by
    decide +kernel
  rw [hpolls 3] at hsees
  obtain ⟨hfuel, rfl⟩ : n < 3 ∧ found = true := by
    split at hsees
    · next hlt =>
      cases hsees
      exact ⟨hlt, rfl⟩
    · cases hsees
  have hshown : (r.expand "login:").run s = some (.ok "login:", s) := rfl
  have hlimit : (some 1200 : Option Duration).getD r.settings.watchTimeout = 1200 := rfl
  have hfour : n + 1 ≤ 4 := Nat.le_trans hn (by decide)
  refine ⟨n, hlast, hfour, fun body => ?_, fun body yes no => ?_⟩
  · obtain ⟨waited, hwatch, -⟩ := (hdirectives rfl hfuel).1 hshown hlimit
    exact hwatch
  · exact (hdirectives rfl hfuel).2 (c := ⟨.notFound, "login:", 1200⟩) hshown rfl

end Runner

end ConsoleScript
