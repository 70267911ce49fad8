-- SUMMARY: Loops that count: a repeat is its body written so often, a retry is attempts with pauses between.
import ConsoleScript.Proofs.Run.Uncatchable

/-!
# Loops that count

A loop that repeats its body does the same as the list in which the body stands so many
times, run once inside a loop: where one copy ends, the next begins, in a session that is
the same in both (`run_breakable_append`). Only the error of a copy is told with the number
of that copy (`run_repeatTimes`).

A loop that retries its body makes attempts. An attempt either gives way to the next one,
after one pause (`Attempt.GivesWay`), or ends the loop in one of four ways (`Attempt.Ends`).
What the loop comes to is what its last attempt ends with (`run_retry_iff`).
-/

namespace ConsoleScript

variable {σ : Type}

namespace Runner

variable {r : Runner σ} {body : Body σ} {ss : List Stmt} {s t u : Session σ} {k : Nat}
  {out : Except RunError (Option Signal)}

/-! ## Lists one after the other -/

theorem run_stmts_append (one : Stmt → Run σ (Option Signal)) (ss rest : List Stmt)
    (s : Session σ) :
    (stmts one (ss ++ rest)).run s = ((stmts one ss).run s).bind fun
      | (.ok none, t) => (stmts one rest).run t
      | ended => some ended := by
  induction ss generalizing s with
  | nil => rfl
  | cons x ss ih =>
    rw [List.cons_append, stmts, stmts, Run.run_bind, Run.run_bind]
    cases (one x).run s with
    | none => rfl
    | some result =>
      obtain ⟨out, t⟩ := result
      rcases out with e | - | signal
      · rfl
      · exact ih t
      · rfl

theorem run_exec_append (k : Nat) (ss rest : List Stmt) (s : Session σ) :
    (r.exec k (ss ++ rest)).run s = ((r.exec k ss).run s).bind fun
      | (.ok none, t) => (r.exec k rest).run t
      | ended => some ended := by
  cases k with
  | zero => rfl
  | succ k => exact run_stmts_append _ ss rest s

/-- Between two lists a loop may be left and entered again. -/
theorem run_breakable_append (k : Nat) (ss rest : List Stmt) (s : Session σ) :
    (breakable (r.exec k) (ss ++ rest)).run s = ((breakable (r.exec k) ss).run s).bind fun
      | (.ok none, t) => (breakable (r.exec k) rest).run t
      | ended => some ended := by
  simp only [breakable, Run.run_framed, run_exec_append]
  cases hrun : (r.exec k ss).run { s with loopDepth := s.loopDepth + 1 } with
  | none => rfl
  | some result =>
    obtain ⟨out, t⟩ := result
    rcases out with e | - | signal
    · rfl
    · have hdepth : t.loopDepth = s.loopDepth + 1 :=
        congrArg Surroundings.loopDepth ((exec_keeps k ss).2 _ t hrun)
      have hsame : { t with loopDepth := t.loopDepth - 1 + 1 } = t := by
        rw [hdepth, Nat.add_sub_cancel, ← hdepth]
      simp only [Option.bind_some, Option.map_some, hsame]
    · rfl

/-! ## Repeats -/

/-- The body completes so many times, one after the other: it neither fails nor is left by a
    signal. -/
def Completes (body : Body σ) (ss : List Stmt) : Nat → Session σ → Session σ → Prop
  | 0, s, t => t = s
  | i + 1, s, t => ∃ u, (breakable body ss).run s = some (.ok none, u) ∧ Completes body ss i u t

/-- What a repeat comes to, given what its copies come to of which `i` have completed. -/
def repeatOutcome (i n : Nat) :
    Except RunError (Option Signal) → Except RunError (Option Signal)
  | .ok signal => .ok (Signal.outsideLoop signal)
  | .error e => .error (if e.isFatal then e else .repeatFailed (i + 1) n e)

/-- After a list that completes comes the next one. -/
theorem run_breakable_append_of_completes {rest : List Stmt}
    (h : (breakable (r.exec k) ss).run s = some (.ok none, t)) :
    (breakable (r.exec k) (ss ++ rest)).run s = (breakable (r.exec k) rest).run t := by
  rw [run_breakable_append, h, Option.bind_some]

/-- After a list that does not complete comes nothing. -/
theorem run_breakable_append_of_ends {rest : List Stmt}
    (h : ∀ u, (breakable (r.exec k) ss).run s ≠ some (.ok none, u)) :
    (breakable (r.exec k) (ss ++ rest)).run s = (breakable (r.exec k) ss).run s := by
  rw [run_breakable_append]
  cases hrun : (breakable (r.exec k) ss).run s with
  | none => rfl
  | some result =>
    obtain ⟨out, t⟩ := result
    rcases out with e | - | signal
    · rfl
    · exact absurd hrun (h t)
    · rfl

theorem run_repeatTimes_of_completes {left total : Nat}
    (h : (breakable body ss).run s = some (.ok none, t)) :
    (repeatTimes body ss total (left + 1)).run s = (repeatTimes body ss total left).run t := by
  rw [repeatTimes, Run.run_attempt_bind h]

/-- A copy that does not complete ends a repeat, as the one after the `i` before it. -/
theorem run_repeatTimes_of_ends {left total i : Nat} (htotal : total = i + (left + 1))
    (h : ∀ u, (breakable body ss).run s ≠ some (.ok none, u)) :
    (repeatTimes body ss total (left + 1)).run s =
      ((breakable body ss).run s).map fun (out, u) => (repeatOutcome i total out, u) := by
  have hnumber : total - left = i + 1 := by omega
  rw [repeatTimes, Run.run_bind, Run.run_attempt]
  cases hrun : (breakable body ss).run s with
  | none => rfl
  | some result =>
    obtain ⟨out, t⟩ := result
    rcases out with e | - | signal
    · simp only [Option.map_some, Option.bind_some, repeatOutcome, hnumber]
      split <;> rfl
    · exact absurd hrun (h t)
    · cases signal <;> rfl

/-- A repeat with `left + 1` copies to run, after `before` that have completed, is the list of
    these copies. -/
theorem run_repeatTimes (ss : List Stmt) {total before left : Nat}
    (htotal : total = before + (left + 1)) :
    ∃ i t, i ≤ left + 1 ∧ Completes (r.exec k) ss i s t ∧
      (i < left + 1 → ∀ u, (breakable (r.exec k) ss).run t ≠ some (.ok none, u)) ∧
      (repeatTimes (r.exec k) ss total (left + 1)).run s =
        ((breakable (r.exec k) (List.replicate (left + 1) ss).flatten).run s).map
          fun (out, u) => (repeatOutcome (before + i) total out, u) := by
  induction left generalizing s before with
  | zero =>
    rw [List.replicate_one, List.flatten_singleton]
    by_cases hfirst : ∃ t, (breakable (r.exec k) ss).run s = some (.ok none, t)
    · obtain ⟨t, hfirst⟩ := hfirst
      refine ⟨1, t, Nat.le_refl 1, ⟨t, hfirst, rfl⟩, fun h => absurd h (Nat.lt_irrefl 1), ?_⟩
      rw [run_repeatTimes_of_completes hfirst, hfirst]
      rfl
    · have hends := not_exists.mp hfirst
      exact ⟨0, s, Nat.zero_le _, rfl, fun _ => hends, run_repeatTimes_of_ends htotal hends⟩
  | succ left ih =>
    rw [List.replicate_succ, List.flatten_cons]
    by_cases hfirst : ∃ t, (breakable (r.exec k) ss).run s = some (.ok none, t)
    · obtain ⟨t, hfirst⟩ := hfirst
      have htotal' : total = (before + 1) + (left + 1) := by omega
      obtain ⟨i, v, hle, hcompletes, hnext, hrun⟩ := ih (s := t) htotal'
      refine ⟨i + 1, v, Nat.succ_le_succ hle, ⟨t, hfirst, hcompletes⟩,
        fun h => hnext (Nat.lt_of_succ_lt_succ h), ?_⟩
      have hcount : before + (i + 1) = before + 1 + i := by omega
      rw [run_repeatTimes_of_completes hfirst, hrun, run_breakable_append_of_completes hfirst, hcount]
    · have hends := not_exists.mp hfirst
      refine ⟨0, s, Nat.zero_le _, rfl, fun _ => hends, ?_⟩
      rw [run_repeatTimes_of_ends htotal hends, run_breakable_append_of_ends hends, Nat.add_zero]

end Runner

/-! ## Attempts -/

/-- An attempt to run the body of a loop. -/
structure Attempt (σ : Type) where
  /-- What the body came to. -/
  out : Except RunError (Option Signal)
  /-- The session that it left. -/
  left : Session σ

namespace Attempt

/-- The attempt has failed with an error after which there may be another one. -/
def FailsWith (a : Attempt σ) (e : RunError) : Prop :=
  a.out = .error e ∧ e.isFatal = false

/-- How much of the pause after the attempt passes. -/
def pause (a : Attempt σ) (r : Runner σ) : Duration :=
  r.granted a.left.started a.left.world r.settings.retryDelay

/-- The session after the pause. -/
def rested (a : Attempt σ) (r : Runner σ) : Session σ :=
  { a.left with world := r.machine.wait (a.pause r) a.left.world }

/-- The attempt gives way to another one: it has failed, and all of the pause passes. -/
def GivesWay (a : Attempt σ) (r : Runner σ) : Prop :=
  (∃ e, a.FailsWith e) ∧ a.pause r = r.settings.retryDelay

/-- The attempt ends the loop, with so many left of `n`, and this is what the loop comes to. -/
inductive Ends (a : Attempt σ) (r : Runner σ) (n left : Nat) :
    Except RunError (Option Signal) → Session σ → Prop where
  | succeeded {signal : Option Signal} (h : a.out = .ok signal) :
      Ends a r n left (.ok (Signal.outsideLoop signal)) a.left
  | fatal {e : RunError} (h : a.out = .error e) (hfatal : e.isFatal = true) :
      Ends a r n left (.error e) a.left
  | exhausted {e : RunError} (h : a.FailsWith e) (hleft : left = 0) :
      Ends a r n left (.error (.retryExhausted n e)) a.left
  /-- The deadline is reached in the pause. -/
  | late {e : RunError} (h : a.FailsWith e) (hleft : 0 < left)
      (hcut : a.pause r < r.settings.retryDelay) :
      Ends a r n left (.error (.timeout (r.time a.left.started (a.rested r).world))) (a.rested r)

/-- An attempt gives way to another one, if there is one left, or ends the loop. -/
theorem givesWay_or_ends (a : Attempt σ) (r : Runner σ) (n left : Nat) :
    (∃ more, left = more + 1 ∧ a.GivesWay r) ∨ ∃ out u, a.Ends r n left out u := by
  cases hout : a.out with
  | ok signal => exact .inr ⟨_, _, .succeeded hout⟩
  | error e =>
    cases hfatal : e.isFatal with
    | true => exact .inr ⟨_, _, .fatal hout hfatal⟩
    | false =>
      cases left with
      | zero => exact .inr ⟨_, _, .exhausted ⟨hout, hfatal⟩ rfl⟩
      | succ more =>
        rcases Nat.eq_or_lt_of_le (Runner.granted_le a.left.started a.left.world _) with hall | hcut
        · exact .inl ⟨more, rfl, ⟨e, hout, hfatal⟩, hall⟩
        · exact .inr ⟨_, _, .late ⟨hout, hfatal⟩ (Nat.succ_pos more) hcut⟩

end Attempt

namespace Runner

/-- The attempts that a loop makes from a session on, with a pause between two of them. -/
def Attempts (r : Runner σ) (body : Body σ) (ss : List Stmt) :
    Session σ → List (Attempt σ) → Prop
  | _, [] => True
  | s, a :: rest =>
    (breakable body ss).run s = some (a.out, a.left) ∧ r.Attempts body ss (a.rested r) rest

variable {r : Runner σ} {body : Body σ} {ss : List Stmt} {s u : Session σ} {a : Attempt σ}
  {total left : Nat} {out : Except RunError (Option Signal)}

/-! ## Retries -/

theorem triesAgain_of_fails {e : RunError}
    (hrun : (breakable body ss).run s = some (a.out, a.left)) (hfails : a.FailsWith e) :
    r.TriesAgain body ss s r.settings.retryDelay a.left :=
  ⟨e, by rw [hrun, hfails.1], hfails.2, rfl⟩

theorem run_retry_of_givesWay (hrun : (breakable body ss).run s = some (a.out, a.left))
    (hgives : a.GivesWay r) :
    (r.retry body ss total (left + 2)).run s =
      (r.retry body ss total (left + 1)).run (a.rested r) := by
  obtain ⟨⟨e, hfails⟩, hpause⟩ := hgives
  have hsleep : (r.sleep r.settings.retryDelay).run a.left = some (.ok (), a.rested r) := by
    have hgranted : ¬r.granted a.left.started a.left.world r.settings.retryDelay <
        r.settings.retryDelay := Nat.not_lt_of_le (Nat.le_of_eq hpause.symm)
    rw [run_sleep]
    simp only [hgranted, ↓reduceIte]
    rfl
  rw [retry_round (triesAgain_of_fails hrun hfails), Run.run_bind_ok hsleep]

theorem run_retry_of_ends (hrun : (breakable body ss).run s = some (a.out, a.left))
    (hends : a.Ends r total left out u) :
    (r.retry body ss total (left + 1)).run s = some (out, u) := by
  cases hends with
  | succeeded hout =>
    rw [retry, Run.run_attempt_bind hrun, hout]
    rfl
  | fatal hout hfatal =>
    rw [retry, Run.run_attempt_bind hrun, hout]
    simp only [hfatal, ↓reduceIte]
    rfl
  | exhausted hfails hleft =>
    rw [retry, Run.run_attempt_bind hrun, hfails.1]
    simp only [hfails.2, hleft, Bool.false_eq_true, ↓reduceIte]
    rfl
  | late hfails hleft hcut =>
    have hsleep : (r.sleep r.settings.retryDelay).run a.left =
        some (.error (.timeout (r.time a.left.started (a.rested r).world)), a.rested r) := by
      rw [run_sleep]
      exact congrArg (fun out => some (out, a.rested r)) (if_pos hcut)
    obtain ⟨more, rfl⟩ := Nat.exists_eq_succ_of_ne_zero (Nat.pos_iff_ne_zero.mp hleft)
    rw [retry_round (triesAgain_of_fails hrun hfails), Run.run_bind_error hsleep]

/-- A retry that comes to an end makes an attempt. -/
theorem exists_attempt_of_run (hretry : (r.retry body ss total (left + 1)).run s = some (out, u)) :
    ∃ a : Attempt σ, (breakable body ss).run s = some (a.out, a.left) := by
  rw [retry, Run.run_bind, Run.run_attempt] at hretry
  obtain ⟨attempted, hattempt, -⟩ := Option.bind_eq_some_iff.mp hretry
  obtain ⟨⟨out, t⟩, hrun, -⟩ := Option.map_eq_some_iff.mp hattempt
  exact ⟨⟨out, t⟩, hrun⟩

/-- A retry with `left + 1` attempts to make of `total`. -/
theorem run_retry_iff :
    (r.retry body ss total (left + 1)).run s = some (out, u) ↔
      ∃ tries last, tries.length ≤ left ∧ r.Attempts body ss s (tries ++ [last]) ∧
        (∀ a ∈ tries, a.GivesWay r) ∧ last.Ends r total (left - tries.length) out u := by
  constructor
  · intro hretry
    induction left using Nat.strongRecOn generalizing s with
    | ind left ih =>
      obtain ⟨a, hrun⟩ := exists_attempt_of_run hretry
      rcases a.givesWay_or_ends r total left with ⟨more, rfl, hgives⟩ | ⟨out', u', hends⟩
      · rw [run_retry_of_givesWay hrun hgives] at hretry
        obtain ⟨tries, last, hlength, hattempts, hall, hends⟩ :=
          ih more (Nat.lt_succ_self more) hretry
        refine ⟨a :: tries, last, Nat.succ_le_succ hlength, ⟨hrun, hattempts⟩,
          List.forall_mem_cons.mpr ⟨hgives, hall⟩, ?_⟩
        rw [List.length_cons, Nat.add_sub_add_right]
        exact hends
      · rw [run_retry_of_ends hrun hends] at hretry
        cases hretry
        exact ⟨[], a, Nat.zero_le _, ⟨hrun, trivial⟩, nofun, hends⟩
  · rintro ⟨tries, last, hlength, hattempts, hall, hends⟩
    induction tries generalizing s left with
    | nil => exact run_retry_of_ends hattempts.1 hends
    | cons a tries ih =>
      obtain ⟨hrun, hrest⟩ := hattempts
      obtain ⟨hgives, hall⟩ := List.forall_mem_cons.mp hall
      cases left with
      | zero => cases hlength
      | succ left =>
        rw [run_retry_of_givesWay hrun hgives]
        refine ih (Nat.le_of_succ_le_succ hlength) hrest hall ?_
        rw [List.length_cons, Nat.add_sub_add_right] at hends
        exact hends

/-- A retry of a body that always comes to an end does so, too. -/
theorem exists_run_retry
    (hbody : ∀ t, ∃ out u, (breakable body ss).run t = some (out, u)) :
    ∃ out u, (r.retry body ss total (left + 1)).run s = some (out, u) := by
  induction left using Nat.strongRecOn generalizing s with
  | ind left ih =>
    obtain ⟨out, t, hrun⟩ := hbody s
    rcases (Attempt.mk out t).givesWay_or_ends r total left with
      ⟨more, rfl, hgives⟩ | ⟨out', u', hends⟩
    · rw [run_retry_of_givesWay hrun hgives]
      exact ih more (Nat.lt_succ_self more)
    · exact ⟨out', u', run_retry_of_ends hrun hends⟩

/-! ## Unrollings -/

/-- The loops that count are their unrollings, in a run that is no dry run. A repeat does what
    the list does in which its body stands `n` times, and ends in the same session: it succeeds
    where that list does, or is left by a break, and fails where that list fails. An error
    that is not fatal is told with the number of the copy that failed, the one after the `i`
    that have completed. A retry makes attempts, at the most `n`, each in the session that is
    left by the one before and one whole pause. All attempts but the last fail, and not
    fatally. The last one is the first that does not fail so, or the one with number `n`,
    whose error the loop fails with, or one after which the deadline is reached in the pause.
    If the body always comes to an end, so does the retry. -/
theorem counted_loops_unroll (hlive : r.machine.isDryRun = false) {n : Nat} (hn : 0 < n)
    (ss : List Stmt) (s : Session σ) (fuel : Nat) :
    (∀ k, ∃ i t, i ≤ n ∧ Completes (r.exec k) ss i s t ∧
      (i < n → ∀ u, (breakable (r.exec k) ss).run t ≠ some (.ok none, u)) ∧
      (r.loop fuel (r.exec k) ss (.repeatTimes n)).run s =
        ((breakable (r.exec k) (List.replicate n ss).flatten).run s).map
          fun (out, u) => (repeatOutcome i n out, u)) ∧
    (∀ body : Body σ,
      (∀ out u, (r.loop fuel body ss (.retry n)).run s = some (out, u) ↔
        ∃ tries last, tries.length < n ∧ r.Attempts body ss s (tries ++ [last]) ∧
          (∀ a ∈ tries, a.GivesWay r) ∧ last.Ends r n (n - (tries.length + 1)) out u) ∧
      ((∀ t, ∃ out u, (breakable body ss).run t = some (out, u)) →
        ∃ out u, (r.loop fuel body ss (.retry n)).run s = some (out, u))) := by
  obtain ⟨left, rfl⟩ := Nat.exists_eq_succ_of_ne_zero (Nat.pos_iff_ne_zero.mp hn)
  simp only [loop, hlive, Bool.false_eq_true, ↓reduceIte]
  refine ⟨fun k => ?_, fun body => ⟨fun out u => ?_, exists_run_retry⟩⟩
  · have htotal : left + 1 = 0 + (left + 1) := (Nat.zero_add _).symm
    have hrepeat := run_repeatTimes (r := r) (k := k) (s := s) ss htotal
    simpa only [Nat.zero_add] using hrepeat
  · rw [run_retry_iff]
    simp only [Nat.succ_eq_add_one, Nat.add_sub_add_right, Nat.lt_succ_iff]

end Runner

/-! ## A machine that refuses -/

/-- The world of a machine that now and then refuses to type. -/
structure Moods where
  /-- Whether it does what is asked for next, and after that. -/
  coming : List Bool
  /-- What has been done. -/
  done : List String
  deriving DecidableEq

/-- A machine that types or refuses to, and waits. -/
def Machine.moody : Machine Moods where
  typeText text w :=
    match w.coming with
    | false :: rest => (.error (.refused "busy"), ⟨rest, w.done⟩)
    | _ => (.ok (), ⟨w.coming.tail, w.done ++ [text]⟩)
  pressKey _ w := (.ok (), w)
  switchConsole _ w := (.ok (), w)
  wait _ w := { w with done := w.done ++ ["pause"] }
  screenshot _ _ w := (.ok (), w)
  capture w := (.ok [], w)
  isDryRun := false
  narrate _ w := w
  clock := ⟨fun _ => 0, fun _ => 0⟩

/-- Runs scripts on such a machine. -/
def Runner.moody : Runner Moods where
  machine := .moody
  debugger := none
  settings := .standard
  files := .empty

namespace Runner

/-- The second of three copies fails, and so does the first of three attempts. -/
theorem counted_loops_unroll_refused :
    let r := Runner.moody
    let s : Session Moods := .start .empty ⟨[true, false], []⟩
    let s' : Session Moods := .start .empty ⟨[false], []⟩
    let ss : List Stmt := [.plain ⟨2, "", "hello", "", .text, none⟩]
    r.machine.isDryRun = false ∧ 0 < 3 ∧
      (∃ i t, i ≤ 3 ∧ Completes (r.exec 2) ss i s t ∧
        (i < 3 → ∀ u, (breakable (r.exec 2) ss).run t ≠ some (.ok none, u)) ∧
        (r.loop 1 (r.exec 2) ss (.repeatTimes 3)).run s =
          ((breakable (r.exec 2) (List.replicate 3 ss).flatten).run s).map
            fun (out, u) => (repeatOutcome i 3 out, u)) ∧
      ((r.loop 1 (r.exec 2) ss (.repeatTimes 3)).run s).any (fun
        | (.error (.repeatFailed 2 3 (.atLine 2 (.machine (.refused "busy")))), _) => true
        | _ => false) = true ∧
      ∃ tries last u, tries.length < 3 ∧ r.Attempts (r.exec 2) ss s' (tries ++ [last]) ∧
        (∀ a ∈ tries, a.GivesWay r) ∧ last.Ends r 3 (3 - (tries.length + 1)) (.ok none) u ∧
        u.world.done = ["pause", "hello\n"] := by
  intro r s s' ss
  have hlive : r.machine.isDryRun = false := rfl
  refine ⟨hlive, by decide, (counted_loops_unroll hlive (by decide) ss s 1).1 2,
    by decide +kernel, ?_⟩
  have hends : ((r.loop 1 (r.exec 2) ss (.retry 3)).run s').map
      (fun (out, u) => (out.toOption, u.world.done)) = some (some none, ["pause", "hello\n"]) := by
    decide +kernel
  obtain ⟨⟨out, u⟩, hrun, hout⟩ := Option.map_eq_some_iff.mp hends
  obtain ⟨hok, hdone⟩ := Prod.mk.inj hout
  obtain ⟨hretry, -⟩ := (counted_loops_unroll hlive (n := 3) (by decide) ss s' 1).2 (r.exec 2)
  obtain ⟨tries, last, hlength, hattempts, hall, hlast⟩ := (hretry out u).mp hrun
  cases out with
  | error e => cases hok
  | ok signal =>
    cases hok
    exact ⟨tries, last, u, hlength, hattempts, hall, hlast, hdone⟩

end Runner

end ConsoleScript
