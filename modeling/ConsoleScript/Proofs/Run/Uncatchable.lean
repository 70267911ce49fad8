-- SUMMARY: A timeout and a stop from the debugger end a run at once, wherever they arise.
import ConsoleScript.Proofs.Run.Conduct.Points

/-!
# Errors that nothing catches

Two errors end a run: the time is over, or the debugger stops it. They arise in
a few steps only, which are listed here (`StepFails`): what comes before a
statement, and the pauses between two looks at the screen, between two attempts,
and on their own. Such an error ends the statement, then the list, the statement
around it and so on up to the script (`Reaches.fails`). Each of them passes it on
as it is, and none does anything more to the world.
-/

namespace ConsoleScript

/-! ## Errors as they were raised -/

/-- If the error is fatal at its core, there is nothing around the core. -/
def RunError.Bare (e : RunError) : Prop := e.cause.Fatal → e = e.cause

namespace RunError.Bare

variable {e : RunError}

theorem of_cause_eq (h : e.cause = e) : e.Bare := fun _ => h.symm

theorem positioned (h : e.Bare) (line : Nat) : (e.positioned line).Bare := by
  intro hfatal
  rw [cause_positioned] at hfatal ⊢
  have heq := h hfatal
  rw [← heq] at hfatal
  rw [hfatal.positioned_eq, ← heq]

/-- An error that is not fatal is not so at its core either. -/
theorem not_fatal (h : e.Bare) (hnot : e.isFatal = false) : ¬e.cause.Fatal := by
  intro hfatal
  have hyes := hfatal.isFatal
  rw [← h hfatal, hnot] at hyes
  cases hyes

end RunError.Bare

/-- Everything may happen, and errors are bare. Certain ones end everything. -/
def Conduct.bare {σ : Type} (Escapes : RunError → σ → Prop) : Conduct σ where
  Allows _ := True
  Knows _ := True
  Rest _ _ := True
  Ready _ _ := True
  Paces _ := True
  Fails := RunError.Bare
  Escapes := Escapes
  Total := False

theorem Conduct.bare_governs {σ : Type} (r : Runner σ) (Escapes : RunError → σ → Prop)
    (hfatal : ∀ {e w}, Escapes e w → e.Fatal) :
    (Conduct.bare Escapes).Governs r r.machine.wait r.machine.capture where
  toWatches := .of_forall (fun _ _ => trivial) (fun _ _ => trivial) fun _ => trivial
  late _ _ := .of_cause_eq rfl
  cut _ _ := .of_cause_eq rfl
  outside he _ := .of_cause_eq he.cause_eq
  raised _ _ he := .of_cause_eq he.cause_eq
  positioned line he := he.positioned line
  exhausted _ hnot he := fun hfatal => absurd hfatal (he.not_fatal hnot)
  failed _ _ hnot he := fun hfatal => absurd hfatal (he.not_fatal hnot)
  dry htotal := htotal.elim
  fatal := hfatal
  called _ _ _ _ := trivial
  included _ _ _ _ := ⟨trivial, fun _ _ => trivial⟩

namespace Runner

variable {σ α : Type} {r : Runner σ} {fuel : Nat} {x : Stmt} {s t u : Session σ} {e : RunError}

/-! ## Steps that can fail so -/

/-- A loop that pauses after each of its rounds comes to pause for `d` in `t`, within
    a number of rounds. -/
inductive Pauses (pause : Duration → Run σ Unit)
    (Round : Session σ → Duration → Session σ → Prop) :
    Nat → Session σ → Duration → Session σ → Prop where
  | now {n : Nat} {s t : Session σ} {d : Duration} (h : Round s d t) :
      Pauses pause Round (n + 1) s d t
  | later {n : Nat} {s t u v : Session σ} {d d' : Duration} (h : Round s d t)
      (hpause : (pause d).run t = some (.ok (), u)) (hrest : Pauses pause Round n u d' v) :
      Pauses pause Round (n + 1) s d' v

/-- An error of a pause is one of the loop. -/
theorem Pauses.fails {pause : Duration → Run σ Unit}
    {Round : Session σ → Duration → Session σ → Prop} {f : Nat → Run σ α} {n : Nat}
    {d : Duration} (h : Pauses pause Round n s d t)
    (hround : ∀ n s d t, Round s d t →
      (f (n + 1)).run s = (pause d >>= fun _ => f n).run t)
    (hfails : (pause d).run t = some (.error e, u)) : (f n).run s = some (.error e, u) := by
  induction h with
  | now h => rw [hround _ _ _ _ h, Run.run_bind_error hfails]
  | later h hpause _ ih =>
    rw [hround _ _ _ _ h, Run.run_bind_ok hpause]
    exact ih hfails

/-- How long a loop that looks at the screen pauses, in a session. -/
def PausesFor (r : Runner σ) (timeout poll start : Duration) (s : Session σ) (d : Duration) :
    Prop :=
  r.time start s.world < timeout ∧ d = min poll (timeout - r.time start s.world)

/-- A look that does not find the text. -/
def Misses (r : Runner σ) (text : String) (timeout start : Duration) (s : Session σ)
    (d : Duration) (t : Session σ) : Prop :=
  ∃ found, (r.probe text).run s = some (.ok found, t) ∧ found ≠ some true ∧
    r.PausesFor timeout r.settings.poll start t d

/-- What comes between two looks for a text. -/
def checkedSleep (r : Runner σ) (d : Duration) : Run σ Unit := do
  r.checkDeadline
  r.sleep d

/-- A look that finds none of the patterns. -/
def MissesCases (r : Runner σ) (patterns : List String) (timeout poll start : Duration)
    (s : Session σ) (d : Duration) (t : Session σ) : Prop :=
  (r.probeCases patterns).run s = some (.ok none, t) ∧ r.PausesFor timeout poll start t d

/-- A round of a loop that goes on while a text is on the screen, or is not. -/
def GoesOn (r : Runner σ) (body : Body σ) (ss : List Stmt) (presence : Presence) (text : String)
    (timeout poll start : Duration) (s : Session σ) (d : Duration) (t : Session σ) : Prop :=
  ∃ found u, (r.probe text).run s = some (.ok found, u) ∧
    (found.any fun found => !presence.agrees found) = false ∧
    (if found.isSome then breakable body ss else pure none).run u = some (.ok none, t) ∧
    r.PausesFor timeout poll start t d

/-- An attempt that fails, but not for good. -/
def TriesAgain (r : Runner σ) (body : Body σ) (ss : List Stmt) (s : Session σ) (d : Duration)
    (t : Session σ) : Prop :=
  ∃ e, (breakable body ss).run s = some (.error e, t) ∧ e.isFatal = false ∧
    d = r.settings.retryDelay

/-- While a statement is carried out from `s` on, a pause of it fails with `e` and
    leaves `t`. -/
inductive PauseFails (r : Runner σ) (fuel : Nat) :
    Stmt → Session σ → RunError → Session σ → Prop where
  | wait {line : Line} {d : Duration} {s t : Session σ} {e : RunError}
      (h : (r.sleep d).run s = some (.error e, t)) :
      PauseFails r fuel (.action line (.wait d)) s e t
  | watch {line : Line} {text shown : String} {limit : Option Duration} {d : Duration}
      {s t u v : Session σ} {e : RunError} (hlive : r.machine.isDryRun = false)
      (hshown : (r.expand text).run s = some (.ok shown, u))
      (hpauses : Pauses r.checkedSleep (r.Misses shown (limit.getD r.settings.watchTimeout)
        (r.machine.clock.elapsed u.world)) fuel u d v)
      (h : (r.checkedSleep d).run v = some (.error e, t)) :
      PauseFails r fuel (.action line (.watch text limit)) s e t
  | branch {line : Line} {c : Condition} {shown : String} {yes no : List Stmt} {d : Duration}
      {s t u v : Session σ} {e : RunError} (hlive : r.machine.isDryRun = false)
      (hshown : (r.expand c.text).run s = some (.ok shown, u))
      (hpauses : Pauses r.checkedSleep (r.Misses shown c.timeout (r.machine.clock.elapsed u.world))
        fuel u d v)
      (h : (r.checkedSleep d).run v = some (.error e, t)) :
      PauseFails r fuel (.branch line c yes no) s e t
  | whileScreen {line : Line} {presence : Presence} {text shown : String} {timeout d : Duration}
      {poll : Option Duration} {ss : List Stmt} {s t u v : Session σ} {e : RunError}
      (hlive : r.machine.isDryRun = false) (hshown : (r.expand text).run s = some (.ok shown, u))
      (hpauses : Pauses r.sleep (r.GoesOn (r.exec fuel) ss presence shown timeout
        (poll.getD r.settings.poll) (r.machine.clock.elapsed u.world)) fuel u d v)
      (h : (r.sleep d).run v = some (.error e, t)) :
      PauseFails r fuel (.loop line (.whileScreen presence text timeout poll) ss) s e t
  | switch {line : Line} {options : SwitchOptions} {cases : List (Case Stmt)}
      {otherwise : Option (List Stmt)} {patterns : List String} {d : Duration}
      {s t u v : Session σ} {e : RunError} (hlive : r.machine.isDryRun = false)
      (hpatterns : (r.expandAll (cases.map (·.pattern))).run s = some (.ok patterns, u))
      (hpauses : Pauses r.sleep (r.MissesCases patterns
        (options.timeout.getD r.settings.switchTimeout) (options.poll.getD r.settings.poll)
        (r.machine.clock.elapsed u.world)) fuel u d v)
      (h : (r.sleep d).run v = some (.error e, t)) :
      PauseFails r fuel (.switch line options cases otherwise) s e t
  | retry {line : Line} {left : Nat} {ss : List Stmt} {d : Duration} {s t v : Session σ}
      {e : RunError} (hlive : r.machine.isDryRun = false)
      (hpauses : Pauses r.sleep (r.TriesAgain (r.exec fuel) ss) left s d v)
      (h : (r.sleep d).run v = some (.error e, t)) :
      PauseFails r fuel (.loop line (.retry (left + 1)) ss) s e t

/-- A step of the statement itself, begun in `s`, fails with `e` and leaves `t`: what
    comes before it, or one of its pauses. -/
def StepFails (r : Runner σ) (fuel : Nat) (x : Stmt) (s : Session σ) (e : RunError)
    (t : Session σ) : Prop :=
  x.line.kind.isSkipped = false ∧
    ((r.approach x).run s = some (.error e, t) ∨
      ∃ u, (r.approach x).run s = some (.ok (), u) ∧ r.PauseFails fuel x u e t)

/-! ## The statement fails -/

theorem pollFor_round {text : String} {timeout start d : Duration} {n : Nat}
    (h : r.Misses text timeout start s d t) :
    (r.pollFor text timeout start (n + 1)).run s =
      (r.checkedSleep d >>= fun _ => r.pollFor text timeout start n).run t := by
  obtain ⟨found, hprobe, hfound, hleft, rfl⟩ := h
  rw [pollFor, Run.run_bind_ok hprobe]
  simp only [hfound, ↓reduceIte]
  change (if timeout ≤ r.time start t.world then _ else _ : Run σ Bool).run t = _
  rw [if_neg (Nat.not_le_of_lt hleft), checkedSleep, bind_assoc]
  rfl

theorem pollCases_round {patterns : List String} {timeout poll start d : Duration} {n : Nat}
    (h : r.MissesCases patterns timeout poll start s d t) :
    (r.pollCases patterns timeout poll start (n + 1)).run s =
      (r.sleep d >>= fun _ => r.pollCases patterns timeout poll start n).run t := by
  obtain ⟨hprobe, hleft, rfl⟩ := h
  rw [pollCases, Run.run_bind_ok hprobe]
  change (if timeout ≤ r.time start t.world then _ else _ : Run σ (Option Nat)).run t = _
  rw [if_neg (Nat.not_le_of_lt hleft)]
  rfl

theorem whileScreen_round {body : Body σ} {ss : List Stmt} {presence : Presence} {text : String}
    {timeout poll start d : Duration} {n : Nat}
    (h : r.GoesOn body ss presence text timeout poll start s d t) :
    (r.whileScreen body ss presence text timeout poll start (n + 1)).run s =
      (r.sleep d >>= fun _ => r.whileScreen body ss presence text timeout poll start n).run t := by
  obtain ⟨found, u, hprobe, hfound, hbody, hleft, rfl⟩ := h
  rw [whileScreen, Run.run_bind_ok hprobe]
  simp only [hfound, Bool.false_eq_true, ↓reduceIte]
  rw [Run.run_bind_ok hbody]
  change (if timeout ≤ r.time start t.world then _ else _ : Run σ (Option Signal)).run t = _
  rw [if_neg (Nat.not_le_of_lt hleft)]
  rfl

theorem retry_round {body : Body σ} {ss : List Stmt} {total n : Nat} {d : Duration}
    (h : r.TriesAgain body ss s d t) :
    (r.retry body ss total (n + 2)).run s =
      (r.sleep d >>= fun _ => r.retry body ss total (n + 1)).run t := by
  obtain ⟨e, hbody, hfatal, rfl⟩ := h
  rw [retry, Run.run_attempt_bind hbody]
  simp only [hfatal, Bool.false_eq_true, ↓reduceIte, Nat.succ_ne_zero]

/-- An error of a pause is one of the statement. -/
theorem PauseFails.dispatch (h : r.PauseFails fuel x s e t) :
    (r.dispatch fuel (r.exec fuel) x).run s = some (.error e, t) := by
  cases h with
  | wait h => rw [Runner.dispatch, action, Run.run_bind_error h]
  | watch hlive hshown hpauses h =>
    have hpoll := hpauses.fails (fun _ _ _ _ => pollFor_round) h
    rw [Runner.dispatch, action, Run.run_bind_ok hshown]
    simp only [hlive, Bool.false_eq_true, ↓reduceIte]
    refine Run.run_bind_error ?_ _
    rw [Runner.watch, Run.run_bind_ok run_clockTime, Run.run_bind_error hpoll]
  | branch hlive hshown hpauses h =>
    have hpoll := hpauses.fails (fun _ _ _ _ => pollFor_round) h
    rw [Runner.dispatch, Runner.branch, Run.run_bind_ok hshown]
    simp only [hlive, Bool.false_eq_true, ↓reduceIte]
    rw [Run.run_bind_ok run_clockTime, Run.run_bind_error hpoll]
  | whileScreen hlive hshown hpauses h =>
    have hloop := hpauses.fails (fun _ _ _ _ => whileScreen_round) h
    rw [Runner.dispatch, loop, Run.run_bind_ok hshown]
    simp only [hlive, Bool.false_eq_true, ↓reduceIte]
    rw [Run.run_bind_ok run_clockTime, hloop]
  | switch hlive hpatterns hpauses h =>
    have hpoll := hpauses.fails (fun _ _ _ _ => pollCases_round) h
    unfold Runner.dispatch Runner.switch
    rw [Run.run_bind_ok hpatterns, hlive, if_neg Bool.false_ne_true,
      Run.run_bind_ok run_clockTime, Run.run_bind_error hpoll]
  | @retry line left ss d _ _ v _ hlive hpauses h =>
    have hloop := hpauses.fails (f := fun n => r.retry (r.exec fuel) ss (left + 1) (n + 1))
      (fun _ _ _ _ => retry_round) h
    rw [Runner.dispatch, loop, hlive, if_neg Bool.false_ne_true, hloop]

/-- A fatal error of a step ends the statement. -/
theorem StepFails.stmt (h : r.StepFails fuel x s e t) (hfatal : e.Fatal) :
    (r.stmt fuel (r.exec fuel) x).run s = some (.error e, t) := by
  obtain ⟨hkind, hbefore | ⟨u, hbefore, hpause⟩⟩ := h
  · rw [Runner.stmt, hkind, if_neg Bool.false_ne_true, Run.run_bind_error hbefore]
  · rw [run_stmt hkind hbefore, hpause.dispatch, Option.map_some]
    dsimp only
    rw [hfatal.positioned_eq]

/-! ## The run fails -/

/-- A fatal error of a list ends the statement that runs it. -/
theorem Enters.fails {ss : List Stmt} (h : r.Enters fuel x s ss t) (hfatal : e.Fatal)
    (hlist : (r.exec fuel ss).run t = some (.error e, u)) :
    ∃ v, (r.stmt fuel (r.exec fuel) x).run s = some (.error e, v) ∧ v.world = u.world := by
  have hC : (Conduct.bare fun e' w => e' = e ∧ w = u.world).Governs r _ _ :=
    Conduct.bare_governs r _ fun hescapes => hescapes.1 ▸ hfatal
  have hs : (Conduct.bare fun e' w => e' = e ∧ w = u.world).At s.surroundings
      (fun _ _ => True) s := ⟨rfl, trivial, trivial⟩
  rcases hC.enters id (fun _ _ => trivial) hs h with ⟨e', v, hrun, rfl, hworld⟩ | ⟨-, hnot⟩
  · exact ⟨v, hrun, hworld⟩
  · exact absurd ⟨rfl, rfl⟩ (hnot e u hlist)

/-- A fatal error at any point of a run ends the run. -/
theorem Reaches.fails {start p : Point σ} (h : r.Reaches start p) (hfatal : e.Fatal)
    (hlist : (r.exec p.fuel p.next).run p.session = some (.error e, u)) :
    ∃ v, (r.exec start.fuel start.next).run start.session = some (.error e, v) ∧
      v.world = u.world := by
  induction h generalizing u with
  | start => exact ⟨u, hlist, rfl⟩
  | @next around fuel x rest s t _ hrun ih =>
    refine ih (u := u) ?_
    exact (Run.run_bind_ok hrun _).trans hlist
  | last _ _ _ _ => cases hlist
  | @inside around fuel x rest ss s t _ henter ih =>
    obtain ⟨v, hrun, hworld⟩ := henter.fails hfatal hlist
    rw [← hworld]
    exact ih (Run.run_bind_error hrun _)

/-- Once a step fails because the time is over or the debugger stops the run, at any
    point that a run comes to, the world stays as it is, the run fails with that error
    as it was raised, and its exit code says which it is. No list of statements fails
    with such an error inside of another one. -/
theorem fatal_errors_end_runs (r : Runner σ) :
    (∀ {fuel script} {s : Session σ} {around n x rest u e v}, r.Begins script s →
      r.Reaches (r.beginning fuel script s) ⟨around, n + 1, x :: rest, u⟩ →
      r.StepFails n x u e v → e.Fatal →
      ∃ report t, r.execute fuel script s = some (report, t) ∧ t.world = v.world ∧
        report.error = some e ∧ (∀ elapsed, e = .timeout elapsed → report.exitCode = 124) ∧
        (e = .stopped → report.exitCode = 130)) ∧
    (∀ {fuel ss} {s t : Session σ} {e}, (r.exec fuel ss).run s = some (.error e, t) →
      e.cause.Fatal → e = e.cause) := by
  constructor
  · intro fuel script s around n x rest u e v hbegins hreaches hstep hfatal
    have hlist : (r.exec (n + 1) (x :: rest)).run u = some (.error e, v) :=
      Run.run_bind_error (hstep.stmt hfatal) _
    obtain ⟨t, hrun, hworld⟩ := hreaches.fails hfatal hlist
    change (r.exec fuel script.body).run (r.beginScript script s) = _ at hrun
    refine ⟨r.report t (r.findings script s) (.error e), t, ?_, hworld, rfl, ?_, ?_⟩
    · rw [execute_eq, if_pos hbegins, hrun, Option.map_some]
    · rintro elapsed rfl
      rfl
    · rintro rfl
      rfl
  · intro fuel ss s t e hrun
    have hC := Conduct.bare_governs r (fun _ _ => False) fun h => h.elim
    have hends := hC.ends id (fun _ _ => id) fuel ss (fun _ _ => trivial)
      (s := s) ⟨rfl, trivial, trivial⟩
    rw [hrun] at hends
    exact hends.2

/-- Two attempts to call a function that pauses for too long. -/
def naps : Script where
  body := [.loop ⟨4, "", "", "", .directive, none⟩ (.retry 2)
    [.action ⟨5, "", "", "", .directive, none⟩ (.call "nap" [])]]
  functions := [⟨"nap", 1, 3, [.action ⟨2, "", "", "", .directive, none⟩ (.wait 5)]⟩]
  summary := .of [] []

theorem naps_fails :
    let r := Runner.ticking 0 [] 3
    ∃ around x rest u v,
      r.Reaches (r.beginning 3 naps (.start .empty 7)) ⟨around, 1, x :: rest, u⟩ ∧
      around.length = 2 ∧ r.StepFails 0 x u (.timeout 3) v := by
  intro r
  have hstart : r.Reaches (r.beginning 3 naps (.start .empty 7)) _ := .start
  have hloop := Reaches.inside hstart (retry_enters rfl rfl rfl (by decide +kernel))
  have hcall := Reaches.inside hloop (call_enters rfl rfl rfl rfl rfl)
  exact ⟨_, _, _, _, _, hcall, rfl, rfl, .inr ⟨_, rfl, .wait rfl⟩⟩

/-- The pause ends the attempt that is made, and with it the run. -/
theorem fatal_errors_end_runs_naps :
    let r := Runner.ticking 0 [] 3
    let s : Session Duration := .start .empty 7
    ∃ report t, r.execute 3 naps s = some (report, t) ∧ report.error = some (.timeout 3) ∧
      report.exitCode = 124 ∧
      ∀ e u, (r.exec 3 naps.body).run (r.beginScript naps s) = some (.error e, u) →
        e.cause.Fatal → e = e.cause := by
  intro r s
  obtain ⟨around, x, rest, u, v, hreaches, -, hstep⟩ := naps_fails
  obtain ⟨hends, hbare⟩ := fatal_errors_end_runs r
  obtain ⟨report, t, hrun, -, herror, hcode, -⟩ :=
    hends (begins_of_live rfl) hreaches hstep (.timeout 3)
  exact ⟨report, t, hrun, herror, hcode 3 rfl, fun e u => hbare⟩

end Runner

end ConsoleScript
