-- SUMMARY: A debugger that lets every line run changes nothing in a script without breaks.
import ConsoleScript.Proofs.Run.Beside
import ConsoleScript.Proofs.Run.Checked
import ConsoleScript.Proofs.Run.Conduct.Points
import ConsoleScript.Proofs.Run.Deadline

/-!
# Passive debuggers

A debugger that is asked before a line and lets it run is not noticed: as long as no
break is dispatched, a run with such a debugger beside the machine is the run without
it, up to the last operation of the machine (`passive_debugger_unnoticed`). The stepper
is such a debugger if its input has no command that stops the script or takes a
screenshot, and does not run out.
-/

namespace ConsoleScript

/-! ## Dialogues that let a line run -/

namespace Stepper

/-- The first word of the command on a line, and the rest of it. -/
def command? (line : List UInt8) : Option (String × String) :=
  (Text.Utf8.decode? line).map fun text => splitCommand (Text.trim text)

/-- A line with a command that neither stops the script nor takes a screenshot. -/
def Tame (line : List UInt8) : Prop :=
  ∃ word arg, command? line = some (word, arg) ∧ word ∉ ["q", "quit"] ∧
    (word ∈ ["shot", "screenshot"] → arg.isEmpty = true)

/-- A line with a command that ends the dialogue. -/
def Resumes (line : List UInt8) : Prop :=
  ∃ word arg, command? line = some (word, arg) ∧ word ∈ ["", "s", "step", "c", "continue"]

variable {scope : Scope} {s : Stepper}

/-- What a command does that is no stop and no screenshot. -/
theorem obey_tame (scope : Scope) (s : Stepper) {text word arg : String}
    (hcommand : splitCommand text = (word, arg)) (hquit : word ∉ ["q", "quit"])
    (hshot : word ∈ ["shot", "screenshot"] → arg.isEmpty = true) :
    (s.obey scope text).1 =
      if word ∈ ["", "s", "step"] then some .step
      else if word ∈ ["c", "continue"] then some .proceed else none := by
  unfold obey
  rw [hcommand]
  dsimp only
  by_cases hstep : word ∈ ["", "s", "step"]
  · rw [if_pos hstep, if_pos hstep]
  by_cases hproceed : word ∈ ["c", "continue"]
  · rw [if_neg hstep, if_neg hstep, if_pos hproceed, if_pos hproceed]
  rw [if_neg hstep, if_neg hstep, if_neg hproceed, if_neg hproceed, if_neg hquit]
  by_cases hword : word ∈ ["shot", "screenshot"]
  · rw [if_pos hword, if_pos (hshot hword)]
  rw [if_neg hword]
  split
  · split <;> rfl
  · split
    · split
      · split <;> rfl
      · rfl
    · split
      · split
        · rfl
        · split <;> rfl
      · rfl

theorem converse_done {line : List UInt8} {rest : List (List UInt8)} {text : String}
    {action : DebugAction} {s' : Stepper} (hdecode : Text.Utf8.decode? line = some text)
    (hobey : s.ask.obey scope (Text.trim text) = (some action, s')) :
    converse scope s (line :: rest) = (.ok action, { s' with input := rest.flatten }) := by
  simp only [converse, hdecode, hobey]

theorem converse_more {line : List UInt8} {rest : List (List UInt8)} {text : String}
    {s' : Stepper} (hdecode : Text.Utf8.decode? line = some text)
    (hobey : s.ask.obey scope (Text.trim text) = (none, s')) :
    converse scope s (line :: rest) = converse scope s' rest := by
  simp only [converse, hdecode, hobey]

theorem present_eq (s : Stepper) (e : Entry) :
    s.present e = { s with output := (s.present e).output } := by
  unfold present
  dsimp only
  split <;> rfl

/-- A dialogue lets the line run if some command ends it and none does anything else. -/
theorem converse_tame {lines : List (List UInt8)} (htame : ∀ line ∈ lines, Tame line)
    (hresumes : ∃ line ∈ lines, Resumes line) :
    (converse scope s lines).1 ∈ [.ok .step, .ok .proceed] := by
  induction lines generalizing s with
  | nil =>
    obtain ⟨line, hline, -⟩ := hresumes
    cases hline
  | cons line rest ih =>
    obtain ⟨⟨word, arg, hcommand, hquit, hshot⟩, hrest⟩ := List.forall_mem_cons.mp htame
    obtain ⟨text, hdecode, hsplit⟩ := Option.map_eq_some_iff.mp hcommand
    have hobey := obey_tame scope s.ask hsplit hquit hshot
    rcases hrun : s.ask.obey scope (Text.trim text) with ⟨action, s'⟩
    rw [hrun] at hobey
    by_cases hstep : word ∈ ["", "s", "step"]
    · rw [if_pos hstep] at hobey
      cases hobey
      rw [converse_done hdecode hrun]
      exact List.mem_cons_self
    rw [if_neg hstep] at hobey
    by_cases hproceed : word ∈ ["c", "continue"]
    · rw [if_pos hproceed] at hobey
      cases hobey
      rw [converse_done hdecode hrun]
      exact List.mem_cons_of_mem _ List.mem_cons_self
    rw [if_neg hproceed] at hobey
    cases hobey
    rw [converse_more hdecode hrun]
    -- the command that ends the dialogue is still to come
    refine ih hrest ?_
    obtain ⟨other, hother, hends⟩ := hresumes
    rcases List.mem_cons.mp hother with rfl | hlater
    · obtain ⟨word', arg', hcommand', hword⟩ := hends
      rw [hcommand] at hcommand'
      cases hcommand'
      change word ∈ ["", "s", "step"] ++ ["c", "continue"] at hword
      rcases List.mem_append.mp hword with h | h
      · exact absurd h hstep
      · exact absurd h hproceed
    · exact ⟨other, hlater, hends⟩

/-- A dialogue leaves the lines after those that it reads. -/
theorem converse_input (scope : Scope) (s : Stepper) (lines : List (List UInt8)) :
    ∃ rest, rest <:+ lines ∧ (converse scope s lines).2.input = rest.flatten := by
  induction lines generalizing s with
  | nil => exact ⟨[], List.suffix_refl _, rfl⟩
  | cons line rest ih =>
    rw [converse]
    split
    · exact ⟨rest, List.suffix_cons line rest, rfl⟩
    · split
      · exact ⟨rest, List.suffix_cons line rest, rfl⟩
      · next s' _ =>
        obtain ⟨later, hsuffix, hinput⟩ := ih s'
        exact ⟨later, hsuffix.trans (List.suffix_cons line rest), hinput⟩

theorem flatten_inputLines (input : List UInt8) : (inputLines input).flatten = input := by
  induction input with
  | nil => rfl
  | cons b input ih =>
    rw [inputLines]
    split
    · rw [List.flatten_cons, ih, List.singleton_append]
    · cases hlines : inputLines input with
      | nil =>
        rw [hlines] at ih
        simp [← ih]
      | cons line lines =>
        rw [hlines] at ih
        simp [← ih]

theorem inputLines_cons (b : UInt8) (input : List UInt8) :
    ∃ line lines, inputLines (b :: input) = line :: lines ∧ lines <:+ inputLines input := by
  rw [inputLines]
  split
  · exact ⟨[b], _, rfl, List.suffix_refl _⟩
  · cases inputLines input with
    | nil => exact ⟨[b], [], rfl, List.suffix_refl _⟩
    | cons line lines => exact ⟨b :: line, lines, rfl, List.suffix_cons line lines⟩

/-- Reading goes on at the beginning of a line. -/
theorem inputLines_flatten_of_suffix {input : List UInt8} {rest : List (List UInt8)}
    (h : rest <:+ inputLines input) : inputLines rest.flatten = rest := by
  induction input with
  | nil =>
    rw [inputLines, List.suffix_nil] at h
    rw [h]
    rfl
  | cons b input ih =>
    obtain ⟨line, lines, hlines, hsuffix⟩ := inputLines_cons b input
    rw [hlines] at h
    rcases List.suffix_cons_iff.mp h with hwhole | hlater
    · rw [hwhole, ← hlines, flatten_inputLines]
    · exact ih (hlater.trans hsuffix)

/-- The commands that a stepper can still read are tame. -/
def TameInput (s : Stepper) : Prop := ∀ line ∈ inputLines s.input, Tame line

theorem TameInput.decide (h : s.TameInput) (e : Entry) (scope : Scope) :
    (Stepper.decide e scope s).2.TameInput := by
  obtain ⟨rest, hsuffix, hinput⟩ :=
    converse_input scope (s.present e) (inputLines s.input)
  intro line hline
  rw [Stepper.decide, hinput, inputLines_flatten_of_suffix hsuffix] at hline
  exact h line (hsuffix.subset hline)

end Stepper

/-! ## What holds beside the machine -/

variable {σ δ : Type}

/-- Everything may happen, and `I` holds of what is beside the machine. -/
def Conduct.beside (σ : Type) (I : δ → Prop) : Conduct (σ × δ) where
  Allows _ := True
  Knows _ := True
  Rest _ w := I w.2
  Ready _ w := I w.2
  Paces _ := True
  Fails _ := True
  Escapes _ _ := False
  Total := False

theorem Conduct.beside_governs (r : Runner σ) (d : Debugger δ) {I : δ → Prop}
    (hI : ∀ e scope state, I state → I (d.decide e scope state).2) :
    (Conduct.beside σ I).Governs (r.watched d) (r.watched d).machine.wait
      (r.watched d).machine.capture where
  toJudges := .of_forall fun _ => trivial
  rest := id
  inTime hw _ := hw
  waits _ hw := ⟨rfl, hw⟩
  sleeps _ hw := hw
  pauses hw _ _ := hw
  looks _ hw := ⟨rfl, hw⟩
  acts hop hw := by
    cases hop <;> exact hw
  asks e scope hd hw := by
    cases hd
    exact hI e scope _ hw
  tells _ _ hw := hw
  loops _ _ := trivial
  switches _ _ := trivial
  dry htotal := htotal.elim
  fatal hescapes := hescapes.elim
  called _ _ _ _ := trivial
  included _ _ _ _ := ⟨trivial, fun _ _ => trivial⟩

namespace Runner

open Run (Mirrors)

variable {r : Runner σ} {d : Debugger δ}

/-- What the debugger keeps of its own state holds all along a run. -/
theorem Reaches.beside {I : δ → Prop} {start p : Point (σ × δ)}
    (h : (r.watched d).Reaches start p)
    (hI : ∀ e scope state, I state → I (d.decide e scope state).2)
    (hstart : I start.session.world.2) : I p.session.world.2 :=
  ((Conduct.beside_governs r d hI).reaches id (fun _ _ => id) h (fun _ _ => trivial)
    ⟨rfl, trivial, hstart⟩).2.2.2

/-! ## Asking -/

/-- Before the statement, begun in `s`, the debugger is asked. -/
structure Asks (r : Runner σ) (d : Debugger σ) (x : Stmt) (s : Session σ) : Prop where
  debugger : r.debugger = some d
  runs : x.line.kind.isSkipped = false
  inTime : r.InTime s.started s.world
  enabled : d.isEnabled s.world = true
  stops : d.stopsAt x.entry s.world = true

/-- Wherever the debugger is asked it lets the line run. -/
def Passive (r : Runner σ) (start : Point σ) : Prop :=
  ∀ {around n x rest s d}, r.Reaches start ⟨around, n + 1, x :: rest, s⟩ → r.Asks d x s →
    (d.decide x.entry s.scope s.world).1 ∈ [.ok .step, .ok .proceed]

/-- No break is dispatched. -/
def Unbroken (r : Runner σ) (start : Point σ) : Prop :=
  ∀ {around n line rest s t}, r.Reaches start ⟨around, n + 1, .action line .doBreak :: rest, s⟩ →
    ¬r.Dispatches (.action line .doBreak) s t

theorem consult_mirrors {s : Session (σ × δ)} {e : Entry} (hr : r.debugger = none)
    (h : d.isEnabled s.world.2 = true → d.stopsAt e s.world.2 = true →
      (d.decide e s.scope s.world.2).1 ∈ [.ok .step, .ok .proceed]) :
    Mirrors ((r.watched d).consult e) (r.consult e) s := by
  have hnone : r.consult e = pure () := by
    simp only [consult, hr]
  rw [hnone]
  unfold Mirrors
  simp only [consult, watched, Run.run_get_bind, Debugger.beside]
  split
  · next hasked =>
    rw [Bool.and_eq_true] at hasked
    have hanswer := h hasked.1 hasked.2
    rw [Run.run_set_bind]
    revert hanswer
    cases (d.decide e s.scope s.world.2).1 with
    | error e => simp
    | ok answer =>
      cases answer with
      | step | proceed => exact fun _ => rfl
      | stop | screenshot path => simp
  · rfl

theorem approach_mirrors {s : Session (σ × δ)} {x : Stmt} (hr : r.debugger = none)
    (hkind : x.line.kind.isSkipped = false)
    (h : (r.watched d).Asks (d.beside σ) x s →
      (d.decide x.entry s.scope s.world.2).1 ∈ [.ok .step, .ok .proceed]) :
    Mirrors ((r.watched d).approach x) (r.approach x) s := by
  refine checkDeadline_mirrors.bind_of fun _ t hrun => ?_
  rw [run_checkDeadline] at hrun
  split at hrun
  · next htime =>
    cases hrun
    refine Mirrors.bind_of (.modify rfl) fun _ u hu => ?_
    cases hu
    exact consult_mirrors hr fun henabled hstops => h ⟨rfl, hkind, htime, henabled, hstops⟩
  · cases hrun

/-- A statement is mirrored if the debugger lets it run and it is not a break that is
    dispatched. -/
theorem stmt_mirrors {s : Session (σ × δ)} {x : Stmt} {n : Nat} {body : Body (σ × δ)}
    {body' : Body σ} (hr : r.debugger = none)
    (hask : (r.watched d).Asks (d.beside σ) x s →
      (d.decide x.entry s.scope s.world.2).1 ∈ [.ok .step, .ok .proceed])
    (hbreak : ∀ line t, x = .action line .doBreak → ¬(r.watched d).Dispatches x s t)
    (hbody : BodyMirrors body body') :
    Mirrors ((r.watched d).stmt n body x) (r.stmt n body' x) s := by
  unfold stmt
  split
  · exact .pure _
  · next hskipped =>
    have hkind : x.line.kind.isSkipped = false := by simpa using hskipped
    refine (approach_mirrors hr hkind hask).bind_of fun _ t hrun => ?_
    have hx : ∀ line, x ≠ .action line .doBreak := fun line heq => hbreak line t heq ⟨hkind, hrun⟩
    refine (dispatch_mirrors hbody n hx).positioned.bind fun signal u => ?_
    exact Mirrors.bind (.modify rfl) fun _ _ => .pure _

/-! ## Runs -/

/-- At every point that the run comes to, what comes next is mirrored. -/
theorem exec_mirrors {start p : Point (σ × δ)} (hr : r.debugger = none)
    (hbreaks : (r.watched d).Unbroken start) (hpassive : (r.watched d).Passive start)
    (h : (r.watched d).Reaches start p) :
    Mirrors ((r.watched d).exec p.fuel p.next) (r.exec p.fuel p.next) p.session := by
  obtain ⟨around, n, next, s⟩ := p
  dsimp only
  induction n generalizing around next s with
  | zero => exact .outOfFuel
  | succ n ih =>
    induction next generalizing s with
    | nil => exact .pure _
    | cons x rest ihnext =>
      -- the lists that the statement enters are mirrored, so all may be taken to be
      obtain ⟨body, hbody, hsame⟩ := exists_body_of_enters
        (G := fun ss t result => Mirrors (ExceptT.mk fun _ => result) (r.exec n ss) t)
        (fun ss t => ⟨((r.exec n ss).run t.alone).map (Prod.map id (·.beside t.world.2)), by
          unfold Mirrors
          cases (r.exec n ss).run t.alone <;> rfl⟩)
        (fun ss t henter => ih _ ss t (h.inside henter))
      have hstmt : Mirrors ((r.watched d).stmt n ((r.watched d).exec n) x) (r.stmt n (r.exec n) x)
          s := by
        unfold Mirrors
        rw [← hsame]
        refine stmt_mirrors hr (hpassive h) (fun line t hx hdispatches => ?_) hbody
        subst hx
        exact hbreaks h hdispatches
      refine hstmt.bind_of fun signal t hrun => ?_
      cases signal with
      | some signal => exact .pure _
      | none => exact ihnext t (h.next hrun)

theorem execute_mirrors {fuel : Nat} {script : Script} {s : Session (σ × δ)}
    (hr : r.debugger = none)
    (hbreaks : (r.watched d).Unbroken ((r.watched d).beginning fuel script s))
    (hpassive : (r.watched d).Passive ((r.watched d).beginning fuel script s)) :
    ((r.watched d).execute fuel script s).map (fun (report, t) => (report, t.alone)) =
      r.execute fuel script s.alone := by
  have hrun : Mirrors ((r.watched d).exec fuel script.body) (r.exec fuel script.body)
      ((r.watched d).beginScript script s) := exec_mirrors hr hbreaks hpassive .start
  have hbegins : (r.watched d).Begins script s ↔ r.Begins script s.alone := Iff.rfl
  rw [execute_eq, execute_eq]
  by_cases h : r.Begins script s.alone
  · rw [if_pos (hbegins.mpr h), if_pos h]
    change _ = ((r.exec fuel script.body).run ((r.watched d).beginScript script s).alone).map _
    rw [← hrun]
    cases ((r.watched d).exec fuel script.body).run ((r.watched d).beginScript script s) <;> rfl
  · rw [if_neg fun hyes => h (hbegins.mp hyes), if_neg h]
    rfl

/-- Wherever the stepper is asked, its input still has a command that ends the dialogue. -/
def Supplied (r : Runner (σ × Stepper)) (start : Point (σ × Stepper)) : Prop :=
  ∀ {around n x rest s d}, r.Reaches start ⟨around, n + 1, x :: rest, s⟩ → r.Asks d x s →
    ∃ line ∈ Stepper.inputLines s.world.2.input, Stepper.Resumes line

/-- The stepper in a world that it is itself. -/
def stepper : Debugger Stepper := Stepper.debugger id fun s _ => s

theorem stepper_passive {start : Point (σ × Stepper)} (htame : start.session.world.2.TameInput)
    (hsupplied : (r.watched stepper).Supplied start) : (r.watched stepper).Passive start := by
  intro around n x rest s d h hasks
  have htame : s.world.2.TameInput :=
    h.beside (fun e scope state hstate => hstate.decide e scope) htame
  have hline := hsupplied h hasks
  obtain ⟨hd, -⟩ := hasks
  cases hd
  exact Stepper.converse_tame htame hline

/-- Where no break is dispatched, a debugger beside the machine that lets every line run
    changes neither the report nor the session and the machine's world that the run
    leaves. This holds of every machine, so that one which records what is asked of it
    records the same. The stepper is such a debugger, whatever lines it stops at, if no
    command in its input stops the script or takes a screenshot, and the input does not
    run out. -/
theorem passive_debugger_unnoticed (hr : r.debugger = none) {fuel : Nat} {script : Script}
    {s : Session σ} :
    (∀ {δ : Type} (d : Debugger δ) (state : δ),
      (r.watched d).Unbroken ((r.watched d).beginning fuel script (s.beside state)) →
      (r.watched d).Passive ((r.watched d).beginning fuel script (s.beside state)) →
      ((r.watched d).execute fuel script (s.beside state)).map
        (fun (report, t) => (report, t.alone)) = r.execute fuel script s) ∧
    ∀ state : Stepper, state.TameInput →
      (r.watched stepper).Unbroken ((r.watched stepper).beginning fuel script (s.beside state)) →
      (r.watched stepper).Supplied ((r.watched stepper).beginning fuel script (s.beside state)) →
      ((r.watched stepper).execute fuel script (s.beside state)).map
        (fun (report, t) => (report, t.alone)) = r.execute fuel script s := by
  refine ⟨fun d state hbreaks hpassive => execute_mirrors hr hbreaks hpassive, ?_⟩
  intro state htame hbreaks hsupplied
  exact execute_mirrors hr hbreaks (stepper_passive htame hsupplied)

/-- A script without breaks, and without files that could have some, dispatches none. -/
theorem unbroken_of_nodes {r : Runner σ} {fuel : Nat} {script : Script} {s : Session σ}
    (hinclude : ∀ x ∈ script.nodes, x.IncludesNothing)
    (hbreak : ∀ x ∈ script.nodes, ∀ line, x ≠ .action line .doBreak) :
    r.Unbroken (r.beginning fuel script s) := by
  intro around n line rest u t h _
  exact hbreak _ ((h.confined hinclude).1 _ (by simp [Stmt.nodes])) line rfl

/-- A text that is typed twice. -/
def typesTwice : Script where
  body := [.loop ⟨1, "", "", "", .directive, none⟩ (.repeatTimes 2)
    [.plain ⟨2, "a", "a", "a", .text, none⟩]]
  functions := []
  summary := .of [] []

/-- A stepper that marks a line and no longer, asks for help and then goes on. -/
def curious : Stepper := .start false true [] (Text.Utf8.encode "b 2\nd 2\n?\nc\n")

theorem curious_commands : (Stepper.inputLines curious.input).map Stepper.command? =
    [some ("b", "2"), some ("d", "2"), some ("?", ""), some ("c", "")] := by
  decide +kernel

theorem curious_tameInput : curious.TameInput := by
  intro line hline
  have hcommand := List.mem_map_of_mem (f := Stepper.command?) hline
  rw [curious_commands] at hcommand
  simp only [List.mem_cons, List.not_mem_nil, or_false] at hcommand
  rcases hcommand with h | h | h | h
  all_goals exact ⟨_, _, h, by decide, by decide⟩

/-- It is asked once, and then runs to the end. -/
def Curious (state : Stepper) : Prop :=
  state = curious ∨ state.stepping = false ∧ state.marks = [] ∧ state.input = []

theorem Curious.decide {state : Stepper} (h : Curious state) (e : Entry) (scope : Scope) :
    Curious (Stepper.decide e scope state).2 := by
  rw [Stepper.decide, Stepper.present_eq]
  rcases h with rfl | ⟨hstepping, hmarks, hinput⟩
  · generalize (curious.present e).output = shown
    exact .inr ⟨rfl, rfl, rfl⟩
  · rw [hinput]
    exact .inr ⟨hstepping, hmarks, rfl⟩

theorem curious_supplied {r : Runner σ} {start : Point (σ × Stepper)}
    (hstart : Curious start.session.world.2) : (r.watched stepper).Supplied start := by
  intro around n x rest s d h hasks
  have hcurious : Curious s.world.2 :=
    h.beside (fun e scope state hstate => hstate.decide e scope) hstart
  obtain ⟨hd, -, -, -, hstops⟩ := hasks
  cases hd
  rcases hcurious with hsame | ⟨hstepping, hmarks, -⟩
  · rw [hsame]
    exact ⟨[99, 10], by decide +kernel, "c", "", by decide +kernel, by decide⟩
  · change s.world.2.stopsAt x.entry = true at hstops
    rw [Stepper.stopsAt, hstepping, hmarks] at hstops
    cases hstops

theorem passive_debugger_unnoticed_typing :
    let start : Session (List String) := .start .empty []
    let watched := (keyLogger.watched stepper).execute 3 typesTwice (start.beside curious)
    watched.map (fun (report, t) => (report, t.alone)) = keyLogger.execute 3 typesTwice start ∧
    (keyLogger.execute 3 typesTwice start).map (fun (_, t) => t.world) =
      some ["ret", "a", "ret", "a"] ∧
    watched.map (fun (_, t) => t.world.2.input) = some [] := by
  have hnodes : ∀ x ∈ typesTwice.nodes, ∀ line act, x ≠ .action line act := by
    intro x hx line act heq
    subst heq
    simp [typesTwice, Script.nodes, Script.functionsByName, sortBy, Stmt.nodes] at hx
  obtain ⟨-, hstepper⟩ := passive_debugger_unnoticed (r := keyLogger) rfl
  refine ⟨hstepper curious curious_tameInput ?_ (curious_supplied (.inl rfl)), ?_, ?_⟩
  · refine unbroken_of_nodes (fun x hx line path => hnodes x hx line _) ?_
    exact fun x hx line => hnodes x hx line _
  · decide +kernel
  · decide +kernel

end Runner

end ConsoleScript
