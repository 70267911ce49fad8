-- SUMMARY: What reading a straight-line script tells of running it.
import ConsoleScript.Proofs.Run.Reachable
import ConsoleScript.Proofs.Run.Timing
import ConsoleScript.Proofs.Script.Flags
import ConsoleScript.Proofs.Script.StraightLine

/-!
# Predicted runs

A script is read in a scope of its own, in which every text is expanded and every variable
bound that the lines bind. Where nothing but straight lines runs, the run goes through the
same scopes, so that it types what reading has expanded, and leaves the same variables
(`predicted_run`). There is one exception: the line of a `<set>` is expanded once more when
it is read, in order to be shown, and may store defaults then that the run does not
(`shown_default_unpredicted`).
-/

namespace ConsoleScript

/-! ## Predictions -/

/-- What a line is expected to type. -/
def Line.predicted (l : Line) : List String :=
  if l.kind = .text then [l.expanded ++ "\n"] else []

/-- What a script without control flow is expected to type. -/
def Script.predicted (script : Script) : List String :=
  (Stmt.walkAll script.body).flatMap Line.predicted

/-- Whether the line of a directive stores nothing more when it is expanded to be shown. -/
def Line.isShownQuietly (now : Int) (scope : Scope) (raw : String) : Bool :=
  let trimmed := Text.trim raw
  match classify trimmed with
  | .directive | .conditional =>
    match Directive.read (content trimmed) with
    | .ok directive =>
      let bound := bindDirective now scope directive
      (bound.expand now trimmed).2 = bound
    | .error _ => true
  | _ => true

/-- Whether all lines are shown quietly when they are read one after the other. -/
def Script.areShownQuietly (now : Int) (scope : Scope) (n : Nat) : List String → Bool
  | [] => true
  | raw :: rest =>
    Line.isShownQuietly now scope raw &&
      areShownQuietly now (Line.read now scope n raw).2 (n + 1) rest

/-- A line that is skipped is read without a trace. -/
theorem Line.read_skipped {now : Int} {scope scope' : Scope} {n : Nat} {raw : String} {e : Entry}
    (hread : read now scope n raw = (.ok e, scope')) (hskipped : e.line.kind.isSkipped = true) :
    scope' = scope ∧ e.line.predicted = [] := by
  cases hkind : classify (Text.trim raw) with
  | blank | comment =>
    simp only [read, hkind] at hread
    cases hread
    exact ⟨rfl, rfl⟩
  | text =>
    simp only [read, hkind] at hread
    cases hread
    cases hskipped
  | assignment =>
    simp only [read, hkind] at hread
    split at hread
    all_goals
      cases hread
      cases hskipped
  | directive | conditional =>
    simp only [read, hkind] at hread
    split at hread
    · cases hread
    · cases hread
      cases hskipped

@[simp] theorem Entry.line_stmt (e : Entry) : e.stmt.line = e.line := by
  unfold stmt
  split <;> rfl

namespace Runner

variable {σ : Type} {r : Runner σ} {now : Int} {s : Session σ}

/-- The world after texts are typed. -/
def typing (r : Runner σ) (world : σ) (texts : List String) : σ :=
  texts.foldl (fun world text => (r.machine.typeText text world).2) world

/-- Typing never fails, the time of day stands still, and no debugger stops the run. -/
structure Undisturbed (r : Runner σ) (now : Int) : Prop where
  seconds : ∀ world, r.machine.clock.seconds world = now
  types : ∀ text world, (r.machine.typeText text world).1 = .ok ()
  unstopped : ∀ d, r.debugger = some d → ∀ e world, (d.isEnabled world && d.stopsAt e world) = false

/-! ## Single lines -/

theorem run_approach (hr : r.Undisturbed now) (hintime : r.InTime s.started s.world) (x : Stmt) :
    (r.approach x).run s = some (.ok (), { s with line := x.line.number }) := by
  have hdeadline : r.checkDeadline.run s = some (.ok (), s) := by
    rw [run_checkDeadline, if_pos hintime]
  have hconsult : ∀ t : Session σ, (r.consult x.entry).run t = some (.ok (), t) := by
    intro t
    unfold consult
    cases hd : r.debugger with
    | none => rfl
    | some d =>
      simp only
      rw [Run.run_get_bind]
      simp only [hr.unstopped d hd, Bool.false_eq_true, ↓reduceIte, Run.run_pure]
  rw [approach, Run.run_bind_ok hdeadline, Run.run_modify_bind, hconsult]

/-- A statement that succeeds in its own right is counted, and changes nothing else. -/
theorem run_stmt_ok {fuel : Nat} {body : Body σ} {x : Stmt} {t : Session σ}
    (hr : r.Undisturbed now) (hintime : r.InTime s.started s.world)
    (hvisible : x.line.kind.isSkipped = false)
    (hdispatch : (r.dispatch fuel body x).run { s with line := x.line.number } =
      some (.ok none, t)) :
    (r.stmt fuel body x).run s =
      some (.ok none, { t with linesExecuted := t.linesExecuted + 1 }) := by
  simp only [stmt, hvisible, Bool.false_eq_true, ↓reduceIte]
  rw [Run.run_bind_ok (run_approach hr hintime x)]
  have hpositioned : (Run.positioned x.line.number (r.dispatch fuel body x)).run
      { s with line := x.line.number } = some (.ok none, t) := by
    rw [Run.run_positioned, hdispatch]
    rfl
  rw [Run.run_bind_ok hpositioned, Run.run_modify_bind]
  rfl

theorem run_text (hr : r.Undisturbed now) {line : Line} (hkind : line.kind = .text) :
    (r.plain line).run s = some (.ok none,
      { s with
        scope := (s.scope.expand now line.trimmed).2
        world :=
          (r.machine.typeText ((s.scope.expand now line.trimmed).1 ++ "\n") s.world).2 }) := by
  have hexpand : (r.expand line.trimmed).run s =
      some (.ok (s.scope.expand now line.trimmed).1,
        { s with scope := (s.scope.expand now line.trimmed).2 }) := by
    rw [← hr.seconds s.world]
    rfl
  have htype : ∀ (text : String) (t : Session σ), (operate (r.machine.typeText text)).run t =
      some (.ok (), { t with world := (r.machine.typeText text t.world).2 }) := by
    intro text t
    simp only [operate, Run.run_get_bind, Run.run_set_bind, hr.types, Run.run_pure]
  simp only [plain, hkind]
  rw [Run.run_bind_ok hexpand, Run.run_bind_ok (htype _ _), Run.run_pure]

theorem run_assignment (hr : r.Undisturbed now) (line : Line) (hkind : line.kind = .assignment)
    {name value : String} {scope : Scope}
    (hbound : s.scope.readAssignment? now line.trimmed = some ((name, value), scope)) :
    (r.plain line).run s = some (.ok none, { s with scope := scope.set name value }) := by
  have hassign : (r.assign line.trimmed).run s =
      some (.ok (), { s with scope := scope.set name value }) := by
    simp only [assign, Run.run_get_bind, hr.seconds, hbound]
    rfl
  simp only [plain, hkind]
  rw [Run.run_bind_ok hassign, Run.run_pure]

theorem run_set (hr : r.Undisturbed now) (fuel : Nat) (body : Body σ) (line : Nat)
    (name value : String) :
    (r.action fuel body line (.bind name value)).run s = some (.ok none,
      { s with scope := Line.bindDirective now s.scope (.action (.bind name value)) }) := by
  rw [← hr.seconds s.world]
  rfl

/-- A line that is read and run from the same scope leaves the same scope, and types what is
    predicted. -/
theorem run_dispatch_straight {fuel : Nat} {body : Body σ} {n : Nat} {raw : String} {e : Entry}
    {scope' : Scope} (hr : r.Undisturbed now)
    (hread : Line.read now s.scope n raw = (.ok e, scope'))
    (hquiet : Line.isShownQuietly now s.scope raw = true) (he : e.IsStraight)
    (hvisible : e.line.kind.isSkipped = false) :
    (r.dispatch fuel body e.stmt).run s = some (.ok none,
      { s with scope := scope', world := r.typing s.world e.line.predicted }) := by
  have hplain : ∀ line, r.dispatch fuel body (Entry.stmt ⟨line, none⟩) = r.plain line :=
    fun _ => rfl
  have haction : ∀ line a, r.dispatch fuel body (Entry.stmt ⟨line, some (.action a)⟩) =
      r.action fuel body line.number a := fun _ _ => rfl
  cases hkind : Line.classify (Text.trim raw) with
  | blank | comment =>
    simp only [Line.read, hkind] at hread
    cases hread
    cases hvisible
  | text =>
    simp only [Line.read, hkind] at hread
    cases hread
    rw [hplain, run_text hr rfl]
    simp only [Line.predicted, typing, if_true, List.foldl_cons, List.foldl_nil]
  | assignment =>
    simp only [Line.read, hkind] at hread
    split at hread
    · next hnone =>
      have hsome := Line.readAssignment?_isSome now s.scope hkind
      rw [hnone] at hsome
      cases hsome
    · next name value scope₁ hbound =>
      cases hread
      rw [hplain, run_assignment hr ⟨n, raw, Text.trim raw, name ++ "=" ++ value, .assignment,
        some (name, value)⟩ rfl hbound]
      simp only [Line.predicted, typing, reduceCtorEq, if_false, List.foldl_nil]
  | directive | conditional =>
    simp only [Line.read, hkind] at hread
    simp only [Line.isShownQuietly, hkind] at hquiet
    split at hread
    · cases hread
    · next d hd =>
      simp only [hd, decide_eq_true_eq] at hquiet
      cases hread
      obtain ⟨name, value, rfl⟩ := he d rfl
      rw [haction, run_set hr, hquiet]
      simp only [Line.predicted, typing, reduceCtorEq, if_false, List.foldl_nil]

/-- So does a whole statement, which is skipped for a blank line or a comment. -/
theorem run_stmt_straight (fuel : Nat) (body : Body σ) {n : Nat} {raw : String} {e : Entry}
    {scope' : Scope} (hr : r.Undisturbed now) (hintime : r.InTime s.started s.world)
    (hread : Line.read now s.scope n raw = (.ok e, scope'))
    (hquiet : Line.isShownQuietly now s.scope raw = true) (he : e.IsStraight) :
    ∃ t, (r.stmt fuel body e.stmt).run s = some (.ok none, t) ∧ t.scope = scope' ∧
      t.world = r.typing s.world e.line.predicted ∧ t.started = s.started := by
  cases hskipped : e.line.kind.isSkipped with
  | true =>
    obtain ⟨hscope, htyped⟩ := Line.read_skipped hread hskipped
    refine ⟨s, ?_, hscope.symm, ?_, rfl⟩
    · simp only [stmt, Entry.line_stmt, hskipped, if_true]
      rfl
    · rw [htyped]
      rfl
  | false =>
    refine ⟨_, run_stmt_ok hr hintime (by rwa [Entry.line_stmt])
      (run_dispatch_straight hr hread hquiet he hskipped), rfl, rfl, rfl⟩

/-! ## Whole runs -/

theorem typing_append (world : σ) (texts more : List String) :
    r.typing world (texts ++ more) = r.typing (r.typing world texts) more := by
  simp only [typing, List.foldl_append]

/-- Lines that are read and run from the same scope leave the same scope, and type what is
    predicted. -/
theorem run_stmts_straight (fuel : Nat) (body : Body σ) {n : Nat} {raws : List String}
    {entries : List Entry} {scope' : Scope} (hr : r.Undisturbed now)
    (hread : Script.readLines now s.scope n raws = (.ok entries, scope'))
    (hquiet : Script.areShownQuietly now s.scope n raws = true)
    (hstraight : ∀ e ∈ entries, e.IsStraight)
    (hintime : ∀ texts, texts <+: entries.flatMap (·.line.predicted) →
      r.InTime s.started (r.typing s.world texts)) :
    ∃ t, (stmts (r.stmt fuel body) (entries.map Entry.stmt)).run s = some (.ok none, t) ∧
      t.scope = scope' ∧ t.world = r.typing s.world (entries.flatMap (·.line.predicted)) := by
  induction raws generalizing s n entries with
  | nil =>
    cases hread
    exact ⟨s, rfl, rfl, rfl⟩
  | cons raw raws ih =>
    obtain ⟨e, scope₁, rest, hfirst, hrest, rfl⟩ := Script.readLines_cons_eq_ok_iff.mp hread
    obtain ⟨he, hstraight⟩ := List.forall_mem_cons.mp hstraight
    obtain ⟨hshown, hquiet⟩ := Bool.and_eq_true_iff.mp hquiet
    rw [hfirst] at hquiet
    obtain ⟨t₁, hrun, rfl, hworld, hstarted⟩ :=
      run_stmt_straight fuel body hr (hintime [] List.nil_prefix) hfirst hshown he
    have hintime₁ : ∀ texts, texts <+: rest.flatMap (·.line.predicted) →
        r.InTime t₁.started (r.typing t₁.world texts) := by
      intro texts htexts
      rw [hstarted, hworld, ← typing_append]
      apply hintime
      rw [List.flatMap_cons]
      exact (List.prefix_append_right_inj _).mpr htexts
    obtain ⟨t, hruns, hscope, htyped⟩ := ih hrest hquiet hstraight hintime₁
    refine ⟨t, ?_, hscope, ?_⟩
    · rw [List.map_cons, stmts, Run.run_bind_ok hrun]
      exact hruns
    · rw [htyped, hworld, List.flatMap_cons, typing_append]

end Runner

namespace Script

variable {scope : Scope} {entries : List Entry}

theorem predicted_ofStraight :
    (ofStraight entries).predicted = entries.flatMap (·.line.predicted) := by
  have hwalk : Stmt.walkAll (entries.map Entry.stmt) = entries.map (·.line) := by
    induction entries with
    | nil => rfl
    | cons e rest ih =>
      obtain ⟨line, _ | d⟩ := e
      · simp [Stmt.walkAll, ih, Entry.stmt, Stmt.walk]
      · cases d <;> simp [Stmt.walkAll, ih, Entry.stmt, Stmt.walk]
  simp only [predicted, ofStraight, hwalk, List.flatMap_map]

theorem Check.not_isError_references {check : Check} {inFunction : Bool} {line : Nat}
    {text : String} {issue : Issue} (h : issue ∈ check.references inFunction line text) :
    issue.isError = false := by
  obtain ⟨name, -, hissue⟩ := List.mem_filterMap.mp h
  split at hissue
  · cases hissue
  · cases hissue
    rfl

/-- Nothing that validation finds keeps straight lines from running. -/
theorem valid_ofStraight (hstraight : ∀ e ∈ entries, e.IsStraight)
    (hwell : ∀ e ∈ entries, e.WellRead) :
    ∀ issue ∈ (ofStraight entries).validate scope, issue.isError = false := by
  intro issue hissue
  have hfound := (reportOnce_sublist [] _).mem ((sortBy_perm _ _).mem_iff.mp hissue)
  simp only [Script.functionsByName, ofStraight, sortBy, List.flatMap_nil, List.append_nil,
    Check.stmts_eq_flatMap, List.flatMap_map, List.mem_flatMap] at hfound
  obtain ⟨⟨line, directive⟩, he, hissue⟩ := hfound
  have hkind := hwell _ he
  cases directive with
  | none =>
    have hplain : line.kind.isDirective = false := hkind.symm
    simp only [Entry.stmt, Check.stmt, hplain, Bool.false_eq_true, if_false] at hissue
    split at hissue
    · cases hissue
    · exact Check.not_isError_references hissue
  | some d =>
    obtain ⟨name, value, rfl⟩ := hstraight _ he d rfl
    simp only [Entry.stmt, Check.stmt, Check.actionTexts, Check.actionFinding?, Option.toList_none,
      List.map_nil, List.append_nil, List.flatMap_cons, List.flatMap_nil] at hissue
    exact Check.not_isError_references hissue

end Script

namespace Runner

/-- A text of straight lines is a script, which types what was expanded when it was read, and
    leaves the variables that reading has left. This holds if the lines of `<set>` store
    nothing when they are expanded to be shown, for every run that is not disturbed or cut
    short by the deadline. -/
theorem predicted_run (now : Int) (scope : Scope) {text : String}
    (hstraight : ∀ raw ∈ Text.lines text, Line.isStraight raw = true) :
    ∃ script scope', Script.parse now scope text = (.ok script, scope') ∧
      (Script.areShownQuietly now scope 1 (Text.lines text) = true →
        ∀ {σ : Type} (r : Runner σ) (s : Session σ) (fuel : Nat), r.Undisturbed now →
          s.scope = scope →
          (∀ texts, texts <+: script.predicted →
            r.InTime (r.machine.clock.elapsed s.world) (r.typing s.world texts)) →
          ∃ report t, r.execute (fuel + 1) script s = some (report, t) ∧
            report.error = none ∧ report.exitCode = 0 ∧
            t.world = r.typing s.world script.predicted ∧ t.scope = scope') := by
  obtain ⟨entries, scope', hread, hentries, hparse⟩ :=
    Script.parseLines_straight now scope hstraight
  refine ⟨Script.ofStraight entries, scope', hparse, ?_⟩
  intro hquiet σ r s fuel hr hscope hintime
  subst hscope
  rw [Script.predicted_ofStraight] at hintime ⊢
  obtain ⟨t, hrun, hscope, htyped⟩ := run_stmts_straight fuel (r.exec fuel)
    (s := r.beginScript (Script.ofStraight entries) s) hr hread hquiet hentries hintime
  have hbegins : r.Begins (Script.ofStraight entries) s := by
    intro issue hissue
    unfold findings at hissue
    split at hissue
    · exact Script.valid_ofStraight hentries
        (Script.readLines_forall (fun h => (Line.read_ok h).2) hread) issue hissue
    · cases hissue
  refine ⟨r.report t (r.findings (Script.ofStraight entries) s) (.ok none), t, ?_, rfl, rfl,
    htyped, hscope⟩
  rw [execute_eq, if_pos hbegins]
  exact congrArg (Option.map _) hrun

/-- Runs scripts on a machine that records the texts that are typed. -/
def typist : Runner (List String) where
  machine := { keyLogger.machine with typeText := fun text log => (.ok (), log ++ [text]) }
  debugger := none
  settings := .standard
  files := .empty

theorem typist_undisturbed : typist.Undisturbed 0 where
  seconds _ := rfl
  types _ _ := rfl
  unstopped _ h := by cases h

/-- A greeting that is put together from variables. -/
theorem predicted_run_greeting :
    let text := "A=Ada\n<set B=$A>\n\n# greets\nhi $B\n\\<$B>"
    (∀ raw ∈ Text.lines text, Line.isStraight raw = true) ∧
      ∃ script scope', Script.parse 0 .empty text = (.ok script, scope') ∧
        Script.areShownQuietly 0 .empty 1 (Text.lines text) = true ∧
        script.predicted = ["hi Ada\n", "<Ada>\n"] ∧
        ∃ report t, typist.execute 1 script (.start .empty []) = some (report, t) ∧
          report.error = none ∧ report.exitCode = 0 ∧ t.world = ["hi Ada\n", "<Ada>\n"] ∧
          t.scope = scope' := by
  intro text
  have hstraight : ∀ raw ∈ Text.lines text, Line.isStraight raw = true := by decide +kernel
  have hquiet : Script.areShownQuietly 0 .empty 1 (Text.lines text) = true := by decide +kernel
  have hpredicted : (Script.parse 0 .empty text).1.toOption.map Script.predicted =
      some ["hi Ada\n", "<Ada>\n"] := by
    decide +kernel
  obtain ⟨script, scope', hparse, hrun⟩ := predicted_run 0 .empty hstraight
  rw [hparse] at hpredicted
  have hscript : script.predicted = ["hi Ada\n", "<Ada>\n"] := Option.some.inj hpredicted
  obtain ⟨report, t, hexecute, herror, hcode, hworld, hscope⟩ :=
    hrun hquiet typist (.start .empty []) 0 typist_undisturbed rfl
      (fun _ _ _ htimeout => by cases htimeout)
  rw [hscript] at hworld
  exact ⟨hstraight, script, scope', hparse, hquiet, hscript, report, t, hexecute, herror, hcode,
    hworld, hscope⟩

/-- A default that is stored when a line is shown shows in the lines after it, and not in the
    run. -/
theorem shown_default_unpredicted :
    let text := "<set X=a$\x7bY:=$X\x7d>\n[$Y]"
    (∀ raw ∈ Text.lines text, Line.isStraight raw = true) ∧
      ∃ script scope', Script.parse 0 .empty text = (.ok script, scope') ∧
        script.predicted = ["[a]\n"] ∧ scope'.get? "Y" = some "a" ∧
        ∃ report t, typist.execute 1 script (.start .empty []) = some (report, t) ∧
          report.success = true ∧ t.world = ["[]\n"] ∧ t.scope.get? "Y" = some "" := by
  intro text
  have hstraight : ∀ raw ∈ Text.lines text, Line.isStraight raw = true := by decide +kernel
  have hread : (Script.parse 0 .empty text).1.toOption.map (fun script =>
      (script.predicted, (typist.execute 1 script (.start .empty [])).map fun (report, t) =>
        (report.success, t.world, t.scope.get? "Y"))) =
        some (["[a]\n"], some (true, ["[]\n"], some "")) := by
    decide +kernel
  have hleft : (Script.parse 0 .empty text).2.get? "Y" = some "a" := by decide +kernel
  refine ⟨hstraight, ?_⟩
  rcases hparse : Script.parse 0 .empty text with ⟨_ | script, scope'⟩
  · rw [hparse] at hread
    cases hread
  · rw [hparse] at hread hleft
    obtain ⟨hpredicted, hrun⟩ := Prod.mk.inj (Option.some.inj hread)
    obtain ⟨⟨report, t⟩, hexecute, hleaves⟩ := Option.map_eq_some_iff.mp hrun
    obtain ⟨hsuccess, hworld, hscope⟩ : report.success = true ∧ t.world = ["[]\n"] ∧
        t.scope.get? "Y" = some "" := by
      simpa using hleaves
    exact ⟨script, scope', rfl, hpredicted, hleft, report, t, hexecute, hsuccess, hworld, hscope⟩

end Runner

end ConsoleScript
