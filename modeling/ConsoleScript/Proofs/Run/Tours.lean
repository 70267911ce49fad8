-- SUMMARY: A dry run of a script without calls, files and ways out visits every line once, in order.
import ConsoleScript.Proofs.Run.DryRuns
import ConsoleScript.Proofs.Run.Parsed
import ConsoleScript.Proofs.Run.PassiveDebugger
import ConsoleScript.Proofs.Run.Rehearsing
import ConsoleScript.Proofs.Script.Flags

/-!
# Tours

Where no line calls a function, includes a file or leads out of a list, a dry run is a
walk through the tree of statements: both parts of each condition, all cases of each
switch and the body of each loop, once. To see this a recorder stands beside the machine,
a debugger that lets every line run and writes down which it was, and in which scope.
What it writes down, how many lines are counted and what the scope comes to is a `Tour`
of the nodes of the tree, in the order of the walk. Each kind of statement makes a tour
of its bodies if these make theirs (`dispatch_tours`), so that lists do
(`exec_tours`), at any depth.
-/

namespace ConsoleScript

variable {σ α : Type}

/-! ## What a line does to the scope -/

/-- The action runs other lines than those after it, or no more lines. -/
def Action.diverts : Action → Bool
  | .exit _ | .doReturn | .doBreak | .call .. | .includeFile _ => true
  | _ => false

namespace Stmt

/-- The scope after the texts of the line itself are expanded, and what it binds is
    bound. -/
def leaves (now : Int) (scope : Scope) : Stmt → Scope
  | .plain line =>
    match line.kind with
    | .text => (scope.expand now line.trimmed).2
    | .assignment =>
      match scope.readAssignment? now line.trimmed with
      | some ((name, value), scope) => scope.set name value
      | none => scope
    | _ => scope
  | .action _ (.watch text _) | .action _ (.screenshot text _) | .action _ (.includeFile text) =>
    (scope.expand now text).2
  | .action _ (.call _ args) => (scope.expandAll now args).2
  | .action _ (.bind name value) =>
    let (value, scope) := scope.expand now value
    scope.set name value
  | .action _ _ => scope
  | .loop _ (.whileScreen _ text _ _) _ => (scope.expand now text).2
  | .loop .. => scope
  | .branch _ c _ _ => (scope.expand now c.text).2
  | .switch _ _ cases _ => (scope.expandAll now (cases.map (·.pattern))).2

/-- The nodes of a list of statements that are no comments and no blank lines. -/
def visibleNodes (ss : List Stmt) : List Stmt :=
  (nodesAll ss).filter fun x => !x.line.kind.isSkipped

@[simp] theorem visibleNodes_nil : visibleNodes [] = [] := by simp [visibleNodes]

theorem visibleNodes_cons {x : Stmt} (rest : List Stmt) (hx : x.line.kind.isSkipped = false) :
    visibleNodes (x :: rest) = x :: x.bodies.flatMap visibleNodes ++ visibleNodes rest := by
  have hbodies : visibleNodes = fun ss =>
      (nodesAll ss).filter fun x => !x.line.kind.isSkipped := rfl
  simp [hbodies, nodes_eq_cons, hx, List.filter_flatMap]

theorem visibleNodes_cons_skipped {x : Stmt} (rest : List Stmt)
    (hx : x.line.kind.isSkipped = true) (hbodies : x.bodies = []) :
    visibleNodes (x :: rest) = visibleNodes rest := by
  simp [visibleNodes, nodes_eq_cons, hx, hbodies]

end Stmt

open Stmt (visibleNodes nodesAll)

/-- What is asked of a node: nothing is wrong with it, it leads nowhere else, and a
    comment owns nothing. -/
structure Stmt.Passable (x : Stmt) : Prop where
  readable : x.Readable
  stays : ∀ line a, x = .action line a → a.diverts = false
  skipped : x.line.kind.isSkipped = true → x.bodies = []

namespace Script

variable {script : Script} {scope : Scope}

theorem WellFormed.passable {script : Script} {scope : Scope}
    (h : script.WellFormed) (hvalid : script.Valid scope)
    (hstays : ∀ line a, .action line a ∈ script.nodes → a.diverts = false) {x : Stmt}
    (hx : x ∈ nodesAll script.body) : x.Passable where
  readable := hvalid.readable (List.mem_append_left _ hx)
  stays := by
    rintro line a rfl
    exact hstays line a (List.mem_append_left _ hx)
  skipped hskipped := by
    have hvisible := (h.neat_of_body x hx).visible_of_directive
    rw [hskipped] at hvisible
    cases x with
    | plain | action => rfl
    | loop | branch | switch => cases hvisible rfl

/-- The lines outside of functions that are no comments and no blank lines, in the order
    of the walk. -/
theorem visible_walk (script : Script) :
    (script.walk.filter fun (line, inFunction) => !inFunction && !line.kind.isSkipped).map
      Prod.fst = (visibleNodes script.body).map Stmt.line := by
  simp [walk, visibleNodes, Stmt.walkAll_eq_map_nodesAll, List.filter_flatMap, List.filter_map,
    Function.comp_def]

theorem nodup_visible_numbers {now : Int} {scope' : Scope} {text : String}
    (hparse : parse now scope text = (.ok script, scope')) :
    (((visibleNodes script.body).map Stmt.line).map (·.number)).Nodup := by
  have hsub : (visibleNodes script.body).Sublist script.nodes :=
    List.filter_sublist.trans (List.sublist_append_left _ _)
  rw [List.map_map]
  exact (nodup_numbers_of_parse hparse).sublist (hsub.map _)

end Script

/-! ## Recording -/

/-- The lines that were dispatched, each with the scope in which it was. -/
abbrev Log := List (Entry × Scope)

/-- Lets every line run, and records it. -/
def recorder : Debugger Log where
  isEnabled _ := true
  stopsAt _ _ := true
  decide e scope log := (.ok .step, log ++ [(e, scope)])

/-- The statements are dispatched one after the other, each in the scope that the one
    before it leaves at some time that the clock shows. -/
inductive Course (clock : Clock σ) : Scope → List Stmt → Log → Scope → Prop where
  | nil (scope : Scope) : Course clock scope [] [] scope
  | cons {scope scope' : Scope} {x : Stmt} {rest : List Stmt} {log : Log} (w : σ)
      (h : Course clock (x.leaves (clock.seconds w) scope) rest log scope') :
      Course clock scope (x :: rest) ((x.entry, scope) :: log) scope'

namespace Course

variable {clock : Clock σ} {scope scope' scope'' : Scope} {xs ys : List Stmt} {log log' : Log}

theorem append (h : Course clock scope xs log scope') (h' : Course clock scope' ys log' scope'') :
    Course clock scope (xs ++ ys) (log ++ log') scope'' := by
  induction h with
  | nil => exact h'
  | cons w _ ih => exact .cons w (ih h')

theorem lines (h : Course clock scope xs log scope') :
    log.map (·.1.line) = xs.map Stmt.line := by
  induction h with
  | nil => rfl
  | cons _ _ ih => exact congrArg _ ih

end Course

/-- From `scope` on the statements are recorded and counted between the two sessions. -/
structure Tour (clock : Clock σ) (scope : Scope) (xs : List Stmt) (s t : Session (σ × Log)) :
    Prop where
  course : ∃ log, t.world.2 = s.world.2 ++ log ∧ Course clock scope xs log t.scope
  counted : t.linesExecuted = s.linesExecuted + xs.length

/-- What is recorded and counted up to a session. -/
def Session.noted (s : Session (σ × Log)) : Nat × Log := (s.linesExecuted, s.world.2)

theorem Tour.of_noted {clock : Clock σ} {scope : Scope} {xs : List Stmt}
    {s s' t t' : Session (σ × Log)} (h : Tour clock scope xs s t) (hs : s'.noted = s.noted)
    (ht : t'.noted = t.noted) (hscope : t'.scope = t.scope) : Tour clock scope xs s' t' := by
  obtain ⟨hcounts, hlogs⟩ := Prod.mk.inj hs
  obtain ⟨hcountt, hlogt⟩ := Prod.mk.inj ht
  constructor
  · rw [hlogs, hlogt, hscope]
    exact h.course
  · rw [hcounts, hcountt]
    exact h.counted

/-! ## Touring -/

namespace Run

/-- The computation gives no signal, and makes a tour of the statements. -/
def Tours (clock : Clock σ) (scope : Scope) (xs : List Stmt) (x : Run (σ × Log) (Option Signal))
    (s : Session (σ × Log)) : Prop :=
  ∃ t, x.run s = some (.ok none, t) ∧ Tour clock scope xs s t

namespace Tours

variable {clock : Clock σ} {scope : Scope} {xs ys : List Stmt}
  {x : Run (σ × Log) (Option Signal)} {s u : Session (σ × Log)}

theorem pure : Tours clock s.scope [] (pure none) s :=
  ⟨s, rfl, ⟨[], by simp, .nil _⟩, rfl⟩

/-- Before the tour a step may change anything but what is noted. -/
theorem after {z : Run (σ × Log) α} {a : α} {g : α → Run (σ × Log) (Option Signal)}
    (hz : z.run s = some (.ok a, u)) (hu : u.noted = s.noted) (h : Tours clock scope xs (g a) u) :
    Tours clock scope xs (z >>= g) s := by
  obtain ⟨t, hrun, htour⟩ := h
  exact ⟨t, (run_bind_ok hz g).trans hrun, htour.of_noted hu.symm rfl rfl⟩

/-- A second tour goes on where the first one ended. -/
theorem bind {g : Option Signal → Run (σ × Log) (Option Signal)} (hx : Tours clock scope xs x s)
    (hg : ∀ t, Tours clock t.scope ys (g none) t) : Tours clock scope (xs ++ ys) (x >>= g) s := by
  obtain ⟨t, hrun, ⟨log, hlog, hcourse⟩, hcount⟩ := hx
  obtain ⟨v, hrun', ⟨log', hlog', hcourse'⟩, hcount'⟩ := hg t
  refine ⟨v, (run_bind_ok hrun g).trans hrun', ⟨log ++ log', ?_, hcourse.append hcourse'⟩, ?_⟩
  · rw [hlog', hlog, List.append_assoc]
  · rw [hcount', hcount, List.length_append, Nat.add_assoc]

theorem then_pure {f : Option Signal → Option Signal} (hx : Tours clock scope xs x s)
    (hf : f none = none) : Tours clock scope xs (x >>= fun signal => Pure.pure (f signal)) s := by
  rw [← List.append_nil xs]
  refine hx.bind fun t => ?_
  rw [hf]
  exact pure

theorem framed {enter : Session (σ × Log) → Session (σ × Log)}
    {leave : Session (σ × Log) → Session (σ × Log) → Session (σ × Log)}
    (hx : Tours clock scope xs x (enter s)) (henter : (enter s).noted = s.noted)
    (hleave : ∀ t, (leave s t).noted = t.noted) (hscope : ∀ t, (leave s t).scope = t.scope) :
    Tours clock scope xs (framed enter leave x) s := by
  obtain ⟨t, hrun, htour⟩ := hx
  refine ⟨leave s t, ?_, htour.of_noted henter.symm (hleave t) (hscope t)⟩
  rw [run_framed, hrun, Option.map_some]

end Tours

end Run

namespace Runner

open Run (Tours)

variable {r : Runner σ} {s : Session (σ × Log)}

/-! ## Statements -/

section

variable {n : Nat} {body : Body (σ × Log)} {ss : List Stmt}

/-- Wherever it begins, the list makes a tour of its nodes. -/
def BodyTours (clock : Clock σ) (body : Body (σ × Log)) (ss : List Stmt) : Prop :=
  ∀ s : Session (σ × Log), Tours clock s.scope (visibleNodes ss) (body ss) s

theorem once_tours {clock : Clock σ} (h : BodyTours clock body ss) :
    Tours clock s.scope (visibleNodes ss) (once body ss) s :=
  ((h { s with loopDepth := s.loopDepth + 1 }).framed rfl (fun _ => rfl) fun _ => rfl).then_pure rfl

variable (hr : r.machine.Rehearses)
include hr

theorem watched_isDryRun : (r.watched recorder).machine.isDryRun = true := hr.isDryRun

theorem branch_tours (c : Condition) {yes no : List Stmt}
    (hyes : BodyTours r.machine.clock body yes) (hno : BodyTours r.machine.clock body no) :
    Tours r.machine.clock (s.scope.expand (r.machine.clock.seconds s.world.1) c.text).2
      (visibleNodes yes ++ visibleNodes no) ((r.watched recorder).branch n body c yes no) s := by
  simp only [branch, watched_isDryRun hr, ↓reduceIte]
  refine .after rfl rfl (.after rfl rfl ((hyes _).bind fun t => ?_))
  dsimp only
  split
  · exact .after rfl rfl (hno _)
  · exact hno _

theorem loop_tours (l : Loop) (line : Line) (h : BodyTours r.machine.clock body ss) :
    Tours r.machine.clock
      ((Stmt.loop line l ss).leaves (r.machine.clock.seconds s.world.1) s.scope)
      (visibleNodes ss) ((r.watched recorder).loop n body ss l) s := by
  cases l with
  | retry attempts =>
    simp only [loop, watched_isDryRun hr, ↓reduceIte]
    exact .after rfl rfl (once_tours h)
  | repeatTimes count =>
    simp only [loop, watched_isDryRun hr, ↓reduceIte]
    exact .after rfl rfl (once_tours h)
  | whileScreen presence text timeout poll =>
    simp only [loop, watched_isDryRun hr, ↓reduceIte]
    exact .after rfl rfl (.after rfl rfl (once_tours h))

omit hr in
theorem tellCases_tours {cases : List (Case Stmt × String)}
    (h : ∀ c ∈ cases, BodyTours r.machine.clock body c.1.body) :
    Tours r.machine.clock s.scope ((cases.map (·.1.body)).flatMap visibleNodes)
      ((r.watched recorder).tellCases body cases) s := by
  induction cases generalizing s with
  | nil => exact .pure
  | cons head rest ih =>
    obtain ⟨hhead, hrest⟩ := List.forall_mem_cons.mp h
    exact .after rfl rfl ((once_tours hhead).bind fun t => ih hrest)

theorem switch_tours (options : SwitchOptions) {cases : List (Case Stmt)}
    {otherwise : Option (List Stmt)}
    (h : ∀ ss ∈ cases.map (·.body) ++ otherwise.toList, BodyTours r.machine.clock body ss) :
    Tours r.machine.clock
      (s.scope.expandAll (r.machine.clock.seconds s.world.1) (cases.map (·.pattern))).2
      ((cases.map (·.body) ++ otherwise.toList).flatMap visibleNodes)
      ((r.watched recorder).switch n body options cases otherwise) s := by
  simp only [switch, watched_isDryRun hr, ↓reduceIte]
  refine .after rfl rfl (.after rfl rfl ?_)
  have hbodies := map_zip_expandAll (r.machine.clock.seconds s.world.1) s.scope cases
  rw [List.flatMap_append, ← hbodies]
  refine (tellCases_tours fun c hc => h _ ?_).bind fun t => ?_
  · exact List.mem_append_left _ (List.mem_map_of_mem (List.of_mem_zip hc).1)
  · cases otherwise with
    | none => exact .pure
    | some ss =>
      rw [Option.toList_some, List.flatMap_singleton]
      exact .after rfl rfl (once_tours (h ss (by simp)))

omit hr in
theorem operate_tours {op : Operation (σ × Log) Unit} {f : Unit → Option Signal}
    (hop : (op s.world).1 = .ok ()) (hlog : (op s.world).2.2 = s.world.2) (hf : f () = none) :
    Tours r.machine.clock s.scope [] (operate op >>= fun a => pure (f a)) s := by
  refine .after (run_operate hop) (congrArg (Prod.mk _) hlog) ?_
  rw [hf]
  exact .pure

omit hr in
theorem run_assign {τ : Type} {r : Runner τ} (line : String) (s : Session τ) :
    (r.assign line).run s = some (.ok (), { s with
      scope :=
        match s.scope.readAssignment? (r.machine.clock.seconds s.world) line with
        | some ((name, value), scope) => scope.set name value
        | none => s.scope }) := by
  unfold assign
  rw [Run.run_get_bind]
  cases s.scope.readAssignment? (r.machine.clock.seconds s.world) line <;> rfl

theorem plain_tours {line : Line} (hline : line.kind.isDirective = false) :
    Tours r.machine.clock
      ((Stmt.plain line).leaves (r.machine.clock.seconds s.world.1) s.scope) []
      ((r.watched recorder).plain line) s := by
  unfold plain
  simp only [Stmt.leaves]
  cases hkind : line.kind with
  | text => exact .after rfl rfl (operate_tours (hr.obliges (.typeText _) _) rfl rfl)
  | assignment => exact .after (run_assign line.trimmed s) rfl .pure
  | directive => simp [hkind, LineKind.isDirective] at hline
  | conditional => simp [hkind, LineKind.isDirective] at hline
  | comment => exact .pure
  | blank => exact .pure

theorem action_tours {a : Action} (line : Line) (hstays : a.diverts = false)
    (hkey : ∀ name, a = .key name → KeyCode.ofName? name ≠ none) :
    Tours r.machine.clock
      ((Stmt.action line a).leaves (r.machine.clock.seconds s.world.1) s.scope) []
      ((r.watched recorder).action n body line.number a) s := by
  cases a with
  | key name =>
    obtain ⟨key, hname⟩ := Option.ne_none_iff_exists'.mp (hkey name rfl)
    simp only [action, hname]
    exact operate_tours (hr.obliges (.pressKey key) _) rfl rfl
  | watch text timeout =>
    simp only [action, watched_isDryRun hr, ↓reduceIte]
    exact .after rfl rfl (.after rfl rfl .pure)
  | console number => exact operate_tours (hr.obliges (.switchConsole number) _) rfl rfl
  | wait duration => exact .after (run_sleep_dry (watched_isDryRun hr) duration s) rfl .pure
  | endIf => exact .pure
  | screenshot path format =>
    exact .after rfl rfl (operate_tours (hr.obliges (.screenshot _ format) _) rfl rfl)
  | bind name value => exact .after rfl rfl (.after rfl rfl .pure)
  | exit | doReturn | doBreak | includeFile | call => cases hstays

theorem dispatch_tours {x : Stmt} (hx : x.Readable)
    (hstays : ∀ line a, x = .action line a → a.diverts = false)
    (hbodies : ∀ ss ∈ x.bodies, BodyTours r.machine.clock body ss) :
    Tours r.machine.clock (x.leaves (r.machine.clock.seconds s.world.1) s.scope)
      (x.bodies.flatMap visibleNodes) ((r.watched recorder).dispatch n body x) s := by
  cases x with
  | plain line => exact plain_tours hr (hx.directive line rfl)
  | action line a =>
    exact action_tours hr line (hstays line a rfl) fun name ha => hx.key line name (ha ▸ rfl)
  | loop line l ss =>
    rw [Stmt.bodies, List.flatMap_singleton]
    exact loop_tours hr l line (hbodies ss (by simp [Stmt.bodies]))
  | branch line c yes no =>
    rw [Stmt.bodies, List.flatMap_cons, List.flatMap_singleton]
    exact branch_tours hr c (hbodies yes (by simp [Stmt.bodies]))
      (hbodies no (by simp [Stmt.bodies]))
  | switch line options cases otherwise => exact switch_tours hr options hbodies

variable (htimeout : r.settings.timeout = none)
include htimeout

omit hr in
theorem run_approach_recorded (x : Stmt) :
    ((r.watched recorder).approach x).run s = some (.ok (), { s with
      line := x.line.number
      world := (s.world.1, s.world.2 ++ [(x.entry, s.scope)]) }) := by
  have hnone : (r.watched recorder).settings.timeout = none := htimeout
  rw [approach, checkDeadline_eq hnone]
  rfl

theorem stmt_tours {x : Stmt} (hx : x.Readable) (hvisible : x.line.kind.isSkipped = false)
    (hstays : ∀ line a, x = .action line a → a.diverts = false)
    (hbodies : ∀ ss ∈ x.bodies, BodyTours r.machine.clock body ss) :
    Tours r.machine.clock s.scope (x :: x.bodies.flatMap visibleNodes)
      ((r.watched recorder).stmt n body x) s := by
  obtain ⟨t, hrun, ⟨log, hlog, hcourse⟩, hcount⟩ := dispatch_tours (n := n) hr hx hstays hbodies
    (s := { s with
      line := x.line.number
      world := (s.world.1, s.world.2 ++ [(x.entry, s.scope)]) })
  refine ⟨{ t with linesExecuted := t.linesExecuted + 1 }, ?_,
    ⟨(x.entry, s.scope) :: log, ?_, ?_⟩, ?_⟩
  · rw [run_stmt hvisible (run_approach_recorded htimeout x), hrun]
    rfl
  · rw [hlog, List.append_assoc, List.singleton_append]
  · exact .cons s.world.1 hcourse
  · rw [List.length_cons, ← Nat.add_assoc, ← hcount]

end

/-! ## Lists -/

/-- With fuel for each node a list makes a tour of its nodes. -/
theorem exec_tours (hr : r.machine.Rehearses) (htimeout : r.settings.timeout = none) {n : Nat}
    {ss : List Stmt} (hfuel : (nodesAll ss).length < n) (hss : ∀ x ∈ nodesAll ss, x.Passable) :
    BodyTours r.machine.clock ((r.watched recorder).exec n) ss := by
  induction n generalizing ss with
  | zero => exact absurd hfuel (Nat.not_lt_zero _)
  | succ n ih =>
    rw [exec]
    induction ss with
    | nil =>
      intro s
      rw [Stmt.visibleNodes_nil]
      exact .pure
    | cons x rest ihrest =>
      intro s
      rw [Stmt.nodesAll_cons, List.length_append, Stmt.nodes_eq_cons, List.length_cons] at hfuel
      rw [Stmt.nodesAll_cons] at hss
      obtain ⟨hnodes, hrest⟩ := List.forall_mem_append.mp hss
      have hx := hnodes x x.mem_nodes_self
      have hlater := ihrest (by omega) hrest
      cases hkind : x.line.kind.isSkipped with
      | true =>
        rw [Stmt.visibleNodes_cons_skipped rest hkind (hx.skipped hkind)]
        exact .after (run_stmt_skipped hkind) rfl (hlater s)
      | false =>
        rw [Stmt.visibleNodes_cons rest hkind]
        refine .bind (stmt_tours hr htimeout hx.readable hkind hx.stays fun inner hinner => ?_) hlater
        have hsub : (nodesAll inner).length ≤ (x.bodies.flatMap nodesAll).length :=
          (List.sublist_flatten_of_mem (List.mem_map_of_mem hinner)).length_le
        refine ih (by omega) fun y hy => hnodes y ?_
        exact Stmt.mem_nodes_of_body hinner hy

/-! ## Runs -/

theorem recorder_passive {start : Point (σ × Log)} : (r.watched recorder).Passive start := by
  intro around n x rest s d _ hasks
  cases hasks.debugger
  exact List.mem_cons_self

theorem unbroken_of_stays {τ : Type} {r : Runner τ} {fuel : Nat} {script : Script}
    {s : Session τ} (hstays : ∀ line a, .action line a ∈ script.nodes → a.diverts = false) :
    r.Unbroken (r.beginning fuel script s) := by
  refine unbroken_of_nodes ?_ ?_
  · rintro x hx line path rfl
    cases hstays _ _ hx
  · rintro x hx line rfl
    cases hstays _ _ hx

/-- In a dry run of a script that was parsed and checked, in which no line leaves its
    list, calls a function or includes a file, nothing goes wrong, and the screen is not
    looked at. A recorder that is put beside the machine is not noticed, and writes down
    each line of the walk that stands outside of functions and is no comment and no blank
    line, once, in the order of the walk, and with the scope that the line before leaves. -/
theorem rehearsal_visits_each_line_once {r : Runner σ} (hr : r.machine.Rehearses)
    (htimeout : r.settings.timeout = none) (hdebugger : r.debugger = none) {now : Int}
    {scope scope' : Scope} {text : String} {script : Script}
    (hparse : Script.parse now scope text = (.ok script, scope'))
    (hstays : ∀ line a, .action line a ∈ script.nodes → a.diverts = false) {s : Session σ}
    (hvalid : ∀ issue ∈ script.validate s.scope, issue.isError = false) :
    let lines := (script.walk.filter fun (line, inFunction) =>
      !inFunction && !line.kind.isSkipped).map Prod.fst
    ∃ (fuel : Nat) (report : Report) (t : Session (σ × Log)),
      (∀ fuel' ≥ fuel, ∀ capture : Operation σ Screen,
        let r' := r.swapped r.machine.wait capture
        r'.execute fuel' script s = some (report, t.alone) ∧
        (r'.watched recorder).execute fuel' script (s.beside []) = some (report, t)) ∧
      report.success = true ∧ report.linesExecuted = lines.length ∧
      t.world.2.map (·.1.line) = lines ∧ (lines.map (·.number)).Nodup ∧
      Course r.machine.clock s.scope (visibleNodes script.body) t.world.2 t.scope := by
  intro lines
  have hlines : lines = (visibleNodes script.body).map Stmt.line := script.visible_walk
  have hpassable : ∀ x ∈ nodesAll script.body, x.Passable :=
    fun x hx => (Script.parse_wellFormed hparse).passable hvalid hstays hx
  obtain ⟨t, hrun, ⟨log, hlog, hcourse⟩, hcount⟩ :=
    exec_tours hr htimeout (Nat.lt_succ_self _) hpassable
      ((r.watched recorder).beginScript script (s.beside []))
  have hrecorded : t.world.2 = log := hlog
  have hbegins : (r.watched recorder).Begins script (s.beside []) := by
    unfold Begins findings
    rw [watched_isDryRun hr]
    exact hvalid
  obtain ⟨report, hreport, hsuccess, hcounted⟩ : ∃ report,
      (r.watched recorder).execute ((nodesAll script.body).length + 1) script (s.beside []) =
        some (report, t) ∧ report.success = true ∧ report.linesExecuted = t.linesExecuted :=
    ⟨_, execute_of_begins hbegins hrun, rfl, rfl⟩
  refine ⟨(nodesAll script.body).length + 1, report, t, fun fuel' hfuel capture => ?_, hsuccess,
    ?_, ?_, ?_, ?_⟩
  · have hwatched : ((r.swapped r.machine.wait capture).watched recorder).execute fuel' script
        (s.beside []) = some (report, t) :=
      (execute_swapped (watched_isDryRun hr) (Operation.beside Log capture) fuel' script _).trans
        (execute_mono (watched_isDryRun hr) hfuel hreport)
    have hmirrors : (((r.swapped r.machine.wait capture).watched recorder).execute fuel' script
        (s.beside [])).map (fun (report, t) => (report, t.alone)) =
          (r.swapped r.machine.wait capture).execute fuel' script s :=
      execute_mirrors hdebugger (unbroken_of_stays hstays) recorder_passive
    rw [hwatched] at hmirrors
    exact ⟨hmirrors.symm, hwatched⟩
  · rw [hlines, List.length_map]
    exact hcounted.trans (hcount.trans (Nat.zero_add _))
  · rw [hrecorded, hlines]
    exact hcourse.lines
  · rw [hlines]
    exact Script.nodup_visible_numbers hparse
  · rw [hrecorded]
    exact hcourse

/-- A case and the default of a switch, and the body of a loop once. -/
theorem rehearsal_visits_each_line_once_switch :
    let text := "# c\n<switch>\n<case \"y\">\nA=1\n<default>\n<repeat 2>\n$A\n<end-switch>"
    let start : Session (List String) := .start .empty []
    ∃ script scope' fuel report t, Script.parse 0 .empty text = (.ok script, scope') ∧
      rehearser.execute fuel script start = some (report, Session.alone t) ∧
      (rehearser.watched recorder).execute fuel script (start.beside []) = some (report, t) ∧
      report.success = true ∧ report.linesExecuted = 4 ∧
      t.world.2.map (·.1.line.number) = [2, 4, 6, 7] := by
  intro text start
  have hscript : (Script.parse 0 .empty text).1.toOption.map (fun script =>
      ((script.walk.filter fun (line, inFunction) => !inFunction && !line.kind.isSkipped).map
        (·.1.number),
      script.nodes.all fun | .action _ a => !a.diverts | _ => true,
      (script.validate .empty).all fun issue => !issue.isError)) =
      some ([2, 4, 6, 7], true, true) := by
    decide +kernel
  rcases hparse : Script.parse 0 .empty text with ⟨_ | script, scope'⟩
  · simp [hparse, Except.toOption] at hscript
  · simp only [hparse, Except.toOption, Option.map_some, Option.some.injEq,
      Prod.mk.injEq] at hscript
    obtain ⟨hnumbers, hstays, hvalid⟩ := hscript
    obtain ⟨fuel, report, t, hruns, hsuccess, hcount, hlines, -, -⟩ :=
      rehearsal_visits_each_line_once (r := rehearser) (s := start) (DryRun.machine_rehearses _ _)
        rfl rfl hparse (fun line a ha => by simpa using List.all_eq_true.mp hstays _ ha)
        (fun issue hissue => by simpa using List.all_eq_true.mp hvalid issue hissue)
    obtain ⟨hplain, hwatched⟩ := hruns fuel (Nat.le_refl _) rehearser.machine.capture
    refine ⟨script, scope', fuel, report, t, rfl, hplain, hwatched, hsuccess, ?_, ?_⟩
    · rw [hcount, List.length_map]
      simpa using congrArg List.length hnumbers
    · rw [← hnumbers]
      simpa [Function.comp_def] using congrArg (List.map Line.number) hlines

end Runner

end ConsoleScript
