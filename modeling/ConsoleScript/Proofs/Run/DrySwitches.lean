-- SUMMARY: A dry run enters the cases of a switch one after the other, until one leaves the switch.
import ConsoleScript.Proofs.Run.Deadline
import ConsoleScript.Proofs.Run.DryRuns
import ConsoleScript.Proofs.Run.Succeeding

/-!
# Switches in dry runs

A dry run goes through the cases of a switch and its default in their order. A break
leaves its case only, but an exit or a return leaves the switch, and what comes after that
case is not entered (`enters_of_leaves`). Nothing else keeps a case from being entered if
no list of statements fails. So each case is entered if none before it ended with an exit
or a return, and its first line is dispatched.
-/

namespace ConsoleScript.Runner

variable {σ α : Type} {r : Runner σ} {n : Nat} {s : Session σ}

/-! ## From one case to the next -/

/-- The list ends by itself, or by a break. -/
def StaysInSwitch (signal : Option Signal) : Prop := signal = none ∨ signal = some .doBreak

theorem outsideLoop_eq_none_iff {signal : Option Signal} :
    Signal.outsideLoop signal = none ↔ StaysInSwitch signal := by
  rcases signal with - | - | - | code <;> simp [Signal.outsideLoop, StaysInSwitch]

theorem once_runs (b : Body σ) (ss : List Stmt) (s : Session σ) :
    RunsList (fun body => once body ss) b s ss { s with loopDepth := s.loopDepth + 1 } :=
  ((RunsList.here b ss { s with loopDepth := s.loopDepth + 1 }).framed).bind_first

/-- A body that stays in the switch when it is entered ends without a signal. -/
theorem once_of_stays {b : Body σ} {ss : List Stmt} {s : Session σ}
    (hends : ((once b ss).run s).isSome = true)
    (hstays : ∀ t, RunsList (fun body => once body ss) b s ss t →
      ∀ out v, (b ss).run t = some (out, v) → ∃ signal, out = .ok signal ∧ StaysInSwitch signal) :
    ∃ u, (once b ss).run s = some (.ok none, u) := by
  have hruns := once_runs b ss s
  cases hbody : (b ss).run { s with loopDepth := s.loopDepth + 1 } with
  | none =>
    have hnone := (hruns b fun _ _ _ => rfl).1 hbody
    simp [hnone] at hends
  | some result =>
    obtain ⟨out, v⟩ := result
    obtain ⟨signal, rfl, hsignal⟩ := hstays _ hruns out v hbody
    refine ⟨{ v with loopDepth := v.loopDepth - 1 }, ?_⟩
    have hbreakable : (breakable b ss).run s =
        some (.ok signal, { v with loopDepth := v.loopDepth - 1 }) := by
      rw [breakable, Run.run_framed, hbody, Option.map_some]
    rw [once, Run.run_bind_ok hbreakable, outsideLoop_eq_none_iff.mpr hsignal]
    rfl

/-- A body ends without a signal only if it stays in the switch. -/
theorem stays_of_once {b : Body σ} {ss : List Stmt} {s u : Session σ}
    (h : (once b ss).run s = some (.ok none, u)) :
    ∃ t signal v, (b ss).run t = some (.ok signal, v) ∧ StaysInSwitch signal := by
  rw [once, Run.run_bind, breakable, Run.run_framed] at h
  cases hbody : (b ss).run { s with loopDepth := s.loopDepth + 1 } with
  | none => simp [hbody] at h
  | some result =>
    obtain ⟨e | signal, v⟩ := result
    · simp [hbody] at h
    · rw [hbody] at h
      refine ⟨_, signal, v, hbody, outsideLoop_eq_none_iff.mp ?_⟩
      exact Except.ok.inj (Prod.mk.inj (Option.some.inj h)).1

/-- A dry run comes to the cases after those whose bodies stay in the switch. -/
theorem tellCases_append {b : Body σ} {pre rest : List (Case Stmt × String)} {s : Session σ}
    (hends : ((r.tellCases b (pre ++ rest)).run s).isSome = true)
    (hstays : ∀ c ∈ pre, ∀ t, RunsList (fun body => r.tellCases body (pre ++ rest)) b s c.1.body t →
      ∀ out v, (b c.1.body).run t = some (out, v) →
        ∃ signal, out = .ok signal ∧ StaysInSwitch signal) :
    ∃ u, (r.tellCases b (pre ++ rest)).run s = (r.tellCases b rest).run u ∧
      ∀ {ss t}, RunsList (fun body => r.tellCases body rest) b u ss t →
        RunsList (fun body => r.tellCases body (pre ++ rest)) b s ss t := by
  induction pre generalizing s with
  | nil => exact ⟨s, rfl, id⟩
  | cons head pre ih =>
    obtain ⟨c, pattern⟩ := head
    obtain ⟨hhead, hpre⟩ := List.forall_mem_cons.mp hstays
    have htold : (r.narrate ("case " ++ Text.quoted pattern)).run s = some (.ok (), _) := rfl
    rw [List.cons_append, tellCases, Run.run_bind_ok htold] at hends
    obtain ⟨u, honce⟩ := once_of_stays (isSome_run_of_bind hends) fun t hruns =>
      hhead t (hruns.bind_first.bind_later (.const _) htold)
    have hlater : ∀ {ss t}, RunsList (fun body => r.tellCases body (pre ++ rest)) b u ss t →
        RunsList (fun body => r.tellCases body ((c, pattern) :: pre ++ rest)) b s ss t :=
      fun hruns => .bind_later (.const _) htold (.bind_later (once_sequential c.body) honce hruns)
    rw [Run.run_bind_ok honce] at hends
    obtain ⟨v, hrun, hruns⟩ := ih hends fun c' hc' t h => hpre c' hc' t (hlater h)
    refine ⟨v, ?_, fun h => hlater (hruns h)⟩
    rw [List.cons_append, tellCases, Run.run_bind_ok htold, Run.run_bind_ok honce]
    exact hrun

theorem append_toList_eq {as pre post : List α} {last : Option α} {a : α}
    (h : as ++ last.toList = pre ++ a :: post) :
    (∃ post', as = pre ++ a :: post') ∨ as = pre ∧ last = some a := by
  cases last with
  | none => exact .inl ⟨post, by simpa using h⟩
  | some b =>
    rcases List.eq_nil_or_concat post with rfl | ⟨init, c, rfl⟩
    · obtain ⟨hpre, hb⟩ := List.append_inj' h rfl
      exact .inr ⟨hpre, congrArg some (List.singleton_inj.mp hb)⟩
    · rw [List.concat_eq_append, ← List.cons_append, ← List.append_assoc] at h
      exact .inl ⟨init, (List.append_inj' h rfl).1⟩

/-- What a dry run of a switch does after it has told that there is one. -/
def tellBodies (r : Runner σ) (body : Body σ) (told : List (Case Stmt × String))
    (otherwise : Option (List Stmt)) : Run σ (Option Signal) := do
  match ← r.tellCases body told with
  | some signal => return some signal
  | none =>
    match otherwise with
    | some stmts =>
      r.narrate "default case"
      once body stmts
    | none => return none

theorem switch_dry (hdry : r.machine.isDryRun = true) (n : Nat) (options : SwitchOptions)
    (cases : List (Case Stmt)) (otherwise : Option (List Stmt)) (s : Session σ) :
    ∃ told u, told.map (·.1.body) = cases.map (·.body) ∧
      ∀ body, (r.switch n body options cases otherwise).run s =
        (r.tellBodies body told otherwise).run u := by
  refine ⟨_, ?u, map_zip_expandAll (r.machine.clock.seconds s.world) s.scope cases,
    fun body => ?h⟩
  case h =>
    simp only [switch, hdry, ↓reduceIte]
    rfl

/-- A dry run of a switch runs the body of a case, or the default, if those before it stay
    in the switch. -/
theorem tellBodies_runs {b : Body σ} {told : List (Case Stmt × String)}
    {otherwise : Option (List Stmt)} {pre post : List (List Stmt)} {ss : List Stmt}
    (hbodies : told.map (·.1.body) ++ otherwise.toList = pre ++ ss :: post)
    (hends : ((r.tellBodies b told otherwise).run s).isSome = true)
    (hstays : ∀ inner ∈ pre, ∀ t,
      RunsList (fun body => r.tellBodies body told otherwise) b s inner t →
      ∀ out v, (b inner).run t = some (out, v) →
        ∃ signal, out = .ok signal ∧ StaysInSwitch signal) :
    ∃ t, RunsList (fun body => r.tellBodies body told otherwise) b s ss t := by
  unfold tellBodies at hends hstays ⊢
  have htold := isSome_run_of_bind hends
  rcases append_toList_eq hbodies with ⟨post', hcase⟩ | ⟨hcases, rfl⟩
  · obtain ⟨before, after, rfl, rfl, hafter⟩ := List.map_eq_append_iff.mp hcase
    obtain ⟨c, rest, rfl, rfl, -⟩ := List.map_eq_cons_iff.mp hafter
    obtain ⟨u, -, hlater⟩ := tellCases_append htold fun c' hc' t hruns =>
      hstays _ (List.mem_map_of_mem hc') t hruns.bind_first
    exact ⟨_, (hlater (.bind_later (.const _) rfl (once_runs b _ _).bind_first)).bind_first⟩
  · rw [← List.append_nil told] at htold
    obtain ⟨u, hrun, -⟩ := tellCases_append htold fun c' hc' t hruns => by
      rw [List.append_nil] at hruns
      exact hstays _ (hcases ▸ List.mem_map_of_mem hc') t hruns.bind_first
    rw [List.append_nil] at hrun
    exact ⟨_, .bind_later (tellCases_sequential told) hrun
      (.bind_later (.const _) rfl (once_runs b _ _))⟩

theorem stmt_runs {b : Body σ} {x : Stmt} {t u : Session σ} {ss : List Stmt}
    (hx : r.Dispatches x s u) (h : RunsList (fun body => r.dispatch n body x) b u ss t) :
    RunsList (fun body => r.stmt n body x) b s ss t := by
  obtain ⟨hkind, hbefore⟩ := hx
  simp only [stmt, hkind, Bool.false_eq_true, ↓reduceIte]
  exact .bind_later (.const _) hbefore h.positioned.bind_first

/-- A switch enters the body of a case, or its default, if those before it stay in it. -/
theorem switch_enters (hdry : r.machine.isDryRun = true) {line : Line} {options : SwitchOptions}
    {cases : List (Case Stmt)} {otherwise : Option (List Stmt)} {u : Session σ}
    (hdispatch : r.Dispatches (.switch line options cases otherwise) s u)
    (hends : ((r.stmt n (r.exec n) (.switch line options cases otherwise)).run s).isSome = true)
    {pre post : List (List Stmt)} {ss : List Stmt}
    (hbodies : cases.map (·.body) ++ otherwise.toList = pre ++ ss :: post)
    (hstays : ∀ inner ∈ pre, ∀ t, r.Enters n (.switch line options cases otherwise) s inner t →
      ∀ out v, (r.exec n inner).run t = some (out, v) →
        ∃ signal, out = .ok signal ∧ StaysInSwitch signal) :
    ∃ t, r.Enters n (.switch line options cases otherwise) s ss t := by
  obtain ⟨told, v, htold, hrun⟩ := switch_dry hdry n options cases otherwise u
  have hruns : ∀ {ss t}, RunsList (fun body => r.tellBodies body told otherwise) (r.exec n) v ss t →
      RunsList (fun body => r.stmt n body (.switch line options cases otherwise)) (r.exec n) s
        ss t := fun h => stmt_runs hdispatch (h.of_run_eq hrun)
  rw [run_stmt (x := .switch line options cases otherwise) hdispatch.1 hdispatch.2,
    Option.isSome_map] at hends
  change ((r.switch n (r.exec n) options cases otherwise).run u).isSome = true at hends
  rw [hrun] at hends
  rw [← htold] at hbodies
  obtain ⟨t, ht⟩ := tellBodies_runs hbodies hends fun inner hinner t h =>
    hstays inner hinner t (hruns h).enters
  exact ⟨t, (hruns ht).enters⟩

/-! ## Leaving the switch -/

/-- With both bodies the cases come to the same, which is not that they are over. -/
def LeaveAlike (r : Runner σ) (b b' : Body σ) (told : List (Case Stmt × String))
    (s : Session σ) : Prop :=
  (r.tellCases b told).run s = (r.tellCases b' told).run s ∧
    ∀ t, (r.tellCases b told).run s ≠ some (.ok none, t)

theorem LeaveAlike.cons {b b' : Body σ} {c : Case Stmt} {pattern : String}
    {rest : List (Case Stmt × String)} (hc : b c.body = b' c.body)
    (hrest : ∀ {t u}, (once b c.body).run t = some (.ok none, u) → r.LeaveAlike b b' rest u) :
    r.LeaveAlike b b' ((c, pattern) :: rest) s := by
  have htold : (r.narrate ("case " ++ Text.quoted pattern)).run s = some (.ok (), _) := rfl
  have honce : once b c.body = once b' c.body := by
    simp only [once, breakable, hc]
  rw [LeaveAlike, tellCases, tellCases, Run.run_bind_ok htold, Run.run_bind_ok htold, ← honce,
    Run.run_bind, Run.run_bind]
  cases hrun : (once b c.body).run _ with
  | none => simp
  | some result =>
    simp only [Option.bind_some]
    obtain ⟨e | (- | signal), t⟩ := result
    · simp
    · exact hrest hrun
    · simp

/-- A dry run of a switch does not come to what is after a case that leaves it. -/
theorem tellCases_leaves {b b' : Body σ} {pre post : List (Case Stmt × String)} {c : Case Stmt}
    {pattern : String} (hpre : ∀ c' ∈ pre, b c'.1.body = b' c'.1.body) (hc : b c.body = b' c.body)
    (hleaves : ∀ t signal v, (b c.body).run t = some (.ok signal, v) → ¬StaysInSwitch signal) :
    r.LeaveAlike b b' (pre ++ (c, pattern) :: post) s := by
  induction pre generalizing s with
  | nil =>
    refine .cons hc fun hrun => ?_
    obtain ⟨t, signal, v, hbody, hstays⟩ := stays_of_once hrun
    exact absurd hstays (hleaves t signal v hbody)
  | cons head pre ih =>
    obtain ⟨hhead, hpre⟩ := List.forall_mem_cons.mp hpre
    exact .cons hhead fun _ => ih hpre

/-- After a case that leaves the switch no case is entered. -/
theorem enters_of_leaves (hdry : r.machine.isDryRun = true) {line : Line} {options : SwitchOptions}
    {cases pre post : List (Case Stmt)} {c : Case Stmt} {otherwise : Option (List Stmt)}
    {ss : List Stmt} {t u : Session σ} (hcases : cases = pre ++ c :: post)
    (hdispatch : r.Dispatches (.switch line options cases otherwise) s u)
    (hleaves : ∀ t signal v, (r.exec n c.body).run t = some (.ok signal, v) →
      ¬StaysInSwitch signal)
    (h : r.Enters n (.switch line options cases otherwise) s ss t) :
    ss ∈ (pre ++ [c]).map (·.body) := by
  obtain ⟨body, hbody, hne⟩ := h
  refine Classical.byContradiction fun hnot => hne ?_
  -- up to the end of that case the body does the same
  have hsame : ∀ inner ∈ (pre ++ [c]).map (·.body), r.exec n inner = body inner :=
    fun inner hinner => funext fun v => (hbody inner v fun h => hnot (h.1 ▸ hinner)).symm
  obtain ⟨told, v, htold, hrun⟩ := switch_dry hdry n options cases otherwise u
  rw [hcases, List.map_append] at htold
  obtain ⟨before, after, rfl, hbefore, hafter⟩ := List.map_eq_append_iff.mp htold
  obtain ⟨⟨c', pattern⟩, rest, rfl, hc', -⟩ := List.map_eq_cons_iff.mp hafter
  dsimp only at hc'
  rw [List.map_append] at hsame
  obtain ⟨hpre, hlast⟩ := List.forall_mem_append.mp hsame
  have hleave : r.LeaveAlike (r.exec n) body (before ++ (c', pattern) :: rest) v :=
    tellCases_leaves (fun c'' hc'' => hpre _ (hbefore ▸ List.mem_map_of_mem hc''))
      (hlast _ (List.mem_singleton.mpr hc')) (hc' ▸ hleaves)
  obtain ⟨htell, hsignal⟩ := hleave
  rw [run_stmt (x := .switch line options cases otherwise) hdispatch.1 hdispatch.2,
    run_stmt (x := .switch line options cases otherwise) hdispatch.1 hdispatch.2]
  refine congrArg (Option.map _) ?_
  change (r.switch n body options cases otherwise).run u =
    (r.switch n (r.exec n) options cases otherwise).run u
  rw [hrun, hrun]
  unfold tellBodies
  rw [Run.run_bind, Run.run_bind, ← htell]
  cases hresult : (r.tellCases (r.exec n) (before ++ (c', pattern) :: rest)).run v with
  | none => rw [Option.bind_none, Option.bind_none]
  | some result =>
    rw [Option.bind_some, Option.bind_some]
    obtain ⟨e | (- | signal), w⟩ := result
    · rfl
    · exact absurd hresult (hsignal w)
    · rfl

/-! ## Cases of a run -/

/-- A run comes to the first line of a list that is no comment and no blank line. -/
theorem Reaches.first_visible {start : Point σ} {around : List (Activation σ)} {ss : List Stmt}
    {x : Stmt} (h : r.Reaches start ⟨around, n + 1, ss, s⟩)
    (hx : ss.find? (fun y => !y.line.kind.isSkipped) = some x) :
    ∃ rest, r.Reaches start ⟨around, n + 1, x :: rest, s⟩ := by
  induction ss with
  | nil => cases hx
  | cons y ss ih =>
    cases hkind : y.line.kind.isSkipped with
    | false =>
      rw [List.find?_cons_of_pos (by simp [hkind])] at hx
      cases hx
      exact ⟨ss, h⟩
    | true =>
      rw [List.find?_cons_of_neg (by simp [hkind])] at hx
      exact ih (h.next (run_stmt_skipped hkind)) hx

/-- A dry run goes through the cases of a switch. It begins if validation finds no error,
    and ends. Take a switch that is dispatched anywhere in it, such that neither the lines
    of the switch nor those of the functions include a file or call what is not there, and
    such that those of other files have no fault of their own, for these are not validated.
    Then each case and the default is entered, and its first line is dispatched, if those
    before it end by themselves or with a break, but not with an exit or a return. -/
theorem dry_switch_enters_cases (hr : r.Unhindered) {files : List (String × String)}
    (hfiles : r.ReadsOnly files) {script : Script} (hbegins : r.Begins script s) :
    ∃ enough, ∀ fuel ≥ enough, (∃ report t, r.execute fuel script s = some (report, t)) ∧
      ∀ (around : List (Activation σ)) (n : Nat) (line : Line) (options : SwitchOptions)
        (cases : List (Case Stmt)) (otherwise : Option (List Stmt)) (rest : List Stmt)
        (u v : Session σ),
        let x := Stmt.switch line options cases otherwise
        r.Reaches (r.beginning fuel script s) ⟨around, n + 1, x :: rest, u⟩ →
        r.Dispatches x u v →
        (∀ y ∈ x.nodes ++ u.functions.flatMap (Stmt.nodesAll ·.body),
          y.SelfContained u.functions ∧ (y ∉ script.nodes → y.Readable)) →
        ∀ (pre : List (List Stmt)) (ss : List Stmt) (post : List (List Stmt)),
          cases.map (·.body) ++ otherwise.toList = pre ++ ss :: post →
          (∀ inner ∈ pre, ∀ t signal w, r.Enters n x u inner t →
            (r.exec n inner).run t = some (.ok signal, w) → StaysInSwitch signal) →
          ∃ t, r.Enters n x u ss t ∧
            ∀ y, ss.find? (fun z => !z.line.kind.isSkipped) = some y → ∃ rest' w,
              r.Reaches (r.beginning fuel script s) ⟨⟨x, u⟩ :: around, n, y :: rest', t⟩ ∧
              r.Dispatches y t w := by
  have hvalid : script.Valid s.scope := by
    unfold Begins findings at hbegins
    rwa [hr.rehearses.isDryRun, if_pos rfl] at hbegins
  obtain ⟨⟨out, t⟩, enough, hruns⟩ := exec_outcome (r := r) hr.rehearses.isDryRun hfiles
    (s := r.beginScript script s) (Conduct.finite_knows files) script.body
  refine ⟨enough, fun fuel hfuel => ⟨⟨_, _, execute_of_begins hbegins (hruns fuel hfuel)⟩, ?_⟩⟩
  intro around n line options cases otherwise rest u v x hreach hdispatch hlines pre ss post
    hbodies hstays
  have hsound : ∀ y ∈ x.nodes ++ u.functions.flatMap (Stmt.nodesAll ·.body),
      y.Sound u.functions := by
    intro y hy
    obtain ⟨hcontained, hforeign⟩ := hlines y hy
    refine ⟨?_, hcontained⟩
    by_cases hscript : y ∈ script.nodes
    · exact hvalid.readable hscript
    · exact hforeign hscript
  obtain ⟨hnodes, hfunctions⟩ := List.forall_mem_append.mp hsound
  have hends : ((r.exec (n + 1) (x :: rest)).run u).isSome = true := by
    refine hreach.ends ?_
    rw [beginning, hruns fuel hfuel]
    rfl
  -- no list that the switch enters fails
  have hsucceeds : ∀ {inner t e w}, r.Enters n x u inner t →
      (r.exec n inner).run t ≠ some (.error e, w) := by
    intro inner t e w henter
    have hstart : r.Reaches ⟨[], n + 1, [x], u⟩ ⟨[⟨x, u⟩], n, inner, t⟩ := .inside .start henter
    refine exec_succeeds hr (fun f hf y hy => ?_) (fun y hy => ?_) rfl hstart
    · exact hfunctions y (List.mem_flatMap.mpr ⟨f, hf, hy⟩)
    · exact hnodes y (by simpa [Stmt.nodesAll] using hy)
  obtain ⟨t, henter⟩ := switch_enters hr.rehearses.isDryRun hdispatch (isSome_run_of_bind hends)
    hbodies fun inner hinner t henter out w hrun => by
      cases out with
      | error e => exact absurd hrun (hsucceeds henter)
      | ok signal => exact ⟨signal, rfl, hstays inner hinner t signal w henter hrun⟩
  refine ⟨t, henter, fun y hy => ?_⟩
  have hinside := hreach.inside henter
  cases n with
  | zero => cases hinside.ends (by rw [beginning, hruns fuel hfuel]; rfl)
  | succ n =>
    obtain ⟨rest', hfirst⟩ := hinside.first_visible hy
    obtain ⟨w, hw⟩ := approach_ends hr (s := t) y
    have hvisible : y.line.kind.isSkipped = false := by simpa using List.find?_some hy
    exact ⟨rest', w, hfirst, hvisible, hw⟩

/-- A switch whose first case is one line, and whose second case types a text. -/
def twoCases (text : String) (a : Action) : Script where
  body := [choice]
  functions := []
  summary := ⟨6, 1, 5, 0, 0, 0, [], []⟩
where
  typed : Stmt := .plain ⟨5, "hello", "hello", "hello", .text, none⟩
  cases : List (Case Stmt) :=
    [⟨"a", 2, 3, [.action ⟨3, text, text, text, .directive, none⟩ a]⟩, ⟨"b", 4, 5, [typed]⟩]
  choice : Stmt :=
    .switch ⟨1, "<switch>", "<switch>", "<switch>", .directive, none⟩ ⟨none, none⟩ cases none

theorem stays_of_break {line : Line} {signal : Option Signal} {s t : Session (List String)}
    (hkind : line.kind.isSkipped = false)
    (h : (rehearser.exec n [.action line .doBreak]).run s = some (.ok signal, t)) :
    StaysInSwitch signal := by
  obtain ⟨_, _, _, _, _, _, _, _, depth, _, _⟩ := s
  cases n with
  | zero => cases h
  | succ n =>
    rw [exec, stmts, Run.run_bind, run_stmt (x := .action line .doBreak) hkind rfl] at h
    cases depth with
    | zero =>
      cases h
      exact .inl rfl
    | succ depth =>
      cases h
      exact .inr rfl

/-- A break in the first case does not keep a dry run from the second. -/
theorem dry_switch_enters_cases_break :
    let script := twoCases "<break>" .doBreak
    let begin := fun fuel => rehearser.beginning fuel script (.start .empty [])
    Script.parse 0 .empty
      "<switch>\n<case \"a\">\n<break>\n<case \"b\">\nhello\n<end-switch>" =
        (.ok script, .empty) ∧
    ∃ enough, ∀ n ≥ enough, ∃ t u,
      rehearser.Reaches (begin (n + 1)) ⟨[⟨twoCases.choice "<break>" .doBreak,
        (begin (n + 1)).session⟩], n, [twoCases.typed], t⟩ ∧
      rehearser.Dispatches twoCases.typed t u := by
  intro script begin
  have hparse : Script.parse 0 .empty
      "<switch>\n<case \"a\">\n<break>\n<case \"b\">\nhello\n<end-switch>" =
        (.ok script, .empty) := by
    with_unfolding_all rfl
  have hunhindered : rehearser.Unhindered :=
    ⟨DryRun.machine_rehearses _ _, rfl, fun d hd => nomatch hd⟩
  have hbegins : rehearser.Begins script (.start .empty []) := by
    have hissues : rehearser.findings script (.start .empty []) = [] := by
      decide +kernel
    simp [Begins, hissues]
  have hlines : ∀ y ∈ (twoCases.choice "<break>" .doBreak).nodes ++ [],
      y.SelfContained [] ∧ (y ∉ script.nodes → y.Readable) := by
    intro y hy
    rw [List.append_nil] at hy
    refine ⟨⟨?_, ?_⟩, absurd (List.mem_append_left _ ?_)⟩
    · rintro line path rfl
      simp [twoCases.choice, twoCases.cases, twoCases.typed, Stmt.nodes, Stmt.nodesCases] at hy
    · rintro line name args rfl
      simp [twoCases.choice, twoCases.cases, twoCases.typed, Stmt.nodes, Stmt.nodesCases] at hy
    · simpa [script, twoCases] using hy
  obtain ⟨enough, hwalks⟩ := dry_switch_enters_cases hunhindered
    (readsOnly_texts fun _ => rfl) hbegins
  refine ⟨hparse, enough, fun n hn => ?_⟩
  obtain ⟨t, henter, hfirst⟩ := (hwalks (n + 1) (Nat.le_succ_of_le hn)).2 [] n _ _ _ _ [] _ _
    .start ⟨rfl, rfl⟩ hlines [_] [twoCases.typed] [] rfl (by
      intro inner hinner t signal w _ hrun
      cases List.mem_singleton.mp hinner
      exact stays_of_break rfl hrun)
  obtain ⟨rest, u, -, hdispatch⟩ := hfirst _ rfl
  exact ⟨t, u, .inside .start henter, hdispatch⟩

/-- An exit in the first case does: the dry run ends without an error, and has neither
    told of the second case nor entered it. -/
theorem exit_hides_cases :
    let script := twoCases "<exit 0>" (.exit 0)
    let start : Session (List String) := .start .empty []
    let begin := rehearser.beginning 5 script start
    Script.parse 0 .empty
      "<switch>\n<case \"a\">\n<exit 0>\n<case \"b\">\nhello\n<end-switch>" =
        (.ok script, .empty) ∧
    script.validate .empty = [] ∧ rehearser.settings.timeout = none ∧
    (∃ report t, rehearser.execute 5 script start = some (report, t) ∧
      report.success = true ∧ report.linesExecuted = 2 ∧
      t.world = ["case \"a\"", "switch over 2 cases (up to 30s)"]) ∧
    ∃ x v, begin.next = [x] ∧ x = twoCases.choice "<exit 0>" (.exit 0) ∧
      rehearser.Dispatches x begin.session v ∧
      ∀ t, ¬rehearser.Enters 4 x begin.session [twoCases.typed] t := by
  intro script start begin
  have hreport : (rehearser.execute 5 script start).map (fun result =>
      (result.1.success, result.1.linesExecuted, result.2.world)) =
        some (true, 2, ["case \"a\"", "switch over 2 cases (up to 30s)"]) := by
    decide +kernel
  obtain ⟨⟨report, t⟩, hrun, heq⟩ := Option.map_eq_some_iff.mp hreport
  simp only [Prod.mk.injEq] at heq
  refine ⟨by with_unfolding_all rfl, by decide +kernel, rfl, ⟨report, t, hrun, heq⟩,
    _, _, rfl, rfl, ⟨rfl, rfl⟩, ?_⟩
  intro t henter
  have hexits : ∀ t signal v, (rehearser.exec 4
      [.action ⟨3, "<exit 0>", "<exit 0>", "<exit 0>", .directive, none⟩ (.exit 0)]).run t =
        some (.ok signal, v) → ¬StaysInSwitch signal := by
    rintro t signal v hrun (rfl | rfl) <;> cases hrun
  have hcases : twoCases.cases "<exit 0>" (.exit 0) = [] ++ _ :: _ := rfl
  have hfirst := enters_of_leaves rfl hcases ⟨rfl, rfl⟩ hexits henter
  cases List.mem_singleton.mp hfirst

end ConsoleScript.Runner
