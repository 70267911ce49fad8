-- SUMMARY: Statements that are alike run side by side, unless an exit inside of one of them ends it.
import ConsoleScript.Proofs.Run.Following
import ConsoleScript.Run.Exec

/-!
# Running in lockstep

Two statements that become the same by a faithful change of lines do the same, given
two bodies that do the same for what is alike. Where the first body ends in an exit of
its own, the statement around it does so too: there is no construct that catches an
exit, goes on after it or changes the world. Each kind of statement is walked through
once, for both uses: with no exits, two scripts that are alike run alike; with the same
script on both sides, an exit passes through every statement around it.
-/

namespace ConsoleScript

namespace Runner

open Run (Follows Blind)
open Stmt (AlikeAll)

variable {σ : Type} {r : Runner σ} {f : Line → Line} {E : Int → Progress σ → Prop}
  {body body' : Body σ} {s s' : Session σ} {ss ss' : List Stmt}

/-- The bodies do the same for what is alike, or the first one exits. -/
def BodiesFollow (f : Line → Line) (E : Int → Progress σ → Prop) (body body' : Body σ) : Prop :=
  ∀ {ss ss' : List Stmt} {s s' : Session σ}, AlikeAll f ss ss' → s.Alike f s' →
    Follows f E (body ss) (body' ss') s s'

theorem breakable_follows (h : BodiesFollow f E body body') (hss : AlikeAll f ss ss')
    (hs : s.Alike f s') : Follows f E (breakable body ss) (breakable body' ss') s s' := by
  refine Follows.framed (h hss ?_) (fun t t' ht => ?_) fun t => rfl
  · exact congrArg (fun u : Session σ => { u with loopDepth := u.loopDepth + 1 }) hs
  · exact congrArg (fun u : Session σ => { u with loopDepth := u.loopDepth - 1 }) ht

theorem once_follows (h : BodiesFollow f E body body') (hss : AlikeAll f ss ss')
    (hs : s.Alike f s') : Follows f E (once body ss) (once body' ss') s s' :=
  (breakable_follows h hss hs).bind (fun _ => rfl) fun _ _ _ ht => .pure ht _

/-! ## Conditions -/

theorem branch_follows (h : BodiesFollow f E body body') (fuel : Nat) (c : Condition)
    {yes yes' no no' : List Stmt} (hyes : AlikeAll f yes yes') (hno : AlikeAll f no no')
    (hs : s.Alike f s') :
    Follows f E (r.branch fuel body c yes no) (r.branch fuel body' c yes' no') s s' := by
  have hempty : no.isEmpty = no'.isEmpty := by
    simpa using congrArg List.isEmpty hno
  refine .after (expand_blind c.text) hs fun text t t' ht => ?_
  dsimp only
  split
  · refine .after (narrate_blind _) ht fun _ u u' hu => ?_
    refine (h hyes hu).bind (fun _ => rfl) fun signal w w' hw => ?_
    cases signal with
    | some signal => exact .pure hw _
    | none =>
      dsimp only
      rw [hempty]
      split
      · exact .after (narrate_blind _) hw fun _ _ _ hlast => h hno hlast
      · exact h hno hw
  · refine .after clockTime_blind ht fun start u u' hu => ?_
    refine .after (pollFor_blind text c.timeout start fuel) hu fun found w w' hw => ?_
    split
    · exact h hyes hw
    · exact h hno hw

/-! ## Loops -/

theorem retry_follows (h : BodiesFollow f E body body') (hss : AlikeAll f ss ss')
    (hs : s.Alike f s') (total left : Nat) :
    Follows f E (r.retry body ss total left) (r.retry body' ss' total left) s s' := by
  induction left generalizing s s' with
  | zero => exact .pure hs _
  | succ left ih =>
    refine (breakable_follows h hss hs).attempt_bind (fun _ => rfl) fun out t t' ht => ?_
    cases out with
    | ok signal => exact .pure ht _
    | error e =>
      dsimp only
      split
      · exact .throw ht _
      · split
        · exact .throw ht _
        · exact .after (sleep_blind _) ht fun _ _ _ hu => ih hu

theorem repeatTimes_follows (h : BodiesFollow f E body body') (hss : AlikeAll f ss ss')
    (hs : s.Alike f s') (total left : Nat) :
    Follows f E (repeatTimes body ss total left) (repeatTimes body' ss' total left) s s' := by
  induction left generalizing s s' with
  | zero => exact .pure hs _
  | succ left ih =>
    refine (breakable_follows h hss hs).attempt_bind (fun _ => rfl) fun out t t' ht => ?_
    split
    · exact .pure ht _
    · exact .pure ht _
    · exact ih ht
    · split
      · exact .throw ht _
      · exact .throw ht _

theorem whileScreen_follows (h : BodiesFollow f E body body') (hss : AlikeAll f ss ss')
    (hs : s.Alike f s') (presence : Presence) (text : String) (timeout poll start : Duration)
    (fuel : Nat) :
    Follows f E (r.whileScreen body ss presence text timeout poll start fuel)
      (r.whileScreen body' ss' presence text timeout poll start fuel) s s' := by
  induction fuel generalizing s s' with
  | zero => exact .outOfFuel
  | succ fuel ih =>
    refine .after (probe_blind text) hs fun found t t' ht => ?_
    split
    · exact .pure ht _
    · have hround : Follows f E (if found.isSome then breakable body ss else pure none)
          (if found.isSome then breakable body' ss' else pure none) t t' := by
        split
        · exact breakable_follows h hss ht
        · exact .pure ht _
      refine hround.bind (fun _ => rfl) fun signal u u' hu => ?_
      cases signal with
      | some signal => exact .pure hu _
      | none =>
        refine .after (elapsedSince_blind start) hu fun elapsed w w' hw => ?_
        split
        · exact .throw hw _
        · exact .after (sleep_blind _) hw fun _ _ _ hlast => ih hlast

theorem loop_follows (h : BodiesFollow f E body body') (fuel : Nat) (l : Loop)
    (hss : AlikeAll f ss ss') (hs : s.Alike f s') :
    Follows f E (r.loop fuel body ss l) (r.loop fuel body' ss' l) s s' := by
  cases l with
  | retry attempts =>
    simp only [loop]
    split
    · exact .after (narrate_blind _) hs fun _ _ _ ht => once_follows h hss ht
    · exact retry_follows h hss hs attempts attempts
  | repeatTimes count =>
    simp only [loop]
    split
    · exact .after (narrate_blind _) hs fun _ _ _ ht => once_follows h hss ht
    · exact repeatTimes_follows h hss hs count count
  | whileScreen presence text timeout poll =>
    refine .after (expand_blind text) hs fun text t t' ht => ?_
    dsimp only
    split
    · exact .after (narrate_blind _) ht fun _ _ _ hu => once_follows h hss hu
    · refine .after clockTime_blind ht fun start u u' hu => ?_
      exact whileScreen_follows h hss hu presence text timeout _ start fuel

/-! ## Switches -/

theorem tellCases_follows (h : BodiesFollow f E body body') {cs cs' : List (Case Stmt × String)}
    (hcs : cs.map (Prod.map (Case.mapLines f) id) = cs'.map (Prod.map (Case.mapLines f) id))
    (hs : s.Alike f s') : Follows f E (r.tellCases body cs) (r.tellCases body' cs') s s' := by
  induction cs generalizing cs' s s' with
  | nil =>
    obtain rfl := List.map_eq_nil_iff.mp hcs.symm
    exact .pure hs _
  | cons head rest ih =>
    obtain ⟨⟨c', pattern'⟩, rest', rfl, hhead, hrest⟩ := List.map_eq_cons_iff.mp hcs.symm
    obtain ⟨c, pattern⟩ := head
    obtain ⟨hc, rfl⟩ := Prod.mk.inj hhead
    have hbody : AlikeAll f c.body c'.body := congrArg Case.body hc.symm
    refine .after (narrate_blind _) hs fun _ t t' ht => ?_
    refine (once_follows h hbody ht).bind (fun _ => rfl) fun signal u u' hu => ?_
    cases signal with
    | some signal => exact .pure hu _
    | none => exact ih hrest.symm hu

theorem switch_follows (h : BodiesFollow f E body body') (fuel : Nat) (options : SwitchOptions)
    {cases cases' : List (Case Stmt)} {otherwise otherwise' : Option (List Stmt)}
    (hcases : cases.map (Case.mapLines f) = cases'.map (Case.mapLines f))
    (hotherwise : otherwise.map (List.map (Stmt.mapLines f)) =
      otherwise'.map (List.map (Stmt.mapLines f))) (hs : s.Alike f s') :
    Follows f E (r.switch fuel body options cases otherwise)
      (r.switch fuel body' options cases' otherwise') s s' := by
  have hpatterns : cases.map (·.pattern) = cases'.map (·.pattern) := by
    simpa [Function.comp_def, Case.mapLines] using congrArg (List.map (·.pattern)) hcases
  have hlength : cases.length = cases'.length := by
    simpa using congrArg List.length hcases
  unfold switch
  dsimp only
  rw [hpatterns, hlength]
  refine .after (expandAll_blind _) hs fun patterns t t' ht => ?_
  split
  · refine .after (narrate_blind _) ht fun _ u u' hu => ?_
    have hzip : (cases.zip patterns).map (Prod.map (Case.mapLines f) id) =
        (cases'.zip patterns).map (Prod.map (Case.mapLines f) id) := by
      rw [← List.zip_map_left, ← List.zip_map_left, hcases]
    refine (tellCases_follows h hzip hu).bind (fun _ => rfl) fun signal w w' hw => ?_
    cases signal with
    | some signal => exact .pure hw _
    | none =>
      obtain ⟨rfl, rfl⟩ | ⟨ss, ss', rfl, rfl, hss⟩ := option_map_eq_map hotherwise
      · exact .pure hw _
      · exact .after (narrate_blind _) hw fun _ _ _ hlast => once_follows h hss hlast
  · refine .after clockTime_blind ht fun start u u' hu => ?_
    refine .after (pollCases_blind _ _ _ _ _) hu fun hit w w' hw => ?_
    have hhit : (hit.bind (cases[·]?)).map (Case.mapLines f) =
        (hit.bind (cases'[·]?)).map (Case.mapLines f) := by
      simp only [Option.map_bind, Function.comp_def, ← List.getElem?_map, hcases]
    obtain ⟨hnone, hnone'⟩ | ⟨c, c', hsome, hsome', hc⟩ := option_map_eq_map hhit
    · rw [hnone, hnone']
      obtain ⟨rfl, rfl⟩ | ⟨ss, ss', rfl, rfl, hss⟩ := option_map_eq_map hotherwise
      · exact .pure hw _
      · exact once_follows h hss hw
    · rw [hsome, hsome']
      exact once_follows h (congrArg Case.body hc) hw

/-! ## Calls and files -/

theorem enterFunction_follows (h : BodiesFollow f E body body') (call : Call)
    (hss : AlikeAll f ss ss') (hs : s.Alike f s') :
    Follows f E (enterFunction body call ss) (enterFunction body' call ss') s s' := by
  refine Follows.bind (Follows.framed (h hss ?_) (fun t t' ht => ?_) fun t => rfl) (fun _ => rfl)
    fun _ _ _ hu => .pure hu _
  · exact congrArg (Session.inCall · call) hs
  · have hscope : s.scope = s'.scope := hs.view Session.scope fun _ => rfl
    have hdepth : s.loopDepth = s'.loopDepth := hs.view Session.loopDepth fun _ => rfl
    rw [hscope, hdepth]
    exact congrArg (fun u : Session σ => { u with
      scope := s'.scope, loopDepth := s'.loopDepth, calls := u.calls.tail }) ht

theorem invoke_follows (h : BodiesFollow f E body body') (call : Call)
    (hss : AlikeAll f ss ss') (hs : s.Alike f s') :
    Follows f E (r.invoke body call ss) (r.invoke body' call ss') s s' := by
  unfold invoke
  split
  · refine .after (narrate_blind _) hs fun _ t t' ht => ?_
    have hcalls : t.calls = t'.calls := ht.view Session.calls fun _ => rfl
    apply Follows.get
    rw [hcalls]
    split
    · exact .after_pure (narrate_blind _) ht
    · exact enterFunction_follows h call hss ht
  · exact enterFunction_follows h call hss hs

theorem call_follows (h : BodiesFollow f E body body') (line : Nat) (name : String)
    (args : List String) (hs : s.Alike f s') :
    Follows f E (r.call body line name args) (r.call body' line name args) s s' := by
  have hfind : (s.functions.find? (·.name == name)).map (Function.mapLines f) =
      (s'.functions.find? (·.name == name)).map (Function.mapLines f) := by
    rw [← Function.find?_mapLines, ← Function.find?_mapLines, (Session.alike_iff.mp hs).2]
  apply Follows.get
  obtain ⟨hnone, hnone'⟩ | ⟨fn, fn', hsome, hsome', hfn⟩ := option_map_eq_map hfind
  · rw [hnone, hnone']
    exact .throw hs _
  · rw [hsome, hsome']
    refine .after (expandAll_blind args) hs fun outs t t' ht => ?_
    exact invoke_follows h _ (congrArg Function.body hfn) ht

theorem enterFile_follows (h : BodiesFollow f E body body') (path key : String)
    (hss : AlikeAll f ss ss') (hs : s.Alike f s') :
    Follows f E (enterFile body path key ss) (enterFile body' path key ss') s s' := by
  refine Follows.bind (Follows.framed (h hss ?_) (fun t t' ht => ?_) fun t => rfl) (fun _ => rfl)
    fun _ _ _ hu => .pure hu _
  · exact congrArg (Session.inFile · path key) hs
  · have hdir : s.baseDir = s'.baseDir := hs.view Session.baseDir fun _ => rfl
    have hdepth : s.loopDepth = s'.loopDepth := hs.view Session.loopDepth fun _ => rfl
    rw [hdir, hdepth]
    exact congrArg (fun u : Session σ => { u with
      baseDir := s'.baseDir, loopDepth := s'.loopDepth, includes := u.includes.tail }) ht

/-- A file is parsed in the scope of the run, which is the same on both sides. -/
theorem includeFile_follows (h : BodiesFollow f E body body') (path : String)
    (hs : s.Alike f s') :
    Follows f E (r.includeFile body path) (r.includeFile body' path) s s' := by
  refine .after (expand_blind path) hs fun path t t' ht => ?_
  apply Follows.get
  obtain ⟨functions, rfl⟩ : ∃ functions, t' = { t with functions } :=
    ⟨_, (Session.alike_iff.mp ht).1.symm⟩
  have hfunctions := (Session.alike_iff.mp ht).2
  dsimp only
  split
  · exact .throw ht _
  · split
    · exact .throw ht _
    · split
      · exact .throw ht _
      · next script _ =>
        have hadded : Session.Alike f { t with functions := script.functions ++ t.functions }
            { t with functions := script.functions ++ functions } := by
          refine Session.alike_iff.mpr ⟨rfl, ?_⟩
          simp only [List.map_append, hfunctions]
        refine Follows.of_run_eq (Run.run_modify_bind _ _) (Run.run_modify_bind _ _) ?_
        exact enterFile_follows h _ _ rfl hadded

/-! ## Statements -/

theorem action_follows (h : BodiesFollow f E body body') (fuel line : Nat) (a : Action)
    (hs : s.Alike f s') :
    Follows f E (r.action fuel body line a) (r.action fuel body' line a) s s' := by
  cases a with
  | key name =>
    simp only [action]
    split
    · exact .throw hs _
    · exact .after_pure (operate_blind _) hs
  | watch text timeout =>
    refine .after (expand_blind text) hs fun text t t' ht => ?_
    dsimp only
    split
    · exact .after_pure (narrate_blind _) ht
    · exact .after_pure (watch_blind _ _ _) ht
  | console number => exact .after_pure (operate_blind _) hs
  | wait duration => exact .after_pure (sleep_blind duration) hs
  | exit code => exact .pure hs _
  | endIf => exact .pure hs _
  | doReturn => exact .pure hs _
  | doBreak =>
    refine .after isDebugging_blind hs fun debugging t t' ht => ?_
    have hdepth : t.loopDepth = t'.loopDepth := ht.view Session.loopDepth fun _ => rfl
    apply Follows.get
    rw [hdepth]
    split
    · exact .pure ht _
    · exact .pure ht _
  | includeFile path => exact includeFile_follows h path hs
  | screenshot path format =>
    refine .after (expand_blind path) hs fun path t t' ht => ?_
    exact .after_pure (operate_blind _) ht
  | call name args => exact call_follows h line name args hs
  | bind name value =>
    refine .after (expand_blind value) hs fun value t t' ht => ?_
    exact .after_pure (bind_blind name value) ht

theorem plain_follows (hf : Line.Faithful f) {line line' : Line} (hline : f line = f line')
    (hs : s.Alike f s') : Follows f E (r.plain line) (r.plain line') s s' := by
  unfold plain
  rw [hf.kind_eq hline, hf.trimmed_eq hline]
  cases line'.kind with
  | text =>
    refine .after (expand_blind _) hs fun text t t' ht => ?_
    exact .after_pure (operate_blind _) ht
  | assignment => exact .after_pure (assign_blind _) hs
  | directive => exact .throw hs _
  | conditional => exact .throw hs _
  | comment => exact .pure hs _
  | blank => exact .pure hs _

theorem dispatch_follows (hf : Line.Faithful f) (h : BodiesFollow f E body body') (fuel : Nat)
    {x x' : Stmt} (hx : x.Alike f x') (hs : s.Alike f s') :
    Follows f E (r.dispatch fuel body x) (r.dispatch fuel body' x') s s' := by
  cases hx with
  | plain hline => exact plain_follows hf hline hs
  | @action l l' a hline =>
    simp only [dispatch, hf.number_eq hline]
    exact action_follows h fuel l'.number a hs
  | loop hline hbody => exact loop_follows h fuel _ hbody hs
  | branch hline hyes hno => exact branch_follows h fuel _ hyes hno hs
  | switch hline hcases hotherwise => exact switch_follows h fuel _ hcases hotherwise hs

/-- The debugger is asked the same about statements that are alike. -/
def ConsultsAlike (r : Runner σ) (f : Line → Line) : Prop :=
  ∀ {x x' : Stmt}, x.mapLines f = x'.mapLines f → r.consult x.entry = r.consult x'.entry

theorem approach_blind (x : Stmt) : Blind (r.approach x) :=
  checkDeadline_blind.bind fun _ => Blind.bind (fun _ _ => rfl) fun _ => consult_blind _

/-- A line that runs to its end is counted. -/
theorem counted_follows {x y : Run σ (Option Signal)} (h : Follows f E x y s s') :
    let count : Run σ Unit :=
      modify fun session => { session with linesExecuted := session.linesExecuted + 1 }
    Follows f (fun code p => ∃ q, E code q ∧ p = q.counted)
      (x >>= fun signal => count >>= fun _ => pure signal)
      (y >>= fun signal => count >>= fun _ => pure signal) s s' := by
  intro count
  cases h with
  | exits hx hE => exact .exits (Run.run_bind_ok hx _) ⟨_, hE, rfl⟩
  | starves hx hy => exact .starves (by simp [Run.run_bind, hx]) (by simp [Run.run_bind, hy])
  | @ends out t t' hx hy halike =>
    cases out with
    | error e => exact .ends (Run.run_bind_error hx _) (Run.run_bind_error hy _) halike
    | ok signal =>
      refine .ends (Run.run_bind_ok hx _) (Run.run_bind_ok hy _) ?_
      exact congrArg (fun u : Session σ => { u with linesExecuted := u.linesExecuted + 1 }) halike

/-- Statements that are alike do the same, or an exit inside of the first one ends it. The
    world is then as the exit left it, and one more line has run. -/
theorem stmt_follows (hf : Line.Faithful f) (hconsult : r.ConsultsAlike f)
    (h : BodiesFollow f E body body') (fuel : Nat) {x x' : Stmt}
    (hx : x.mapLines f = x'.mapLines f) (hs : s.Alike f s') :
    Follows f (fun code p => ∃ q, E code q ∧ p = q.counted) (r.stmt fuel body x)
      (r.stmt fuel body' x') s s' := by
  have hline : f x.line = f x'.line := by
    simpa using congrArg Stmt.line hx
  have happroach : r.approach x = r.approach x' := by
    simp only [approach, hf.number_eq hline, hconsult hx]
  unfold stmt
  rw [hf.kind_eq hline, happroach, hf.number_eq hline]
  split
  · exact .pure hs _
  · refine .after (approach_blind x') hs fun _ t t' ht => ?_
    exact counted_follows (dispatch_follows hf h fuel (Stmt.alike_of_mapLines_eq hx) ht).positioned

theorem stmts_follows {one one' : Stmt → Run σ (Option Signal)}
    (h : ∀ {x x' : Stmt} {t t' : Session σ}, x.mapLines f = x'.mapLines f → t.Alike f t' →
      Follows f E (one x) (one' x') t t') (hss : AlikeAll f ss ss') (hs : s.Alike f s') :
    Follows f E (stmts one ss) (stmts one' ss') s s' := by
  induction ss generalizing ss' s s' with
  | nil =>
    obtain rfl := List.map_eq_nil_iff.mp hss.symm
    exact .pure hs _
  | cons x rest ih =>
    obtain ⟨x', rest', rfl, hx, hrest⟩ := List.map_eq_cons_iff.mp hss.symm
    refine (h hx.symm hs).bind (fun _ => rfl) fun signal t t' ht => ?_
    cases signal with
    | some signal => exact .pure ht _
    | none => exact ih hrest.symm ht

/-- Lists of statements that are alike do the same. -/
theorem exec_follows (hf : Line.Faithful f) (hconsult : r.ConsultsAlike f) (fuel : Nat) :
    BodiesFollow f (fun _ _ => False) (r.exec fuel) (r.exec fuel) := by
  induction fuel with
  | zero => exact fun _ _ => .outOfFuel
  | succ fuel ih =>
    intro ss ss' s s' hss hs
    refine stmts_follows (fun {x x' t t'} hx ht => ?_) hss hs
    cases stmt_follows hf hconsult ih fuel hx ht with
    | exits _ hexit =>
      obtain ⟨q, hfalse, -⟩ := hexit
      exact hfalse.elim
    | starves hx hy => exact .starves hx hy
    | ends hx hy halike => exact .ends hx hy halike

end Runner

end ConsoleScript
