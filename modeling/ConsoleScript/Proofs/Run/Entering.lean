-- SUMMARY: A statement depends on the lists inside it only through those that it enters.
import ConsoleScript.Proofs.Run.Reachable

/-!
# Entering

A statement gets the body as a function, and could look at it anywhere. It does not:
what it does with two bodies is the same unless they differ for a list that it enters
(`exists_enters_of_ne`). So whatever is known of the lists that a statement enters may
be taken to hold of all lists (`exists_body_of_enters`).

The proof is along the text of a statement. A computation with a body is *sequential*
if it runs lists one after the other: where it runs a list that does not end it does
not end, and where that is stopped it is stopped, as nothing catches this error.
-/

namespace ConsoleScript.Runner

variable {σ α β : Type} {r : Runner σ}

/-! ## Sequential computations -/

/-- The bodies do the same, but for `ss` in `t`. -/
def SameBut (ss : List Stmt) (t : Session σ) (b c : Body σ) : Prop :=
  ∀ ss' u, ¬(ss' = ss ∧ u = t) → (b ss').run u = (c ss').run u

/-- With the body `b` the computation `X` comes to run `ss` in `t`: with another outcome
    there, it does not end if the list does not, and is stopped if that is stopped. -/
def RunsList (X : Body σ → Run σ α) (b : Body σ) (s : Session σ) (ss : List Stmt)
    (t : Session σ) : Prop :=
  ∀ c, SameBut ss t c b → ((c ss).run t = none → (X c).run s = none) ∧
    ∀ u, (c ss).run t = some (.error .stopped, u) → ∃ v, (X c).run s = some (.error .stopped, v)

/-- The computation does the same with two bodies, unless it comes to run a list for
    which they differ. -/
def Sequential (X : Body σ → Run σ α) : Prop :=
  ∀ b c s, (X c).run s = (X b).run s ∨
    ∃ ss t, RunsList X b s ss t ∧ (c ss).run t ≠ (b ss).run t

namespace Sequential

variable {X : Body σ → Run σ α} {F : Body σ → α → Run σ β} {b c : Body σ} {s t : Session σ}
  {ss : List Stmt}

theorem same_or_runs (hX : Sequential X) (h : SameBut ss t c b) :
    (X c).run s = (X b).run s ∨ RunsList X b s ss t := by
  rcases hX b c s with heq | ⟨ss', u, hruns, hne⟩
  · exact .inl heq
  · by_cases hplace : ss' = ss ∧ u = t
    · obtain ⟨rfl, rfl⟩ := hplace
      exact .inr hruns
    · exact absurd (h ss' u hplace) hne

theorem const (x : Run σ α) : Sequential fun _ => x :=
  fun _ _ _ => .inl rfl

theorem list (ss : List Stmt) : Sequential fun body : Body σ => body ss := by
  intro b c s
  by_cases heq : (c ss).run s = (b ss).run s
  · exact .inl heq
  · exact .inr ⟨ss, s, fun _ _ => ⟨id, fun u hu => ⟨u, hu⟩⟩, heq⟩

/-- `Y` goes on from the outcome of `X`, and passes on that it was stopped. -/
theorem andThen {Y : Body σ → Run σ β} {G : Body σ → Except RunError α → Run σ β}
    (hX : Sequential X) (hG : ∀ out, Sequential fun b => G b out)
    (hstopped : ∀ b t, ∃ v, (G b (.error .stopped)).run t = some (.error .stopped, v))
    (hrun : ∀ b s, (Y b).run s = ((X b).run s).bind fun (out, t) => (G b out).run t) :
    Sequential Y := by
  -- what comes after `X` cannot undo that a list in it does not end, or is stopped
  have hfirst : ∀ {b s ss t}, RunsList X b s ss t → RunsList Y b s ss t := by
    intro b s ss t hruns c hc
    obtain ⟨hnone, hstop⟩ := hruns c hc
    refine ⟨fun h => by rw [hrun, hnone h]; rfl, fun u h => ?_⟩
    obtain ⟨v, hv⟩ := hstop u h
    rw [hrun, hv]
    exact hstopped c v
  intro b c s
  rcases hX b c s with heq | ⟨ss, t, hruns, hne⟩
  · rw [hrun, hrun, heq]
    cases hb : (X b).run s with
    | none => exact .inl rfl
    | some result =>
      obtain ⟨out, u⟩ := result
      rcases hG out b c u with hsame | ⟨ss, t, hruns, hne⟩
      · exact .inl hsame
      · refine .inr ⟨ss, t, fun c' hc' => ?_, hne⟩
        -- `X` may run that list too
        rcases hX.same_or_runs (s := s) hc' with hsame | hearlier
        · rw [hrun, hsame, hb]
          exact hruns c' hc'
        · exact hfirst hearlier c' hc'
  · exact .inr ⟨ss, t, hfirst hruns, hne⟩

theorem bind (hX : Sequential X) (hF : ∀ a, Sequential fun b => F b a) :
    Sequential fun b => X b >>= F b := by
  refine hX.andThen (G := fun b out => Run.settle out >>= F b) (fun out => ?_)
    (fun _ t => ⟨t, rfl⟩) fun b s => ?_
  · cases out with
    | ok a => exact hF a
    | error e => exact const (throw e)
  · rw [Run.run_bind]
    cases (X b).run s with
    | none => rfl
    | some result =>
      obtain ⟨out, t⟩ := result
      cases out <;> rfl

theorem then_pure {f : α → β} (hX : Sequential X) :
    Sequential fun b => X b >>= fun a => pure (f a) :=
  hX.bind fun _ => const _

theorem attempt_bind {G : Body σ → Except RunError α → Run σ β} (hX : Sequential X)
    (hG : ∀ out, Sequential fun b => G b out)
    (hstopped : ∀ b, G b (.error .stopped) = throw .stopped) :
    Sequential fun b => Run.attempt (X b) >>= G b := by
  refine hX.andThen hG (fun b t => ⟨t, by rw [hstopped]; rfl⟩) fun b s => ?_
  rw [Run.run_bind, Run.run_attempt]
  cases (X b).run s <;> rfl

theorem positioned {line : Nat} (hX : Sequential X) :
    Sequential fun b => Run.positioned line (X b) := by
  refine hX.attempt_bind (fun out => ?_) fun _ => rfl
  cases out <;> exact const _

theorem framed {enter : Session σ → Session σ} {leave : Session σ → Session σ → Session σ}
    (hX : Sequential X) : Sequential fun b => Run.framed enter leave (X b) := by
  intro b c s
  simp only [RunsList, Run.run_framed]
  rcases hX b c (enter s) with heq | ⟨ss, t, hruns, hne⟩
  · exact .inl (by rw [heq])
  · refine .inr ⟨ss, t, fun c' hc' => ?_, hne⟩
    obtain ⟨hnone, hstop⟩ := hruns c' hc'
    refine ⟨fun h => by rw [hnone h]; rfl, fun u h => ?_⟩
    obtain ⟨v, hv⟩ := hstop u h
    exact ⟨leave s v, by rw [hv]; rfl⟩

end Sequential

/-! ## Where a list runs -/

namespace RunsList

variable {X : Body σ → Run σ α} {F : Body σ → α → Run σ β} {b : Body σ} {s t u : Session σ}
  {ss : List Stmt}

theorem here (b : Body σ) (ss : List Stmt) (s : Session σ) :
    RunsList (fun body => body ss) b s ss s :=
  fun _ _ => ⟨id, fun u hu => ⟨u, hu⟩⟩

/-- What is run in the first part is run in the whole. -/
theorem bind_first (h : RunsList X b s ss t) :
    RunsList (fun body => X body >>= F body) b s ss t := by
  intro c hc
  obtain ⟨hnone, hstop⟩ := h c hc
  refine ⟨fun hlist => by rw [Run.run_bind, hnone hlist, Option.bind_none], fun u hlist => ?_⟩
  obtain ⟨v, hv⟩ := hstop u hlist
  exact ⟨v, Run.run_bind_error hv _⟩

/-- What is run after the first part is run in the whole. -/
theorem bind_later {a : α} (hX : Sequential X) (hrun : (X b).run s = some (.ok a, u))
    (h : RunsList (fun body => F body a) b u ss t) :
    RunsList (fun body => X body >>= F body) b s ss t := by
  intro c hc
  -- the first part may run that list too
  rcases hX.same_or_runs (s := s) hc with hsame | hearlier
  · rw [Run.run_bind_ok (hsame.trans hrun)]
    exact h c hc
  · exact hearlier.bind_first c hc

theorem of_run_eq {Y : Body σ → Run σ α} (h : RunsList X b u ss t)
    (hrun : ∀ body, (Y body).run s = (X body).run u) : RunsList Y b s ss t := by
  intro c hc
  rw [hrun]
  exact h c hc

theorem positioned {line : Nat} (h : RunsList X b s ss t) :
    RunsList (fun body => Run.positioned line (X body)) b s ss t := by
  intro c hc
  obtain ⟨hnone, hstop⟩ := h c hc
  refine ⟨fun hlist => by rw [Run.run_positioned, hnone hlist, Option.map_none], fun u hlist => ?_⟩
  obtain ⟨v, hv⟩ := hstop u hlist
  exact ⟨v, by rw [Run.run_positioned, hv, Option.map_some]; rfl⟩

theorem framed {enter : Session σ → Session σ} {leave : Session σ → Session σ → Session σ}
    (h : RunsList X b (enter s) ss t) :
    RunsList (fun body => Run.framed enter leave (X body)) b s ss t := by
  intro c hc
  obtain ⟨hnone, hstop⟩ := h c hc
  refine ⟨fun hlist => by rw [Run.run_framed, hnone hlist, Option.map_none], fun u hlist => ?_⟩
  obtain ⟨v, hv⟩ := hstop u hlist
  exact ⟨leave s v, by rw [Run.run_framed, hv, Option.map_some]⟩

end RunsList

/-! ## Statements are sequential -/

open ConsoleScript.Runner.Sequential (const list)

theorem breakable_sequential (ss : List Stmt) :
    Sequential fun body : Body σ => breakable body ss :=
  (list ss).framed

theorem once_sequential (ss : List Stmt) : Sequential fun body : Body σ => once body ss :=
  (breakable_sequential ss).then_pure

theorem branch_sequential (fuel : Nat) (c : Condition) (yes no : List Stmt) :
    Sequential fun body => r.branch fuel body c yes no := by
  refine (const _).bind fun text => ?_
  dsimp only
  split
  · refine (const _).bind fun _ => (list yes).bind fun signal => ?_
    cases signal with
    | some signal => exact const _
    | none =>
      dsimp only
      split
      · exact (const _).bind fun _ => list no
      · exact list no
  · exact (const _).bind fun start => (const _).bind fun found => list _

theorem retry_sequential (ss : List Stmt) (total left : Nat) :
    Sequential fun body => r.retry body ss total left := by
  induction left with
  | zero => exact const _
  | succ left ih =>
    refine (breakable_sequential ss).attempt_bind (fun out => ?_) fun _ => rfl
    cases out with
    | ok signal => exact const _
    | error e =>
      dsimp only
      split
      · exact const _
      · split
        · exact const _
        · exact (const _).bind fun _ => ih

theorem repeatTimes_sequential (ss : List Stmt) (total left : Nat) :
    Sequential fun body : Body σ => repeatTimes body ss total left := by
  induction left with
  | zero => exact const _
  | succ left ih =>
    refine (breakable_sequential ss).attempt_bind (fun out => ?_) fun _ => rfl
    split
    · exact const _
    · exact const _
    · exact ih
    · exact const _

theorem whileScreen_sequential (ss : List Stmt) (presence : Presence) (text : String)
    (timeout poll start : Duration) (fuel : Nat) :
    Sequential fun body => r.whileScreen body ss presence text timeout poll start fuel := by
  induction fuel with
  | zero => exact const _
  | succ fuel ih =>
    refine (const _).bind fun found => ?_
    split
    · exact const _
    · apply Sequential.bind
      · split
        · exact breakable_sequential ss
        · exact const _
      · intro signal
        cases signal with
        | some signal => exact const _
        | none =>
          refine (const _).bind fun elapsed => ?_
          split
          · exact const _
          · exact (const _).bind fun _ => ih

theorem loop_sequential (fuel : Nat) (ss : List Stmt) (l : Loop) :
    Sequential fun body => r.loop fuel body ss l := by
  cases l with
  | retry attempts =>
    simp only [loop]
    split
    · exact (const _).bind fun _ => once_sequential ss
    · exact retry_sequential ss attempts attempts
  | repeatTimes count =>
    simp only [loop]
    split
    · exact (const _).bind fun _ => once_sequential ss
    · exact repeatTimes_sequential ss count count
  | whileScreen presence text timeout poll =>
    refine (const _).bind fun text => ?_
    dsimp only
    split
    · exact (const _).bind fun _ => once_sequential ss
    · exact (const _).bind fun start => whileScreen_sequential ss presence text _ _ start fuel

theorem tellCases_sequential (cases : List (Case Stmt × String)) :
    Sequential fun body => r.tellCases body cases := by
  induction cases with
  | nil => exact const _
  | cons head rest ih =>
    obtain ⟨c, pattern⟩ := head
    refine (const _).bind fun _ => (once_sequential c.body).bind fun signal => ?_
    cases signal with
    | some signal => exact const _
    | none => exact ih

theorem switch_sequential (fuel : Nat) (options : SwitchOptions) (cases : List (Case Stmt))
    (otherwise : Option (List Stmt)) :
    Sequential fun body => r.switch fuel body options cases otherwise := by
  refine (const _).bind fun patterns => ?_
  split
  · refine (const _).bind fun _ => (tellCases_sequential _).bind fun signal => ?_
    cases signal with
    | some signal => exact const _
    | none =>
      cases otherwise with
      | none => exact const _
      | some ss => exact (const _).bind fun _ => once_sequential ss
  · refine (const _).bind fun start => (const _).bind fun hit => ?_
    split
    · exact once_sequential _
    · cases otherwise with
      | none => exact const _
      | some ss => exact once_sequential ss

theorem invoke_sequential (call : Call) (ss : List Stmt) :
    Sequential fun body => r.invoke body call ss := by
  have henter : Sequential fun body : Body σ => enterFunction body call ss :=
    (list ss).framed.then_pure
  unfold invoke
  split
  · refine (const _).bind fun _ => (const _).bind fun s => ?_
    split
    · exact const _
    · exact henter
  · exact henter

theorem call_sequential (line : Nat) (name : String) (args : List String) :
    Sequential fun body => r.call body line name args := by
  refine (const _).bind fun s => ?_
  split
  · exact const _
  · exact (const _).bind fun args => invoke_sequential _ _

theorem includeFile_sequential (path : String) :
    Sequential fun body => r.includeFile body path := by
  refine (const _).bind fun path => (const _).bind fun s => ?_
  dsimp only
  split
  · exact const _
  · split
    · exact const _
    · split
      · exact const _
      · exact (const _).bind fun _ => (list _).framed.then_pure

theorem action_sequential (fuel line : Nat) (act : Action) :
    Sequential fun body => r.action fuel body line act := by
  cases act with
  | includeFile path => exact includeFile_sequential path
  | call name args => exact call_sequential line name args
  | _ => exact const _

theorem stmt_sequential (fuel : Nat) (x : Stmt) : Sequential fun body => r.stmt fuel body x := by
  have hdispatch : Sequential fun body => r.dispatch fuel body x := by
    cases x with
    | plain line => exact const _
    | action line act => exact action_sequential fuel line.number act
    | loop line l ss => exact loop_sequential fuel ss l
    | branch line c yes no => exact branch_sequential fuel c yes no
    | switch line options cases otherwise => exact switch_sequential fuel options cases otherwise
  unfold stmt
  split
  · exact const _
  · exact (const _).bind fun _ => hdispatch.positioned.bind fun signal => const _

/-! ## Entered lists -/

open scoped Classical in
/-- The body with another outcome for `ss` in `t`. -/
noncomputable def outcomeAt (ss : List Stmt) (t : Session σ)
    (out : Option (Except RunError (Option Signal) × Session σ)) (body : Body σ) : Body σ :=
  fun ss' => ExceptT.mk fun u => if ss' = ss ∧ u = t then out else (body ss').run u

/-- A statement enters what it comes to run. -/
theorem RunsList.enters {n : Nat} {x : Stmt} {s t : Session σ} {ss : List Stmt}
    (h : RunsList (fun body => r.stmt n body x) (r.exec n) s ss t) : r.Enters n x s ss t := by
  have hsame : ∀ out, SameBut ss t (outcomeAt ss t out (r.exec n)) (r.exec n) :=
    fun out ss' u hne => if_neg hne
  have hat : ∀ out, (outcomeAt ss t out (r.exec n) ss).run t = out := fun out => if_pos ⟨rfl, rfl⟩
  -- a statement that does not end is made to end, and one that ends not to
  cases hrun : (r.stmt n (r.exec n) x).run s with
  | none =>
    obtain ⟨v, hv⟩ := (h _ (hsame (some (.error .stopped, t)))).2 t (hat _)
    exact ⟨_, hsame _, by rw [hv, hrun]; exact Option.some_ne_none _⟩
  | some result =>
    have hnone := (h _ (hsame none)).1 (hat none)
    exact ⟨_, hsame _, by rw [hnone, hrun]; exact (Option.some_ne_none _).symm⟩

/-- A statement comes to run what it enters. -/
theorem Enters.runsList {n : Nat} {x : Stmt} {s t : Session σ} {ss : List Stmt}
    (h : r.Enters n x s ss t) : RunsList (fun body => r.stmt n body x) (r.exec n) s ss t := by
  obtain ⟨body, hbody, hne⟩ := h
  exact ((stmt_sequential n x).same_or_runs hbody).resolve_left hne

/-- What a statement enters ends if the statement does. -/
theorem Enters.ends {n : Nat} {x : Stmt} {s t : Session σ} {ss : List Stmt}
    (h : r.Enters n x s ss t) (hends : ((r.stmt n (r.exec n) x).run s).isSome = true) :
    ((r.exec n ss).run t).isSome = true := by
  refine Option.isSome_iff_ne_none.mpr fun hnone => ?_
  have hstmt := (h.runsList _ fun _ _ _ => rfl).1 hnone
  simp [hstmt] at hends

theorem isSome_run_of_bind {x : Run σ α} {f : α → Run σ β} {s : Session σ}
    (h : ((x >>= f).run s).isSome = true) : (x.run s).isSome = true := by
  refine Option.isSome_iff_ne_none.mpr fun hnone => ?_
  simp [Run.run_bind, hnone] at h

/-- In a run that ends, every list that it comes to ends. -/
theorem Reaches.ends {start p : Point σ} (h : r.Reaches start p)
    (hends : ((r.exec start.fuel start.next).run start.session).isSome = true) :
    ((r.exec p.fuel p.next).run p.session).isSome = true := by
  induction h with
  | start => exact hends
  | next _ hrun ih =>
    rw [exec, stmts, Run.run_bind_ok hrun] at ih
    exact ih
  | last _ _ _ _ => rfl
  | inside _ henter ih => exact henter.ends (isSome_run_of_bind ih)

/-- A statement does the same with another body, unless it enters a list for which that
    does something else. -/
theorem exists_enters_of_ne {n : Nat} {x : Stmt} {s : Session σ} {body : Body σ}
    (h : (r.stmt n body x).run s ≠ (r.stmt n (r.exec n) x).run s) :
    ∃ ss t, r.Enters n x s ss t ∧ (body ss).run t ≠ (r.exec n ss).run t := by
  rcases stmt_sequential n x (r.exec n) body s with heq | ⟨ss, t, hruns, hne⟩
  · exact absurd heq h
  · exact ⟨ss, t, hruns.enters, hne⟩

open scoped Classical in
/-- Where all lists that a statement enters do as `G` says, the statement does the same
    with some body that does as `G` says everywhere. -/
theorem exists_body_of_enters {n : Nat} {x : Stmt} {s : Session σ}
    {G : List Stmt → Session σ → Option (Except RunError (Option Signal) × Session σ) → Prop}
    (hsome : ∀ ss t, ∃ out, G ss t out)
    (henters : ∀ ss t, r.Enters n x s ss t → G ss t ((r.exec n ss).run t)) :
    ∃ body : Body σ, (∀ ss t, G ss t ((body ss).run t)) ∧
      (r.stmt n body x).run s = (r.stmt n (r.exec n) x).run s := by
  let body : Body σ := fun ss => ExceptT.mk fun t =>
    if G ss t ((r.exec n ss).run t) then (r.exec n ss).run t else Classical.choose (hsome ss t)
  have hbody : ∀ ss t, (body ss).run t = if G ss t ((r.exec n ss).run t) then (r.exec n ss).run t
      else Classical.choose (hsome ss t) := fun _ _ => rfl
  refine ⟨body, fun ss t => ?_, Classical.byContradiction fun hne => ?_⟩
  · rw [hbody]
    split
    · assumption
    · exact Classical.choose_spec (hsome ss t)
  · obtain ⟨ss, t, henter, hdiff⟩ := exists_enters_of_ne hne
    exact hdiff (by rw [hbody, if_pos (henters ss t henter)])

end ConsoleScript.Runner
