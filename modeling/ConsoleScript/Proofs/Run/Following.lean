-- SUMMARY: Two runs side by side, whose functions differ in what their lines owe to a scope.
import ConsoleScript.Proofs.Run.Keeping
import ConsoleScript.Proofs.Run.Timing
import ConsoleScript.Proofs.Script.MapLines

/-!
# Two runs side by side

`Run.Follows f E x y s s'` compares the run of `x` from the session `s` with that of
`y` from `s'`, where `s` and `s'` are alike: the functions that can be called become
the same by the change of lines `f`, and everything else is the same. Either `x` ends
in an exit of which `E` holds, or the two runs have the same outcome and leave sessions
that are alike again.

It is proved along the text of the two computations. The single steps of a run do not
look at the functions (`Run.Blind`), so that nothing has to be said of them one by one.
-/

namespace ConsoleScript

variable {σ α β : Type} {f : Line → Line}

/-! ## Sessions -/

/-- How far a run has come. -/
structure Progress (σ : Type) where
  line : Nat
  linesExecuted : Nat
  world : σ

/-- One more line has run to its end. -/
def Progress.counted (p : Progress σ) : Progress σ :=
  { p with linesExecuted := p.linesExecuted + 1 }

namespace Session

/-- How far the run has come in a session. -/
def progress (s : Session σ) : Progress σ := ⟨s.line, s.linesExecuted, s.world⟩

/-- The session with the lines of its functions changed. -/
def mapLines (f : Line → Line) (s : Session σ) : Session σ :=
  { s with functions := s.functions.map (Function.mapLines f) }

/-- Two sessions become the same. -/
def Alike (f : Line → Line) (s s' : Session σ) : Prop := s.mapLines f = s'.mapLines f

variable {s s' : Session σ}

theorem alike_iff : Alike f s s' ↔
    { s with functions := s'.functions } = s' ∧
      s.functions.map (Function.mapLines f) = s'.functions.map (Function.mapLines f) := by
  constructor
  · intro h
    cases s
    cases s'
    simp only [Alike, mapLines, Session.mk.injEq] at h ⊢
    simp [h]
  · rintro ⟨heq, hfunctions⟩
    unfold Alike
    rw [← heq]
    simp only [mapLines, hfunctions]

/-- Where a view does not look at the functions it is the same. -/
theorem Alike.view {γ : Type} (h : Alike f s s') (v : Session σ → γ)
    (hv : ∀ t, v (t.mapLines f) = v t) : v s = v s' := by
  rw [← hv s, h, hv s']

theorem Alike.eq (h : Alike id s s') : s = s' := by
  have hid : Function.mapLines id = id := by
    funext fn
    simp [Function.mapLines, ← Stmt.mapLinesAll_eq_map, Stmt.mapLinesAll_id]
  obtain ⟨heq, hfunctions⟩ := alike_iff.mp h
  rw [hid, List.map_id, List.map_id] at hfunctions
  rw [← heq, ← hfunctions]

end Session

/-! ## Steps that do not look at the functions -/

namespace Run

/-- The computation neither looks at the functions that can be called nor changes them. -/
def Blind (x : Run σ α) : Prop :=
  ∀ s functions, x.run { s with functions } =
    (x.run s).map fun (out, t) => (out, { t with functions })

namespace Blind

variable {x : Run σ α} {g : α → Run σ β} {s t : Session σ} {out : Except RunError α}

theorem pure (a : α) : Blind (pure a : Run σ α) := fun _ _ => rfl

theorem throw (e : RunError) : Blind (throw e : Run σ α) := fun _ _ => rfl

theorem outOfFuel : Blind (outOfFuel : Run σ α) := fun _ _ => rfl

theorem bind (hx : Blind x) (hg : ∀ a, Blind (g a)) : Blind (x >>= g) := by
  intro s functions
  rw [run_bind, run_bind, hx]
  cases x.run s with
  | none => rfl
  | some result =>
    obtain ⟨out, t⟩ := result
    cases out with
    | error e => rfl
    | ok a => exact hg a t functions

/-- It leaves the functions as they are. -/
theorem keeps_functions (hx : Blind x) (h : x.run s = some (out, t)) :
    { t with functions := s.functions } = t := by
  have hsame := hx s s.functions
  rw [h] at hsame
  exact (Prod.mk.inj (Option.some.inj hsame)).2.symm

/-- From sessions that are alike it comes to the same. -/
theorem run_alike {s' : Session σ} (hx : Blind x) (hs : s.Alike f s')
    (h : x.run s = some (out, t)) : ∃ t', x.run s' = some (out, t') ∧ t.Alike f t' := by
  obtain ⟨heq, hfunctions⟩ := Session.alike_iff.mp hs
  refine ⟨{ t with functions := s'.functions }, ?_, Session.alike_iff.mpr ⟨rfl, ?_⟩⟩
  · rw [← heq, hx, h, Option.map_some]
  · rw [← hx.keeps_functions h]
    exact hfunctions

theorem run_none {s' : Session σ} (hx : Blind x) (hs : s.Alike f s') (h : x.run s = none) :
    x.run s' = none := by
  rw [← (Session.alike_iff.mp hs).1, hx, h, Option.map_none]

end Blind

end Run

namespace Runner

open Run (Blind)

variable {r : Runner σ}

theorem operate_blind (op : Operation σ α) : Blind (operate op) := by
  intro s functions
  simp only [operate, Run.run_get_bind, Run.run_set_bind]
  cases (op s.world).1 <;> rfl

theorem narrate_blind (text : String) : Blind (r.narrate text) := fun _ _ => rfl

theorem expand_blind (text : String) : Blind (r.expand text) := fun _ _ => rfl

theorem expandAll_blind (texts : List String) : Blind (r.expandAll texts) := fun _ _ => rfl

theorem bind_blind (name value : String) : Blind (bind name value : Run σ Unit) := fun _ _ => rfl

theorem assign_blind (line : String) : Blind (r.assign line) := by
  intro s functions
  simp only [assign, Run.run_get_bind]
  cases s.scope.readAssignment? (r.machine.clock.seconds s.world) line <;> rfl

theorem clockTime_blind : Blind r.clockTime := fun _ _ => rfl

theorem elapsedSince_blind (start : Duration) : Blind (r.elapsedSince start) := fun _ _ => rfl

theorem checkDeadline_blind : Blind r.checkDeadline := by
  intro s functions
  rw [run_checkDeadline, run_checkDeadline, Option.map_some]

theorem sleep_blind (d : Duration) : Blind (r.sleep d) := by
  intro s functions
  rw [run_sleep, run_sleep, Option.map_some]

theorem capture_blind : Blind r.capture := by
  intro s functions
  rw [run_capture, run_capture, Option.map_some]

theorem probe_blind (text : String) : Blind (r.probe text) := by
  refine capture_blind.bind fun screen => ?_
  cases screen with
  | none => exact .pure _
  | some screen => exact fun _ _ => rfl

theorem pollFor_blind (text : String) (timeout start : Duration) (fuel : Nat) :
    Blind (r.pollFor text timeout start fuel) := by
  induction fuel with
  | zero => exact .outOfFuel
  | succ fuel ih =>
    refine (probe_blind text).bind fun found => ?_
    split
    · exact .pure _
    · refine (elapsedSince_blind start).bind fun elapsed => ?_
      split
      · exact .pure _
      · exact checkDeadline_blind.bind fun _ => (sleep_blind _).bind fun _ => ih

theorem watch_blind (fuel : Nat) (text : String) (timeout : Duration) :
    Blind (r.watch fuel text timeout) := by
  refine clockTime_blind.bind fun start => ?_
  refine (pollFor_blind text timeout start fuel).bind fun found => ?_
  cases found with
  | false => exact (elapsedSince_blind start).bind fun _ => .throw _
  | true => exact .pure _

theorem pollCases_blind (patterns : List String) (timeout poll start : Duration) (fuel : Nat) :
    Blind (r.pollCases patterns timeout poll start fuel) := by
  induction fuel with
  | zero => exact .outOfFuel
  | succ fuel ih =>
    refine Blind.bind (capture_blind.bind fun screen => ?_) fun hit => ?_
    · cases screen with
      | none => exact .pure _
      | some screen => exact fun _ _ => rfl
    · cases hit with
      | some hit => exact .pure _
      | none =>
        refine (elapsedSince_blind start).bind fun elapsed => ?_
        split
        · exact .pure _
        · exact (sleep_blind _).bind fun _ => ih

theorem isDebugging_blind : Blind r.isDebugging := by
  unfold isDebugging
  cases r.debugger with
  | none => exact .pure _
  | some d => exact fun _ _ => rfl

theorem consult_blind (e : Entry) : Blind (r.consult e) := by
  unfold consult
  cases r.debugger with
  | none => exact .pure ()
  | some d =>
    intro s functions
    simp only [Run.run_get_bind]
    split
    · simp only [Run.run_set_bind]
      split
      · rfl
      · rfl
      · exact operate_blind _ { s with world := (d.decide e s.scope s.world).2 } functions
      · rfl
    · rfl

end Runner

/-! ## Following -/

namespace Run

/-- From `s` on, `x` ends in an exit of which `E` holds, or `y` does the same from `s'`
    on, up to what `f` forgets. -/
inductive Follows (f : Line → Line) (E : Int → Progress σ → Prop) (x y : Run σ (Option Signal))
    (s s' : Session σ) : Prop where
  | exits {code : Int} {t : Session σ} (hx : x.run s = some (.ok (some (.exit code)), t))
      (hexit : E code t.progress) : Follows f E x y s s'
  | starves (hx : x.run s = none) (hy : y.run s' = none) : Follows f E x y s s'
  | ends {out : Except RunError (Option Signal)} {t t' : Session σ} (hx : x.run s = some (out, t))
      (hy : y.run s' = some (out, t')) (halike : t.Alike f t') : Follows f E x y s s'

namespace Follows

variable {E : Int → Progress σ → Prop} {x y x' y' : Run σ (Option Signal)} {s s' t t' : Session σ}

theorem of_run_eq (hx : x.run s = x'.run t) (hy : y.run s' = y'.run t')
    (h : Follows f E x' y' t t') : Follows f E x y s s' := by
  cases h with
  | exits hx' hexit => exact .exits (hx.trans hx') hexit
  | starves hx' hy' => exact .starves (hx.trans hx') (hy.trans hy')
  | ends hx' hy' halike => exact .ends (hx.trans hx') (hy.trans hy') halike

theorem pure (hs : s.Alike f s') (signal : Option Signal) :
    Follows f E (pure signal) (pure signal) s s' :=
  .ends rfl rfl hs

theorem throw (hs : s.Alike f s') (e : RunError) : Follows f E (throw e) (throw e) s s' :=
  .ends rfl rfl hs

theorem outOfFuel : Follows f E outOfFuel outOfFuel s s' := .starves rfl rfl

theorem get {g g' : Session σ → Run σ (Option Signal)} (h : Follows f E (g s) (g' s') s s') :
    Follows f E (get >>= g) (get >>= g') s s' :=
  of_run_eq (run_get_bind g) (run_get_bind g') h

/-- What comes after a step that does not look at the functions starts alike. -/
theorem after {z : Run σ α} {g g' : α → Run σ (Option Signal)} (hz : Blind z)
    (hs : s.Alike f s') (hg : ∀ a t t', t.Alike f t' → Follows f E (g a) (g' a) t t') :
    Follows f E (z >>= g) (z >>= g') s s' := by
  cases hrun : z.run s with
  | none =>
    have hrun' := hz.run_none hs hrun
    exact .starves (by simp [run_bind, hrun]) (by simp [run_bind, hrun'])
  | some result =>
    obtain ⟨out, t⟩ := result
    obtain ⟨t', hrun', ht⟩ := hz.run_alike hs hrun
    cases out with
    | error e => exact .ends (run_bind_error hrun g) (run_bind_error hrun' g') ht
    | ok a => exact (hg a t t' ht).of_run_eq (run_bind_ok hrun g) (run_bind_ok hrun' g')

theorem after_pure {z : Run σ α} {signal : α → Option Signal} (hz : Blind z)
    (hs : s.Alike f s') :
    Follows f E (z >>= fun a => Pure.pure (signal a)) (z >>= fun a => Pure.pure (signal a)) s s' :=
  after hz hs fun _ _ _ ht => pure ht _

/-- What comes after a list may do anything with its signal but catch an exit. -/
theorem bind {g g' : Option Signal → Run σ (Option Signal)} (h : Follows f E x y s s')
    (hexit : ∀ code, g (some (.exit code)) = Pure.pure (some (.exit code)))
    (hg : ∀ signal t t', t.Alike f t' → Follows f E (g signal) (g' signal) t t') :
    Follows f E (x >>= g) (y >>= g') s s' := by
  cases h with
  | @exits code t hx hE =>
    refine .exits ((run_bind_ok hx g).trans ?_) hE
    rw [hexit]
    rfl
  | starves hx hy => exact .starves (by simp [run_bind, hx]) (by simp [run_bind, hy])
  | @ends out t t' hx hy halike =>
    cases out with
    | error e => exact .ends (run_bind_error hx g) (run_bind_error hy g') halike
    | ok signal => exact (hg signal t t' halike).of_run_eq (run_bind_ok hx g) (run_bind_ok hy g')

/-- The same for what comes after an attempt. -/
theorem attempt_bind {g g' : Except RunError (Option Signal) → Run σ (Option Signal)}
    (h : Follows f E x y s s')
    (hexit : ∀ code, g (.ok (some (.exit code))) = Pure.pure (some (.exit code)))
    (hg : ∀ out t t', t.Alike f t' → Follows f E (g out) (g' out) t t') :
    Follows f E (attempt x >>= g) (attempt y >>= g') s s' := by
  cases h with
  | @exits code t hx hE =>
    refine .exits ((run_attempt_bind hx g).trans ?_) hE
    rw [hexit]
    rfl
  | starves hx hy => exact .starves (by simp [run_bind, hx]) (by simp [run_bind, hy])
  | @ends out t t' hx hy halike =>
    exact (hg out t t' halike).of_run_eq (run_attempt_bind hx g) (run_attempt_bind hy g')

/-- A frame may change anything but the functions on the way in, and on the way out
    anything but these and how far the run has come. -/
theorem framed {enter : Session σ → Session σ} {leave : Session σ → Session σ → Session σ}
    (h : Follows f E x y (enter s) (enter s'))
    (halike : ∀ t t', t.Alike f t' → (leave s t).Alike f (leave s' t'))
    (hprogress : ∀ t, (leave s t).progress = t.progress) :
    Follows f E (framed enter leave x) (framed enter leave y) s s' := by
  cases h with
  | @exits code t hx hE =>
    have hx' : (Run.framed enter leave x).run s = some (.ok (some (.exit code)), leave s t) := by
      rw [run_framed, hx, Option.map_some]
    refine .exits hx' ?_
    rw [hprogress]
    exact hE
  | starves hx hy => exact .starves (by simp [run_framed, hx]) (by simp [run_framed, hy])
  | @ends out t t' hx hy ht =>
    have hx' : (Run.framed enter leave x).run s = some (out, leave s t) := by
      rw [run_framed, hx, Option.map_some]
    have hy' : (Run.framed enter leave y).run s' = some (out, leave s' t') := by
      rw [run_framed, hy, Option.map_some]
    exact .ends hx' hy' (halike t t' ht)

theorem positioned {line : Nat} (h : Follows f E x y s s') :
    Follows f E (positioned line x) (positioned line y) s s' := by
  have hrun : ∀ {z : Run σ (Option Signal)} {u v : Session σ} {out}, z.run u = some (out, v) →
      (Run.positioned line z).run u = some (out.mapError (·.positioned line), v) := by
    intro z u v out hz
    rw [run_positioned, hz, Option.map_some]
  cases h with
  | exits hx hE => exact .exits (hrun hx) hE
  | starves hx hy => exact .starves (by simp [run_positioned, hx]) (by simp [run_positioned, hy])
  | ends hx hy halike => exact .ends (hrun hx) (hrun hy) halike

end Follows

end Run

end ConsoleScript
