-- SUMMARY: Computations of a run that do the same from a session on, and what they keep of it.
import ConsoleScript.Run.Session

/-!
# Agreement

`Run.Agree v x y s` says that the computations `x` and `y` do the same from the
session `s` on, and that the view `v` of the session is afterwards what it was.
It is proved along the text of a computation: the lemmas here say how it passes
through each way of putting computations together. With `x` in both places, it
says what `x` keeps.
-/

namespace ConsoleScript.Run

variable {σ α β γ δ : Type} {s t : Session σ}

/-! ## Outcomes -/

@[simp] theorem run_pure (a : α) : (pure a : Run σ α).run s = some (.ok a, s) := rfl

@[simp] theorem run_throw (e : RunError) : (throw e : Run σ α).run s = some (.error e, s) := rfl

@[simp] theorem run_outOfFuel : (outOfFuel : Run σ α).run s = none := rfl

@[simp] theorem run_attempt (x : Run σ α) :
    (attempt x).run s = (x.run s).map fun (out, t) => (.ok out, t) := by
  change (x.run s).bind _ = _
  cases x.run s <;> rfl

/-- What comes after a computation starts where that one ended, and not at all
    if it failed. -/
theorem run_bind (x : Run σ α) (f : α → Run σ β) :
    (x >>= f).run s = (x.run s).bind fun
      | (.ok a, t) => (f a).run t
      | (.error e, t) => some (.error e, t) := by
  change (x.run s).bind _ = _
  cases x.run s with
  | none => rfl
  | some result =>
    obtain ⟨out, t⟩ := result
    cases out <;> rfl

theorem run_bind_ok {x : Run σ α} {a : α} (h : x.run s = some (.ok a, t)) (f : α → Run σ β) :
    (x >>= f).run s = (f a).run t := by
  rw [run_bind, h, Option.bind_some]

theorem run_bind_error {x : Run σ α} {e : RunError} (h : x.run s = some (.error e, t))
    (f : α → Run σ β) : (x >>= f).run s = some (.error e, t) := by
  rw [run_bind, h, Option.bind_some]

/-- What comes after an attempt gets its outcome, be it a result or an error. -/
theorem run_attempt_bind {x : Run σ α} {out : Except RunError α} (h : x.run s = some (out, t))
    (f : Except RunError α → Run σ β) : (attempt x >>= f).run s = (f out).run t := by
  rw [run_bind, run_attempt, h, Option.map_some, Option.bind_some]

theorem run_get_bind (f : Session σ → Run σ α) : (get >>= f).run s = (f s).run s := rfl

theorem run_set_bind (f : Unit → Run σ α) : (set t >>= f).run s = (f ()).run t := rfl

theorem run_modify_bind (m : Session σ → Session σ) (f : Unit → Run σ α) :
    (modify m >>= f).run s = (f ()).run (m s) := rfl

theorem run_framed (enter : Session σ → Session σ) (leave : Session σ → Session σ → Session σ)
    (x : Run σ α) :
    (framed enter leave x).run s = (x.run (enter s)).map fun (out, t) => (out, leave s t) := by
  simp only [framed, run_get_bind, run_set_bind, run_bind (attempt x), run_attempt]
  cases x.run (enter s) <;> rfl

theorem run_positioned (line : Nat) (x : Run σ α) :
    (positioned line x).run s =
      (x.run s).map fun (out, t) => (out.mapError (·.positioned line), t) := by
  simp only [positioned, run_bind, run_attempt]
  cases x.run s with
  | none => rfl
  | some result =>
    obtain ⟨out, t⟩ := result
    cases out <;> rfl

/-! ## Agreement -/

/-- From `s` on, `x` and `y` do the same and leave the view `v` as it is. -/
def Agree (v : Session σ → γ) (x y : Run σ α) (s : Session σ) : Prop :=
  x.run s = y.run s ∧ ∀ out t, y.run s = some (out, t) → v t = v s

variable {v : Session σ → γ} {w : Session σ → δ} {x y : Run σ α} {f g : α → Run σ β}

namespace Agree

theorem pure (a : α) : Agree v (pure a) (pure a) s :=
  ⟨rfl, by simp⟩

theorem throw (e : RunError) : Agree v (throw e : Run σ α) (throw e) s :=
  ⟨rfl, by simp⟩

theorem outOfFuel : Agree v (outOfFuel : Run σ α) outOfFuel s :=
  ⟨rfl, by simp⟩

/-- A computation that keeps more than `v` may come first. What follows it can
    then count on that. -/
theorem bind_of (hx : Agree w x y s) (hw : ∀ t, w t = w s → v t = v s)
    (hf : ∀ a t, w t = w s → Agree v (f a) (g a) t) : Agree v (x >>= f) (y >>= g) s := by
  obtain ⟨hrun, hkeep⟩ := hx
  constructor
  · rw [run_bind, run_bind, hrun]
    cases hy : y.run s with
    | none => rfl
    | some result =>
      obtain ⟨out, t⟩ := result
      cases out with
      | error e => rfl
      | ok a => exact (hf a t (hkeep _ t hy)).1
  · intro out u h
    rw [run_bind] at h
    obtain ⟨⟨res, t⟩, hy, h⟩ := Option.bind_eq_some_iff.mp h
    have hv := hw t (hkeep _ t hy)
    cases res with
    | error e =>
      cases h
      exact hv
    | ok a => exact ((hf a t (hkeep _ t hy)).2 out u h).trans hv

theorem bind (hx : Agree v x y s) (hf : ∀ a t, v t = v s → Agree v (f a) (g a) t) :
    Agree v (x >>= f) (y >>= g) s :=
  hx.bind_of (fun _ h => h) hf

theorem then_pure {f : α → β} (hx : Agree v x y s) :
    Agree v (x >>= fun a => Pure.pure (f a)) (y >>= fun a => Pure.pure (f a)) s :=
  hx.bind fun _ _ _ => pure _

/-- It is enough to agree after a step that both take. -/
theorem step {x' y' : Run σ α} (hx : x.run s = x'.run t) (hy : y.run s = y'.run t)
    (hv : v t = v s) (h : Agree v x' y' t) : Agree v x y s :=
  ⟨hx.trans (h.1.trans hy.symm), fun out u hu => (h.2 out u (hy ▸ hu)).trans hv⟩

theorem get {f g : Session σ → Run σ α} (h : Agree v (f s) (g s) s) :
    Agree v (get >>= f) (get >>= g) s :=
  h.step rfl rfl rfl

/-- The session may be changed where the view does not look. -/
theorem set {f g : Unit → Run σ α} (hv : v t = v s) (h : Agree v (f ()) (g ()) t) :
    Agree v (set t >>= f) (set t >>= g) s :=
  step (t := t) rfl rfl hv h

theorem modify {m : Session σ → Session σ} (hv : v (m s) = v s) :
    Agree v (modify m) (modify m) s :=
  ⟨rfl, fun _ _ h => by cases h; exact hv⟩

theorem attempt (h : Agree v x y s) : Agree v (attempt x) (attempt y) s := by
  simp only [Agree, run_attempt, h.1, true_and]
  intro out t ht
  obtain ⟨⟨out, t⟩, hy, heq⟩ := Option.map_eq_some_iff.mp ht
  cases heq
  exact h.2 out t hy

theorem positioned {line : Nat} (h : Agree v x y s) :
    Agree v (positioned line x) (positioned line y) s := by
  simp only [Agree, run_positioned, h.1, true_and]
  intro out t ht
  obtain ⟨⟨out, t⟩, hy, heq⟩ := Option.map_eq_some_iff.mp ht
  cases heq
  exact h.2 out t hy

/-- Around a computation that keeps `w` of the session in which it starts, it is
    enough that leaving gets `v` back from that. -/
theorem framed {enter : Session σ → Session σ} {leave : Session σ → Session σ → Session σ}
    (h : Agree w x y (enter s)) (hv : ∀ t, w t = w (enter s) → v (leave s t) = v s) :
    Agree v (framed enter leave x) (framed enter leave y) s := by
  simp only [Agree, run_framed, h.1, true_and]
  intro out t ht
  obtain ⟨⟨out, t⟩, hy, heq⟩ := Option.map_eq_some_iff.mp ht
  cases heq
  exact hv t (h.2 out t hy)

/-- What keeps a view keeps all that can be told from it. -/
theorem of_view (h : Agree w x y s) (hw : ∀ t, w t = w s → v t = v s) : Agree v x y s :=
  ⟨h.1, fun out t ht => hw t (h.2 out t ht)⟩

end Agree

end ConsoleScript.Run
