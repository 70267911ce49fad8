-- SUMMARY: The stacks of a run: one entry for each call that is active, and no file twice.
import ConsoleScript.Proofs.Run.Reachable

/-!
# Stacks

A session holds the calls that have not returned and the files that are
running. Every list of statements leaves both as they were, and with them the
directory and the depth of loops, however it ends. In between, there is one
entry for each call among the statements that run, and no file runs twice.
-/

namespace ConsoleScript.Runner

variable {σ : Type} {r : Runner σ}

/-- The calls that have not returned are those among the statements that run. -/
inductive Recorded : List Call → List (Activation σ) → Prop where
  | none : Recorded [] []
  | call {calls : List Call} {around : List (Activation σ)} (line : Line) (name : String)
      (args : List String) (s : Session σ) (now : Int) (h : Recorded calls around) :
      Recorded (⟨name, (s.scope.expandAll now args).1, line.number⟩ :: calls)
        (⟨.action line (.call name args), s⟩ :: around)
  | other {calls : List Call} {around : List (Activation σ)} {x : Stmt} (s : Session σ)
      (hx : ∀ line name args, x ≠ .action line (.call name args)) (h : Recorded calls around) :
      Recorded calls (⟨x, s⟩ :: around)

theorem Recorded.inside {around : List (Activation σ)} {x : Stmt} {s : Session σ}
    {a : Surroundings} (h : Recorded s.calls around)
    (hx : x.Surrounds s.scope s.surroundings a) : Recorded a.calls (⟨x, s⟩ :: around) := by
  cases hx with
  | call line name args now => exact .call line name args s now h
  | loop line l body => exact .other s (by simp) h
  | switch line options cases otherwise => exact .other s (by simp) h
  | branch line c yes no => exact .other s (by simp) h
  | file line path key dir hnew => exact .other s (by simp) h

theorem reaches_recorded {fuel : Nat} {script : Script} {s : Session σ} {p : Point σ}
    (hcalls : s.calls = []) (h : r.Reaches (r.beginning fuel script s) p) :
    Recorded p.session.calls p.around := by
  refine h.invariant (I := fun around a => Recorded a.calls around) ?_ Recorded.inside
  have hstart : Recorded s.calls ([] : List (Activation σ)) := by
    rw [hcalls]
    exact .none
  exact hstart

/-- No two of the paths are spelled alike. -/
def Unrepeated (paths : List String) : Prop :=
  paths.Pairwise fun p q => Path.alike p q = false

theorem Unrepeated.inside {x : Stmt} {s : Session σ} {a : Surroundings}
    (h : Unrepeated s.includes) (hx : x.Surrounds s.scope s.surroundings a) :
    Unrepeated a.includes := by
  cases hx with
  | call line name args now => exact h
  | loop line l body => exact h
  | switch line options cases otherwise => exact h
  | branch line c yes no => exact h
  | file line path key dir hnew =>
    refine List.pairwise_cons.mpr ⟨?_, h⟩
    simpa using hnew

theorem reaches_unrepeated {fuel : Nat} {script : Script} {s : Session σ} {p : Point σ}
    (hincludes : Unrepeated s.includes) (h : r.Reaches (r.beginning fuel script s) p) :
    Unrepeated p.session.includes :=
  h.invariant (I := fun _ a => Unrepeated a.includes) hincludes Unrepeated.inside

/-- However a list of statements ends, it leaves the stacks as they were. At every
    point of a run that begins outside of calls, and with no file twice, there is
    one entry for each call that is active and no file is there twice. -/
theorem stacks_balanced (r : Runner σ) :
    (∀ fuel ss (s t : Session σ) out, (r.exec fuel ss).run s = some (out, t) →
      t.calls = s.calls ∧ t.includes = s.includes ∧ t.baseDir = s.baseDir ∧
        t.loopDepth = s.loopDepth) ∧
    (∀ fuel script (s : Session σ), s.calls = [] → Unrepeated s.includes →
      ∀ p, r.Reaches (r.beginning fuel script s) p →
        Recorded p.session.calls p.around ∧ Unrepeated p.session.includes) := by
  constructor
  · intro fuel ss s t out h
    have hkept := (exec_keeps fuel ss).2 out t h
    exact ⟨congrArg Surroundings.calls hkept, congrArg Surroundings.includes hkept,
      congrArg Surroundings.baseDir hkept, congrArg Surroundings.loopDepth hkept⟩
  · intro fuel script s hcalls hincludes p h
    exact ⟨reaches_recorded hcalls h, reaches_unrepeated hincludes h⟩

/-- Inside of two calls, and after them. -/
theorem stacks_balanced_nested :
    let s : Session (List String) := .start .empty []
    (∃ p, keyLogger.Reaches (keyLogger.beginning 3 nestedCalls s) p ∧ p.session.calls.length = 2 ∧
      Recorded p.session.calls p.around ∧ Unrepeated p.session.includes) ∧
    ∃ t out, (keyLogger.exec 3 nestedCalls.body).run (keyLogger.beginScript nestedCalls s) =
        some (out, t) ∧
      t.calls = [] ∧ t.includes = [] ∧ t.baseDir = "." ∧ t.loopDepth = 0 := by
  intro s
  constructor
  · obtain ⟨p, hp, hcalls, -⟩ := nestedCalls_reaches
    have hlength : p.session.calls.length = 2 := by
      rw [hcalls]
      rfl
    have hincludes : Unrepeated s.includes := List.Pairwise.nil
    exact ⟨p, hp, hlength, (stacks_balanced keyLogger).2 3 nestedCalls s rfl hincludes p hp⟩
  · have hends : Option.isSome ((keyLogger.exec 3 nestedCalls.body).run
        (keyLogger.beginScript nestedCalls s)) = true := by
      decide +kernel
    obtain ⟨⟨out, t⟩, hrun⟩ := Option.isSome_iff_exists.mp hends
    exact ⟨t, out, hrun, (stacks_balanced keyLogger).1 3 nestedCalls.body _ t out hrun⟩

end ConsoleScript.Runner
