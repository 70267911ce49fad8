-- SUMMARY: What a conduct says of the points and the reports of a run.
import ConsoleScript.Proofs.Run.Conduct.Statements
import ConsoleScript.Proofs.Run.Reachable

/-!
# Points of a conduct

Where a runner does as a conduct expects, all points that a run comes to are as
expected (`Governs.reaches`), also if the run never ends, and the report is the
same with the other way of waiting and looking (`Governs.execute`).
-/

namespace ConsoleScript

namespace Conduct

variable {σ α : Type} {C : Conduct σ} {r : Runner σ} {wait' : Duration → σ → σ}
  {capture' : Operation σ Screen} {a : Surroundings} {P : Duration → σ → Prop} {s t : Session σ}
  {x y : Run σ α}

/-- Where nothing ends everything, a computation does as the other. -/
theorem Holds.run_eq (hnever : ∀ e w, ¬C.Escapes e w) (h : C.Holds a P x y s) :
    x.run s = y.run s := by
  rcases h with ⟨e, t, -, hescapes⟩ | ⟨hrun, -⟩
  · exact absurd hescapes (hnever e t.world)
  · exact hrun

/-- Where nothing ends everything, an outcome is as expected. -/
theorem Holds.ends (hnever : ∀ e w, ¬C.Escapes e w) (h : C.Holds a P x y s) :
    C.Ends a P (x.run s) := by
  rcases h with ⟨e, t, -, hescapes⟩ | ⟨hrun, hends⟩
  · exact absurd hescapes (hnever e t.world)
  · rw [hrun]
    exact hends

/-- However a computation ends that leaves the world between two statements. -/
theorem Ends.at {out : Except RunError α} (h : C.Ends a C.Rest (some (out, t))) :
    C.At a C.Rest t := by
  cases out with
  | ok v => exact h
  | error e => exact h.1

namespace Governs

/-- A statement runs a list as is expected, unless an error ends the statement that
    ends everything. If that error ends the list, it ends the statement. -/
theorem enters (hC : C.Governs r r.machine.wait r.machine.capture) (hpartial : ¬C.Total)
    {fuel : Nat} {x : Stmt} {ss : List Stmt} (hx : ∀ y ∈ x.nodes, C.Allows y)
    (hs : C.At a C.Rest s) (h : r.Enters fuel x s ss t) :
    (∃ e u, (r.stmt fuel (r.exec fuel) x).run s = some (.error e, u) ∧ C.Escapes e u.world) ∨
      (∃ b, r.Opens C.Knows a x b ss ∧ C.At b C.Rest t) ∧
        ∀ e u, (r.exec fuel ss).run t = some (.error e, u) → ¬C.Escapes e u.world := by
  obtain ⟨body, hbody, hne⟩ := h
  refine Classical.byContradiction fun hnot => ?_
  obtain ⟨hstmt, hlist⟩ := not_or.mp hnot
  have hholds : C.Holds a C.Rest (r.stmt fuel (r.exec fuel) x) (r.stmt fuel body x) s := by
    refine hC.stmt (fun _ => rfl) (hx x x.mem_nodes_self) (fun b ss' hopens u hu => ?_) hs
    by_cases hhere : ss' = ss ∧ u = t
    · -- here the list ends with the error, for else it is run as is expected
      obtain ⟨rfl, rfl⟩ := hhere
      refine .inl (Classical.byContradiction fun hnone => hlist ⟨⟨b, hopens, hu⟩, ?_⟩)
      exact fun e v hrun hescapes => hnone ⟨e, v, hrun, hescapes⟩
    · -- anywhere else the bodies do the same
      have hexec := hC.exec hpartial fuel b (hC.opened hx hopens) u hu
      rw [Runner.swapped_self] at hexec
      unfold Holds at hexec ⊢
      rw [hbody ss' u hhere]
      exact hexec
  rcases hholds with hescapes | ⟨hrun, -⟩
  · exact hstmt hescapes
  · exact hne hrun.symm

/-- How a statement of a run leaves the session. -/
theorem stmt_at (hC : C.Governs r wait' capture') (hpartial : ¬C.Total)
    (hnever : ∀ e w, ¬C.Escapes e w) {fuel : Nat} {x : Stmt}
    {out : Except RunError (Option Signal)} (hx : ∀ y ∈ x.nodes, C.Allows y)
    (hs : C.At a C.Rest s) (hrun : (r.stmt fuel (r.exec fuel) x).run s = some (out, t)) :
    C.At a C.Rest t := by
  have hholds := hC.stmt (fun _ => (rfl : fuel = fuel)) (hx x x.mem_nodes_self)
    (fun b ss hopens => hC.exec hpartial fuel b (hC.opened hx hopens)) hs
  have hends := hholds.ends hnever
  rw [hrun] at hends
  exact hends.at

/-- All points of a run are as is expected: its statements may run, and it is between
    two of them. -/
theorem reaches (hC : C.Governs r r.machine.wait r.machine.capture) (hpartial : ¬C.Total)
    (hnever : ∀ e w, ¬C.Escapes e w) {start p : Runner.Point σ} (h : r.Reaches start p)
    (hnext : ∀ x ∈ Stmt.nodesAll start.next, C.Allows x)
    (hstart : C.At start.session.surroundings C.Rest start.session) :
    (∀ x ∈ Stmt.nodesAll p.next, C.Allows x) ∧ C.At p.session.surroundings C.Rest p.session := by
  induction h with
  | start => exact ⟨hnext, hstart⟩
  | next _ hrun ih =>
    have ht := hC.stmt_at hpartial hnever (fun y hy => ih.1 y (by simp [hy])) ih.2 hrun
    exact ⟨fun y hy => ih.1 y (by simp [hy]), rfl, ht.2⟩
  | last _ hrun _ ih =>
    have ht := hC.stmt_at hpartial hnever (fun y hy => ih.1 y (by simp [hy])) ih.2 hrun
    exact ⟨by simp, rfl, ht.2⟩
  | @inside around fuel x rest ss s t _ henter ih =>
    have hx : ∀ y ∈ x.nodes, C.Allows y := fun y hy => ih.1 y (by simp [hy])
    rcases hC.enters hpartial hx ih.2 henter with ⟨e, u, -, hescapes⟩ | ⟨⟨b, hopens, ht⟩, -⟩
    · exact absurd hescapes (hnever e u.world)
    · exact ⟨hC.opened hx hopens, rfl, ht.2⟩

/-- The outcome of a list that may run is as is expected. -/
theorem ends (hC : C.Governs r wait' capture') (hpartial : ¬C.Total)
    (hnever : ∀ e w, ¬C.Escapes e w) (fuel : Nat) (ss : List Stmt)
    (hss : ∀ x ∈ Stmt.nodesAll ss, C.Allows x) (hs : C.At a C.Rest s) :
    C.Ends a C.Rest ((r.exec fuel ss).run s) :=
  (hC.exec hpartial fuel a hss s hs).ends hnever

/-- A script does the same with the other way of waiting and looking. -/
theorem execute (hC : C.Governs r wait' capture') (hpartial : ¬C.Total)
    (hnever : ∀ e w, ¬C.Escapes e w) {fuel : Nat} {script : Script}
    (hbody : ∀ x ∈ Stmt.nodesAll script.body, C.Allows x)
    (hs : C.At a C.Rest (r.beginScript script s)) :
    (r.swapped wait' capture').execute fuel script s = r.execute fuel script s := by
  have hrun := (hC.exec hpartial fuel a hbody _ hs).run_eq hnever
  have hbegins : (r.swapped wait' capture').Begins script s ↔ r.Begins script s := Iff.rfl
  rw [Runner.execute_eq, Runner.execute_eq]
  by_cases h : r.Begins script s
  · rw [if_pos (hbegins.mpr h), if_pos h]
    exact congrArg (Option.map _) hrun.symm
  · rw [if_neg fun hyes => h (hbegins.mp hyes), if_neg h]
    rfl

end Governs

end Conduct

end ConsoleScript
