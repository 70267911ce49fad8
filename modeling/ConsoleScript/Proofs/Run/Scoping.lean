-- SUMMARY: Scopes of a run: a call gives the caller its scope back, and the arguments of calls lie over each other.
import ConsoleScript.Proofs.Run.Stacks
import ConsoleScript.Proofs.Scope.Passes
import ConsoleScript.Proofs.Scope.Positional

/-!
# Scoping

A function runs in a scope of its own, and whatever it does there is gone when
the call is over. The layers that scripts read only change in one way: a call
binds its arguments over the overrides of the scope it is made in. So at every
point of a run the overrides are those of the beginning, with the arguments of
all calls that are active bound over them.
-/

namespace ConsoleScript.Runner

open Run (Agree)

variable {σ : Type} {r : Runner σ} {s t : Session σ}

/-! ## The scope of the caller -/

/-- Whatever the body does to the scope, the caller's comes back. -/
theorem enterFunction_scope (body : Body σ) (call : Call) (ss : List Stmt) :
    Agree Session.scope (enterFunction body call ss) (enterFunction body call ss) s := by
  have hbody : Agree (fun _ => ()) (body ss) (body ss) (s.inCall call) := ⟨rfl, fun _ _ _ => rfl⟩
  exact (hbody.framed fun _ _ => rfl).then_pure

theorem invoke_scope (body : Body σ) (call : Call) (ss : List Stmt) :
    Agree Session.scope (r.invoke body call ss) (r.invoke body call ss) s := by
  unfold invoke
  split
  · refine (Agree.modify rfl).bind fun _ t ht => .get ?_
    split
    · exact (Agree.modify rfl).then_pure
    · exact enterFunction_scope body call ss
  · exact enterFunction_scope body call ss

/-- A call leaves the scope as it is once its arguments are expanded. -/
theorem call_scope {body : Body σ} {line : Nat} {name : String} {args : List String}
    {out : Except RunError (Option Signal)}
    (h : (r.call body line name args).run s = some (out, t)) :
    t.scope = if s.hasFunction name
      then (s.scope.expandAll (r.machine.clock.seconds s.world) args).2 else s.scope := by
  simp only [call, Run.run_get_bind] at h
  cases hf : s.functions.find? (·.name == name) with
  | none =>
    have hnot : s.hasFunction name = false := by
      simpa [Session.hasFunction] using hf
    rw [hf] at h
    cases h
    simp [hnot]
  | some f =>
    have hname : (f.name == name) = true := by
      simpa using List.find?_some hf
    have hfunction : s.hasFunction name = true :=
      List.any_eq_true.mpr ⟨f, List.mem_of_find?_eq_some hf, hname⟩
    rcases hargs : s.scope.expandAll (r.machine.clock.seconds s.world) args with ⟨outs, scope⟩
    simp only [hf, run_expandAll_bind hargs] at h
    rw [if_pos hfunction]
    exact (invoke_scope body _ f.body).2 out t h

/-! ## The layers that scripts read only -/

/-- The layers are those of `s`, with the arguments of the calls made since then
    bound over the overrides. -/
def Layered (s : Session σ) (a : Surroundings) : Prop :=
  ∃ since, a.calls = since ++ s.calls ∧
    a.layers = (s.scope.env, Scope.bindCalls s.scope.overrides since)

theorem Layered.inside {x : Stmt} {a : Surroundings} (h : Layered s t.surroundings)
    (hx : x.Surrounds t.scope t.surroundings a) : Layered s a := by
  obtain ⟨since, hcalls, hlayers⟩ := h
  cases hx with
  | loop line l body => exact ⟨since, hcalls, hlayers⟩
  | switch line options cases otherwise => exact ⟨since, hcalls, hlayers⟩
  | branch line c yes no => exact ⟨since, hcalls, hlayers⟩
  | file line path key dir hnew => exact ⟨since, hcalls, hlayers⟩
  | call line name args now =>
    refine ⟨⟨name, (t.scope.expandAll now args).1, line.number⟩ :: since, ?_, ?_⟩
    · simp [Surroundings.inCall, hcalls]
    · simp [Surroundings.inCall, hlayers, Scope.bindCalls]

theorem reaches_layered {fuel : Nat} {script : Script} {p : Point σ}
    (h : r.Reaches (r.beginning fuel script s) p) : Layered s p.session.surroundings :=
  h.invariant (I := fun _ a => Layered s a) ⟨[], rfl, rfl⟩ Layered.inside

theorem execute_readOnly {fuel : Nat} {script : Script} {report : Report}
    (h : r.execute fuel script s = some (report, t)) : t.scope.readOnly = s.scope.readOnly := by
  rw [execute_eq] at h
  split at h
  · obtain ⟨⟨out, u⟩, hrun, heq⟩ := Option.map_eq_some_iff.mp h
    cases heq
    exact congrArg Surroundings.layers ((exec_keeps fuel script.body).2 out t hrun)
  · cases h
    rfl

/-- A call gives the caller the scope back that it had once the arguments were
    expanded. A run changes the variables of the script only: it leaves the other
    layers as they were, and along its way changes the overrides inside calls only. -/
theorem calls_isolated (r : Runner σ) :
    (∀ fuel line name args (s t : Session σ) out,
      (r.call (r.exec fuel) line name args).run s = some (out, t) →
      t.scope = if s.hasFunction name
        then (s.scope.expandAll (r.machine.clock.seconds s.world) args).2 else s.scope) ∧
    (∀ fuel script (s t : Session σ) report, r.execute fuel script s = some (report, t) →
      t.scope.env = s.scope.env ∧ t.scope.overrides = s.scope.overrides) ∧
    (∀ fuel script (s : Session σ) p, r.Reaches (r.beginning fuel script s) p →
      p.session.scope.env = s.scope.env ∧
        (p.session.calls = s.calls → p.session.scope.overrides = s.scope.overrides)) := by
  refine ⟨fun fuel line name args s t out => call_scope, ?_, ?_⟩
  · intro fuel script s t report h
    exact Prod.mk.inj (execute_readOnly h)
  · intro fuel script s p h
    obtain ⟨since, hcalls, hlayers⟩ := reaches_layered h
    refine ⟨congrArg Prod.fst hlayers, fun heq => ?_⟩
    have hsince : since = [] := by
      have := heq.symm.trans hcalls
      simpa using this
    subst hsince
    exact congrArg Prod.snd hlayers

/-- A function that binds a variable, called with an argument that binds another. -/
theorem calls_isolated_binding :
    let f : Function := ⟨"f", 1, 3, [.action ⟨2, "", "", "", .directive, none⟩ (.bind "X" "$1")]⟩
    let s : Session (List String) := { Session.start .empty [] with functions := [f] }
    let script : Script := ⟨[], [f], .of [] []⟩
    (∃ t out, (keyLogger.call (keyLogger.exec 1) 4 "f" ["$\x7bY:=v\x7d"]).run s = some (out, t) ∧
      t.scope = s.scope.set "Y" "v") ∧
    (∃ t report, keyLogger.execute 1 script s = some (report, t) ∧
      t.scope.env = .empty ∧ t.scope.overrides = .empty) ∧
    ∃ p, keyLogger.Reaches (keyLogger.beginning 1 script s) p ∧ p.session.scope.env = .empty := by
  intro f s script
  refine ⟨?_, ?_, ?_⟩
  · have hends : Option.isSome
        ((keyLogger.call (keyLogger.exec 1) 4 "f" ["$\x7bY:=v\x7d"]).run s) = true := by
      decide +kernel
    obtain ⟨⟨out, t⟩, hrun⟩ := Option.isSome_iff_exists.mp hends
    refine ⟨t, out, hrun, ((calls_isolated keyLogger).1 1 4 "f" _ s t out hrun).trans ?_⟩
    decide +kernel
  · have hends : Option.isSome (keyLogger.execute 1 script s) = true := by
      decide +kernel
    obtain ⟨⟨report, t⟩, hrun⟩ := Option.isSome_iff_exists.mp hends
    exact ⟨t, report, hrun, (calls_isolated keyLogger).2.1 1 script s t report hrun⟩
  · exact ⟨_, .start, ((calls_isolated keyLogger).2.2 1 script s _ .start).1⟩

/-! ## Arguments -/

/-- The argument of an outer call shows in an inner one that leaves its position
    open: the reference with a default gives that argument, and not the default. -/
theorem outer_argument_shows :
    (∃ p, keyLogger.Reaches (keyLogger.beginning 3 nestedCalls (.start .empty [])) p ∧
      p.session.calls.head? = some ⟨"inner", ["c"], 5⟩ ∧
      p.session.scope.overrides ≠ Scope.bindArguments .empty 1 ["c"] ∧
      p.session.scope.overrides.get? "2" = some "b") ∧
    (keyLogger.execute 3 nestedCalls (.start .empty [])).map (·.2.world) = some ["ret", "b"] := by
  constructor
  · obtain ⟨p, hp, hcalls, hscope⟩ := nestedCalls_reaches
    refine ⟨p, hp, ?_, ?_, ?_⟩
    · rw [hcalls]
      rfl
    · rw [hscope]
      decide +kernel
    · rw [hscope]
      decide +kernel
  · decide +kernel

/-- At every point of a run the overrides are those of the beginning with the
    arguments of the active calls bound by position, from the outside in. So a
    position has the argument of the innermost call that has one there, and a
    reference to it gives its default if none has. -/
theorem arguments_layered {fuel : Nat} {script : Script} {s : Session σ} {p : Point σ}
    (hcalls : s.calls = []) (h : r.Reaches (r.beginning fuel script s) p) :
    Recorded p.session.calls p.around ∧
    p.session.scope.overrides = Scope.bindCalls s.scope.overrides p.session.calls ∧
    (∀ k, 0 < k → p.session.scope.overrides.get? (toString k) =
      (p.session.calls.findSome? (·.args[k - 1]?) <|> s.scope.overrides.get? (toString k))) ∧
    (∀ name, (∀ k, 0 < k → name ≠ toString k) →
      p.session.scope.overrides.get? name = s.scope.overrides.get? name) ∧
    (∀ k default now, 0 < k → Scope.IsLiteral default →
      (∀ call ∈ p.session.calls, call.args.length < k) →
      (∀ layer ∈ [s.scope.overrides, p.session.scope.vars, s.scope.env],
        layer.get? (toString k) = none) →
      p.session.scope.expand now (String.ofList (Scope.positionOr k default)) =
        (String.ofList default, p.session.scope)) := by
  obtain ⟨since, hsince, hlayers⟩ := reaches_layered h
  obtain ⟨henv, hoverrides⟩ := Prod.mk.inj hlayers
  have heq : since = p.session.calls := by
    rw [hcalls, List.append_nil] at hsince
    exact hsince.symm
  rw [heq] at hoverrides
  have hposition : ∀ k, 0 < k → p.session.scope.overrides.get? (toString k) =
      (p.session.calls.findSome? (·.args[k - 1]?) <|> s.scope.overrides.get? (toString k)) := by
    intro k hk
    rw [hoverrides, Scope.get?_bindCalls_position hk]
  refine ⟨reaches_recorded hcalls h, hoverrides, hposition, ?_, ?_⟩
  · intro name hname
    rw [hoverrides, Scope.get?_bindCalls_other hname]
  · intro k default now hk hliteral hshort hunbound
    have hopen : p.session.calls.findSome? (·.args[k - 1]?) = none := by
      refine List.findSome?_eq_none_iff.mpr fun call hcall => List.getElem?_eq_none ?_
      have := hshort call hcall
      omega
    have hnone : p.session.scope.get? (toString k) = none := by
      simp only [List.forall_mem_cons] at hunbound
      obtain ⟨hinitial, hvars, henv', -⟩ := hunbound
      simp only [Scope.get?, hposition k hk, hopen, hinitial, hvars, henv, henv']
      rfl
    refine Scope.expand_positionOr now hliteral ?_
    rw [Scope.nonempty?, hnone]
    rfl

/-- Inside of two calls, of which the outer one has the second argument and none
    has a third. -/
theorem arguments_layered_nested :
    ∃ p, keyLogger.Reaches (keyLogger.beginning 3 nestedCalls (.start .empty [])) p ∧
      p.session.calls = [⟨"inner", ["c"], 5⟩, ⟨"outer", ["a", "b"], 7⟩] ∧
      p.session.scope.overrides.get? (toString 1) = some "c" ∧
      p.session.scope.overrides.get? (toString 2) = some "b" ∧
      p.session.scope.overrides.get? "HOME" = none ∧
      p.session.scope.expand 0 "$\x7b3:-none\x7d" = ("none", p.session.scope) := by
  obtain ⟨p, hp, hcalls, hscope⟩ := nestedCalls_reaches
  obtain ⟨-, -, hposition, hother, hdefault⟩ := arguments_layered rfl hp
  refine ⟨p, hp, hcalls, ?_, ?_, ?_, ?_⟩
  · rw [hposition 1 (by decide), hcalls]
    rfl
  · rw [hposition 2 (by decide), hcalls]
    rfl
  · refine hother "HOME" fun k _ heq => ?_
    have hletter : 'H' ∈ Nat.toDigits 10 k := by
      rw [← Nat.toList_repr, ← Nat.toString_eq_repr, ← heq]
      decide
    exact absurd (Nat.isDigit_of_mem_toDigits (by decide) (by decide) hletter) (by decide)
  · have hliteral : Scope.IsLiteral "none".toList := ⟨by decide, by decide, by decide, by decide⟩
    refine hdefault 3 "none".toList 0 (by decide) hliteral ?_ ?_
    · rw [hcalls]
      decide
    · rw [hscope]
      decide

end ConsoleScript.Runner
