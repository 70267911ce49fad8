-- SUMMARY: Which statements have a loop or a switch around them, and how validation tells.
import Mathlib.Data.List.Nodup
import ConsoleScript.Proofs.Script.Findings
import ConsoleScript.Proofs.Script.Regrouping

/-!
# Loops and switches around a statement

Validation hands a flag down the tree that tells whether a loop or a switch is around.
`Stmt.flagged` lists the statements of a tree with that flag, so that the issues of a
tree are those of its statements one by one (`stmts_eq_flatMap_flagged`). A break is
reported as idle exactly if its flag is off (`idleBreak_mem_validate_iff`). Where each
line has a number of its own, a statement has one flag only (`flagged_unique`).
-/

namespace ConsoleScript

namespace Stmt

mutual

/-- A statement and all that are inside of it, each with whether a loop or a switch is
    around it. -/
def flagged (inLoop : Bool) : Stmt → List (Stmt × Bool)
  | plain line => [(plain line, inLoop)]
  | action line a => [(action line a, inLoop)]
  | loop line l body => (loop line l body, inLoop) :: flaggedAll true body
  | branch line c yes no =>
    (branch line c yes no, inLoop) :: (flaggedAll inLoop yes ++ flaggedAll inLoop no)
  | switch line o cases none => (switch line o cases none, inLoop) :: flaggedCases cases
  | switch line o cases (some body) =>
    (switch line o cases (some body), inLoop) :: (flaggedCases cases ++ flaggedAll true body)

/-- The statements of a list at every depth with their flags. -/
def flaggedAll (inLoop : Bool) : List Stmt → List (Stmt × Bool)
  | [] => []
  | s :: rest => flagged inLoop s ++ flaggedAll inLoop rest

/-- The statements in the bodies of a list of cases with their flags. -/
def flaggedCases : List (Case Stmt) → List (Stmt × Bool)
  | [] => []
  | ⟨_, _, _, body⟩ :: rest => flaggedAll true body ++ flaggedCases rest

end

/-- The flag of the statements that a statement owns. -/
def flagInside (inLoop : Bool) (s : Stmt) : Bool :=
  inLoop || s.directive.any Directive.isBreakable

theorem flaggedAll_eq_flatMap (inLoop : Bool) (ss : List Stmt) :
    flaggedAll inLoop ss = ss.flatMap (flagged inLoop) := by
  induction ss with
  | nil => simp [flaggedAll]
  | cons s rest ih => simp [flaggedAll, ih]

theorem flaggedCases_eq_flatMap (cases : List (Case Stmt)) :
    flaggedCases cases = (cases.map (·.body)).flatMap (flaggedAll true) := by
  induction cases with
  | nil => simp [flaggedCases]
  | cons c rest ih =>
    obtain ⟨pattern, first, last, body⟩ := c
    simp [flaggedCases, ih]

/-- What a statement owns has one flag, whichever list it stands in. -/
theorem flagged_eq_cons (inLoop : Bool) (s : Stmt) :
    s.flagged inLoop = (s, inLoop) :: s.bodies.flatMap (flaggedAll (s.flagInside inLoop)) := by
  cases s with
  | plain line => simp [flagged, bodies]
  | action line a => simp [flagged, bodies]
  | loop line l body => simp [flagged, bodies, flagInside, directive, Directive.isBreakable]
  | branch line c yes no => simp [flagged, bodies, flagInside, directive, Directive.isBreakable]
  | switch line o cases otherwise =>
    cases otherwise <;>
      simp [flagged, bodies, flagInside, directive, Directive.isBreakable, flaggedCases_eq_flatMap]

mutual

/-- The statements with flags are the nodes. -/
theorem map_fst_flagged (inLoop : Bool) (s : Stmt) :
    (s.flagged inLoop).map Prod.fst = s.nodes := by
  match s with
  | plain l => simp [flagged, nodes]
  | action l a => simp [flagged, nodes]
  | loop l c body => simp [flagged, nodes, map_fst_flaggedAll true body]
  | branch l c yes no =>
    simp [flagged, nodes, map_fst_flaggedAll inLoop yes, map_fst_flaggedAll inLoop no]
  | switch l o cases none => simp [flagged, nodes, map_fst_flaggedCases cases]
  | switch l o cases (some body) =>
    simp [flagged, nodes, map_fst_flaggedCases cases, map_fst_flaggedAll true body]

theorem map_fst_flaggedAll (inLoop : Bool) (ss : List Stmt) :
    (flaggedAll inLoop ss).map Prod.fst = nodesAll ss := by
  match ss with
  | [] => simp [flaggedAll]
  | s :: rest => simp [flaggedAll, map_fst_flagged inLoop s, map_fst_flaggedAll inLoop rest]

theorem map_fst_flaggedCases (cases : List (Case Stmt)) :
    (flaggedCases cases).map Prod.fst = nodesCases cases := by
  match cases with
  | [] => simp [flaggedCases, nodesCases]
  | ⟨_, _, _, body⟩ :: rest =>
    simp [flaggedCases, nodesCases, map_fst_flaggedAll true body, map_fst_flaggedCases rest]

end

theorem mem_flaggedAll_of_mem (inLoop : Bool) {s : Stmt} {ss : List Stmt} (hs : s ∈ ss) :
    (s, inLoop) ∈ flaggedAll inLoop ss := by
  rw [flaggedAll_eq_flatMap]
  refine List.mem_flatMap.mpr ⟨s, hs, ?_⟩
  rw [flagged_eq_cons]
  exact List.mem_cons_self

/-- Inside of a statement that has a flag, all have the flag that it hands down. -/
theorem mem_flagged_of_body {x y : Stmt} {flag inLoop : Bool} {body : List Stmt} (s : Stmt)
    (hx : (x, flag) ∈ s.flagged inLoop) (hbody : body ∈ x.bodies) (hy : y ∈ body) :
    (y, x.flagInside flag) ∈ s.flagged inLoop := by
  rw [flagged_eq_cons] at hx ⊢
  refine List.mem_cons_of_mem _ (List.mem_flatMap.mpr ?_)
  rcases List.mem_cons.mp hx with heq | hx
  · cases heq
    exact ⟨body, hbody, mem_flaggedAll_of_mem _ hy⟩
  · obtain ⟨own, hown, hx⟩ := List.mem_flatMap.mp hx
    rw [flaggedAll_eq_flatMap] at hx
    obtain ⟨z, hz, hx⟩ := List.mem_flatMap.mp hx
    have := sizeOf_lt_of_body hown hz
    refine ⟨own, hown, ?_⟩
    rw [flaggedAll_eq_flatMap]
    exact List.mem_flatMap.mpr ⟨z, hz, mem_flagged_of_body z hx hbody hy⟩
termination_by sizeOf s

theorem mem_flaggedAll_of_body {x y : Stmt} {flag inLoop : Bool} {ss body : List Stmt}
    (hx : (x, flag) ∈ flaggedAll inLoop ss) (hbody : body ∈ x.bodies) (hy : y ∈ body) :
    (y, x.flagInside flag) ∈ flaggedAll inLoop ss := by
  rw [flaggedAll_eq_flatMap] at hx ⊢
  obtain ⟨s, hs, hx⟩ := List.mem_flatMap.mp hx
  exact List.mem_flatMap.mpr ⟨s, hs, mem_flagged_of_body s hx hbody hy⟩

end Stmt

namespace Script

open Stmt (flaggedAll)

/-! ## Issues of single statements -/

namespace Check

variable (check : Check) (inFunction : Bool)

/-- The issues of a statement itself, without those of what is inside of it. -/
def own (inLoop : Bool) : Stmt → List Issue
  | .plain line => check.stmt inFunction inLoop (.plain line)
  | .action line a => check.stmt inFunction inLoop (.action line a)
  | .loop line l _ => (loopTexts l).flatMap (check.references inFunction line.number)
  | .branch line c _ _ => check.references inFunction line.number c.text
  | .switch line _ cases _ =>
    cases.flatMap fun c => check.references inFunction line.number c.pattern

mutual

theorem stmt_eq_flatMap_flagged (inLoop : Bool) (s : Stmt) :
    check.stmt inFunction inLoop s =
      (s.flagged inLoop).flatMap fun x => check.own inFunction x.2 x.1 := by
  match s with
  | .plain l => simp [Stmt.flagged, own]
  | .action l a => simp [Stmt.flagged, own]
  | .loop l c body => simp [Stmt.flagged, own, stmt, stmts_eq_flatMap_flagged true body]
  | .branch l c yes no =>
    simp [Stmt.flagged, own, stmt, stmts_eq_flatMap_flagged inLoop yes,
      stmts_eq_flatMap_flagged inLoop no]
  | .switch l o cases none =>
    simp [Stmt.flagged, own, stmt, caseBodies_eq_flatMap_flagged cases]
  | .switch l o cases (some body) =>
    simp [Stmt.flagged, own, stmt, caseBodies_eq_flatMap_flagged cases,
      stmts_eq_flatMap_flagged true body]

/-- The issues of a list are those of its statements, each with its flag. -/
theorem stmts_eq_flatMap_flagged (inLoop : Bool) (ss : List Stmt) :
    check.stmts inFunction inLoop ss =
      (flaggedAll inLoop ss).flatMap fun x => check.own inFunction x.2 x.1 := by
  match ss with
  | [] => simp [stmts, flaggedAll]
  | s :: rest =>
    simp [stmts, flaggedAll, stmt_eq_flatMap_flagged inLoop s, stmts_eq_flatMap_flagged inLoop rest]

theorem caseBodies_eq_flatMap_flagged (cases : List (Case Stmt)) :
    check.caseBodies inFunction cases =
      (Stmt.flaggedCases cases).flatMap fun x => check.own inFunction x.2 x.1 := by
  match cases with
  | [] => simp [caseBodies, Stmt.flaggedCases]
  | ⟨_, _, _, body⟩ :: rest =>
    simp [caseBodies, Stmt.flaggedCases, stmts_eq_flatMap_flagged true body,
      caseBodies_eq_flatMap_flagged rest]

end

variable {check inFunction}

theorem idleBreak_not_mem_references (n line : Nat) (text : String) :
    ⟨n, .idleBreak⟩ ∉ check.references inFunction line text := by
  intro h
  obtain ⟨name, -, hissue⟩ := List.mem_filterMap.mp h
  split at hissue
  · cases hissue
  · cases hissue

/-- Only breaks are idle, and only if no loop or switch is around them. -/
theorem idleBreak_mem_own_iff {n : Nat} {inLoop : Bool} {s : Stmt} :
    ⟨n, .idleBreak⟩ ∈ check.own inFunction inLoop s ↔
      ∃ line, s = .action line .doBreak ∧ inLoop = false ∧ line.number = n := by
  cases s with
  | plain line =>
    simp only [own, stmt, reduceCtorEq, false_and, exists_false, iff_false]
    split
    · simp
    · split
      · simp
      · exact idleBreak_not_mem_references _ _ _
  | action line a =>
    have hfinding : check.actionFinding? inLoop a = some .idleBreak ↔
        a = .doBreak ∧ inLoop = false := by
      cases a <;> simp [actionFinding?]
    simp only [own, stmt, List.mem_append, List.mem_flatMap, List.mem_map, Option.mem_toList,
      Issue.mk.injEq, idleBreak_not_mem_references, and_false, exists_false, false_or,
      Stmt.action.injEq]
    constructor
    · rintro ⟨finding, hsome, hline, rfl⟩
      obtain ⟨rfl, hflag⟩ := hfinding.mp hsome
      exact ⟨line, ⟨rfl, rfl⟩, hflag, hline⟩
    · rintro ⟨line', ⟨rfl, ha⟩, hflag, hline⟩
      exact ⟨.idleBreak, hfinding.mpr ⟨ha, hflag⟩, hline, rfl⟩
  | loop line l body => simp [own, idleBreak_not_mem_references]
  | branch line c yes no => simp [own, idleBreak_not_mem_references]
  | switch line o cases otherwise => simp [own, idleBreak_not_mem_references]

theorem idleBreak_mem_stmts_iff {n : Nat} {inLoop : Bool} {ss : List Stmt} :
    ⟨n, .idleBreak⟩ ∈ check.stmts inFunction inLoop ss ↔
      ∃ line, (.action line .doBreak, false) ∈ flaggedAll inLoop ss ∧ line.number = n := by
  rw [stmts_eq_flatMap_flagged, List.mem_flatMap]
  constructor
  · rintro ⟨⟨s, flag⟩, hmem, hissue⟩
    obtain ⟨line, rfl, rfl, hline⟩ := idleBreak_mem_own_iff.mp hissue
    exact ⟨line, hmem, hline⟩
  · rintro ⟨line, hmem, hline⟩
    exact ⟨_, hmem, idleBreak_mem_own_iff.mpr ⟨line, rfl, rfl, hline⟩⟩

end Check

/-! ## Issues of a script -/

variable {script : Script} {scope : Scope}

/-- The statements of a script, each with whether a loop or a switch is around it. A
    function begins outside of both. -/
def flagged (script : Script) : List (Stmt × Bool) :=
  flaggedAll false script.body ++ script.functionsByName.flatMap fun f => flaggedAll false f.body

theorem map_fst_flagged (script : Script) : script.flagged.map Prod.fst = script.nodes := by
  simp [flagged, nodes, Stmt.map_fst_flaggedAll, List.map_flatMap]

theorem mem_flagged_of_function {f : Function} {x : Stmt} (hf : f ∈ script.functions)
    (hx : x ∈ f.body) : (x, false) ∈ script.flagged := by
  have hsorted : f ∈ script.functionsByName := (sortBy_perm _ _).mem_iff.mpr hf
  refine List.mem_append_right _ (List.mem_flatMap.mpr ⟨f, hsorted, ?_⟩)
  exact Stmt.mem_flaggedAll_of_mem false hx

theorem mem_flagged_of_body {x y : Stmt} {flag : Bool} {body : List Stmt}
    (hx : (x, flag) ∈ script.flagged) (hbody : body ∈ x.bodies) (hy : y ∈ body) :
    (y, x.flagInside flag) ∈ script.flagged := by
  rcases List.mem_append.mp hx with hx | hx
  · exact List.mem_append_left _ (Stmt.mem_flaggedAll_of_body hx hbody hy)
  · obtain ⟨f, hf, hx⟩ := List.mem_flatMap.mp hx
    refine List.mem_append_right _ (List.mem_flatMap.mpr ⟨f, hf, ?_⟩)
    exact Stmt.mem_flaggedAll_of_body hx hbody hy

/-- Lines that are told apart by their numbers have one flag each. -/
theorem flagged_unique (hnumbers : (script.nodes.map (·.line.number)).Nodup) {x y : Stmt}
    {flag flag' : Bool} (hx : (x, flag) ∈ script.flagged) (hy : (y, flag') ∈ script.flagged)
    (hnumber : x.line.number = y.line.number) : flag = flag' := by
  rw [← map_fst_flagged, List.map_map] at hnumbers
  exact congrArg Prod.snd (List.inj_on_of_nodup_map hnumbers hx hy hnumber)

theorem reportOnce_sublist (seen issues : List Issue) :
    (reportOnce seen issues).Sublist issues := by
  fun_induction reportOnce seen issues with
  | case1 => exact .slnil
  | case2 seen head rest name hhead hseen ih => exact ih.cons head
  | case3 seen head rest name hhead hseen ih => exact ih.cons_cons head
  | case4 seen head rest hhead ih => exact ih.cons_cons head

/-- A break is reported as idle exactly if no loop or switch is around it. -/
theorem idleBreak_mem_validate_iff {n : Nat} :
    ⟨n, .idleBreak⟩ ∈ script.validate scope ↔
      ∃ line, (.action line .doBreak, false) ∈ script.flagged ∧ line.number = n := by
  have hfound : ⟨n, .idleBreak⟩ ∈ script.validate scope ↔
      ⟨n, .idleBreak⟩ ∈ (script.checkIn scope).stmts false false script.body ++
        script.functionsByName.flatMap fun f => (script.checkIn scope).stmts true false f.body := by
    refine (sortBy_perm _ _).mem_iff.trans ⟨?_, ?_⟩
    · exact fun h => (reportOnce_sublist [] _).mem h
    · exact fun h => mem_reportOnce (by simp) [] h
  simp only [hfound, List.mem_append, List.mem_flatMap, Check.idleBreak_mem_stmts_iff, flagged]
  constructor
  · rintro (⟨line, hline, hnumber⟩ | ⟨f, hf, line, hline, hnumber⟩)
    · exact ⟨line, .inl hline, hnumber⟩
    · exact ⟨line, .inr ⟨f, hf, hline⟩, hnumber⟩
  · rintro ⟨line, hline | ⟨f, hf, hline⟩, hnumber⟩
    · exact .inl ⟨line, hline, hnumber⟩
    · exact .inr ⟨f, hf, line, hline, hnumber⟩

/-- No two lines of a script that was parsed have the same number. -/
theorem nodup_numbers_of_parse {now : Int} {scope' : Scope} {text : String}
    (h : parse now scope text = (.ok script, scope')) :
    (script.nodes.map (·.line.number)).Nodup := by
  obtain ⟨entries, g, hread, hsteps, hscript⟩ := parseLines_eq_ok_iff.mp h
  have hnumbers := readLines_numbers hread
  have hlength : entries.length = (Text.lines text).length := by
    simpa using congrArg List.length hnumbers
  rw [← hlength] at hnumbers
  exact nodup_node_numbers hnumbers (heads_perm_kept hread hsteps hscript)

end Script

end ConsoleScript
