-- SUMMARY: The statements of a script at every depth, and the lists of statements they stand in.
import ConsoleScript.Stmt

/-!
# Statements at every depth

`Stmt.nodes` lists a statement and all statements inside of it, in the order of
`Stmt.walk`, so that a fact about every line of a script is a fact about its
nodes. `Stmt.bodies` are the lists that a statement owns itself.
-/

namespace ConsoleScript

namespace Stmt

mutual

/-- A statement and all that are inside of it. -/
def nodes : Stmt → List Stmt
  | plain line => [plain line]
  | action line a => [action line a]
  | loop line l body => loop line l body :: nodesAll body
  | branch line c yes no => branch line c yes no :: (nodesAll yes ++ nodesAll no)
  | switch line o cases none => switch line o cases none :: nodesCases cases
  | switch line o cases (some body) =>
    switch line o cases (some body) :: (nodesCases cases ++ nodesAll body)

/-- The nodes of a list of statements. -/
def nodesAll : List Stmt → List Stmt
  | [] => []
  | s :: rest => nodes s ++ nodesAll rest

/-- The nodes in the bodies of a list of cases. -/
def nodesCases : List (Case Stmt) → List Stmt
  | [] => []
  | ⟨_, _, _, body⟩ :: rest => nodesAll body ++ nodesCases rest

end

/-- The lists of statements that a statement owns. -/
def bodies : Stmt → List (List Stmt)
  | plain _ | action _ _ => []
  | loop _ _ body => [body]
  | branch _ _ yes no => [yes, no]
  | switch _ _ cases otherwise => cases.map (·.body) ++ otherwise.toList

/-! ## Nodes and bodies -/

theorem nodesAll_eq_flatMap (ss : List Stmt) : nodesAll ss = ss.flatMap nodes := by
  induction ss with
  | nil => simp [nodesAll]
  | cons s rest ih => simp [nodesAll, ih]

theorem nodesCases_eq_flatMap (cases : List (Case Stmt)) :
    nodesCases cases = (cases.map (·.body)).flatMap nodesAll := by
  induction cases with
  | nil => simp [nodesCases]
  | cons c rest ih =>
    obtain ⟨pattern, first, last, body⟩ := c
    simp [nodesCases, ih]

/-- The nodes of a statement are the statement and the nodes of its bodies. -/
theorem nodes_eq_cons (s : Stmt) : s.nodes = s :: s.bodies.flatMap nodesAll := by
  cases s with
  | plain line => simp [nodes, bodies]
  | action line a => simp [nodes, bodies]
  | loop line l body => simp [nodes, bodies]
  | branch line c yes no => simp [nodes, bodies]
  | switch line o cases otherwise =>
    cases otherwise with
    | none => simp [nodes, bodies, nodesCases_eq_flatMap]
    | some body => simp [nodes, bodies, nodesCases_eq_flatMap]

theorem mem_nodesAll {t : Stmt} {ss : List Stmt} : t ∈ nodesAll ss ↔ ∃ s ∈ ss, t ∈ s.nodes := by
  rw [nodesAll_eq_flatMap, List.mem_flatMap]

theorem mem_nodes_self (s : Stmt) : s ∈ s.nodes := by
  rw [nodes_eq_cons]
  exact List.mem_cons_self

theorem mem_nodes_of_body {s t : Stmt} {ss : List Stmt} (hss : ss ∈ s.bodies)
    (ht : t ∈ nodesAll ss) : t ∈ s.nodes := by
  rw [nodes_eq_cons]
  exact List.mem_cons_of_mem s (List.mem_flatMap.mpr ⟨ss, hss, ht⟩)

/-- A fact about all nodes of a statement is one about itself and about the nodes of what it
    owns. -/
theorem forall_mem_nodes {P : Stmt → Prop} {s : Stmt} :
    (∀ t ∈ s.nodes, P t) ↔ P s ∧ ∀ body ∈ s.bodies, ∀ t ∈ body, ∀ u ∈ t.nodes, P u := by
  simp only [nodes_eq_cons s, List.forall_mem_cons, List.mem_flatMap, mem_nodesAll]
  refine and_congr_right fun _ => ⟨fun h body hbody t ht u hu => h u ⟨body, hbody, t, ht, hu⟩, ?_⟩
  rintro h u ⟨body, hbody, t, ht, hu⟩
  exact h body hbody t ht u hu

/-- What a statement owns is smaller. -/
theorem sizeOf_lt_of_body {x y : Stmt} {body : List Stmt} (hbody : body ∈ x.bodies)
    (hy : y ∈ body) : sizeOf y < sizeOf x := by
  have hlt := List.sizeOf_lt_of_mem hy
  cases x with
  | plain line => cases hbody
  | action line a => cases hbody
  | loop line l own =>
    obtain rfl := List.mem_singleton.mp hbody
    simp only [loop.sizeOf_spec]
    omega
  | branch line c yes no =>
    have hown : body = yes ∨ body = no := by simpa [bodies] using hbody
    simp only [branch.sizeOf_spec]
    rcases hown with rfl | rfl <;> omega
  | switch line options cases otherwise =>
    simp only [switch.sizeOf_spec]
    rcases List.mem_append.mp hbody with hcase | hdefault
    · obtain ⟨⟨pattern, first, last, own⟩, hc, rfl⟩ := List.mem_map.mp hcase
      have hcases := List.sizeOf_lt_of_mem hc
      simp only [Case.mk.sizeOf_spec] at hcases hlt
      omega
    · obtain rfl := Option.mem_toList.mp hdefault
      simp only [Option.some.sizeOf_spec]
      omega

@[simp] theorem nodesAll_nil : nodesAll [] = [] := by simp [nodesAll]

@[simp] theorem nodesAll_cons (s : Stmt) (rest : List Stmt) :
    nodesAll (s :: rest) = s.nodes ++ nodesAll rest := by simp [nodesAll]

@[simp] theorem nodesAll_append (ss ts : List Stmt) :
    nodesAll (ss ++ ts) = nodesAll ss ++ nodesAll ts := by
  simp [nodesAll_eq_flatMap]

theorem nodesAll_perm {ss ts : List Stmt} (h : ss.Perm ts) : (nodesAll ss).Perm (nodesAll ts) := by
  rw [nodesAll_eq_flatMap, nodesAll_eq_flatMap]
  exact h.flatMap_right nodes

/-! ## Heads -/

/-- The lines of a statement with their directives. -/
def heads (s : Stmt) : List Entry := s.nodes.map entry

/-- The lines of a list of statements with their directives. -/
def headsAll (ss : List Stmt) : List Entry := (nodesAll ss).map entry

@[simp] theorem heads_plain (line : Line) : (plain line).heads = [⟨line, none⟩] := by
  simp [heads, nodes, entry, Stmt.line, Stmt.directive]

@[simp] theorem heads_action (line : Line) (a : Action) :
    (action line a).heads = [⟨line, some (.action a)⟩] := by
  simp [heads, nodes, entry, Stmt.line, Stmt.directive]

@[simp] theorem heads_loop (line : Line) (l : Loop) (body : List Stmt) :
    (loop line l body).heads = ⟨line, some (.loop l)⟩ :: headsAll body := by
  simp [heads, headsAll, nodes, entry, Stmt.line, Stmt.directive]

@[simp] theorem heads_branch (line : Line) (c : Condition) (yes no : List Stmt) :
    (branch line c yes no).heads =
      ⟨line, some (.condition c)⟩ :: (headsAll yes ++ headsAll no) := by
  simp [heads, headsAll, nodes, entry, Stmt.line, Stmt.directive]

theorem heads_switch (line : Line) (o : SwitchOptions) (cases : List (Case Stmt))
    (otherwise : Option (List Stmt)) :
    (switch line o cases otherwise).heads =
      ⟨line, some (.switch o)⟩ ::
        ((cases.flatMap fun c => headsAll c.body) ++ otherwise.toList.flatMap headsAll) := by
  simp only [heads, nodes_eq_cons, bodies, List.map_cons, entry, Stmt.line, Stmt.directive,
    List.flatMap_append, List.flatMap_map, List.map_append, List.map_flatMap]
  rfl

@[simp] theorem headsAll_nil : headsAll [] = [] := by simp [headsAll]

@[simp] theorem headsAll_cons (s : Stmt) (rest : List Stmt) :
    headsAll (s :: rest) = s.heads ++ headsAll rest := by simp [headsAll, heads]

@[simp] theorem headsAll_append (ss ts : List Stmt) :
    headsAll (ss ++ ts) = headsAll ss ++ headsAll ts := by simp [headsAll]

theorem headsAll_perm {ss ts : List Stmt} (h : ss.Perm ts) : (headsAll ss).Perm (headsAll ts) :=
  (nodesAll_perm h).map _

theorem headsAll_reverse_perm (ss : List Stmt) : (headsAll ss.reverse).Perm (headsAll ss) :=
  headsAll_perm (List.reverse_perm ss)

/-! ## The walk -/

mutual

/-- Walking a statement visits the lines of its nodes. -/
theorem walk_eq_map_nodes (s : Stmt) : s.walk = s.nodes.map line := by
  match s with
  | plain l => simp [walk, nodes, line]
  | action l a => simp [walk, nodes, line]
  | loop l c body => simp [walk, nodes, line, walkAll_eq_map_nodesAll body]
  | branch l c yes no =>
    simp [walk, nodes, line, walkAll_eq_map_nodesAll yes, walkAll_eq_map_nodesAll no]
  | switch l o cases none => simp [walk, nodes, line, walkCases_eq_map_nodesCases cases]
  | switch l o cases (some body) =>
    simp [walk, nodes, line, walkCases_eq_map_nodesCases cases, walkAll_eq_map_nodesAll body]

theorem walkAll_eq_map_nodesAll (ss : List Stmt) : walkAll ss = (nodesAll ss).map line := by
  match ss with
  | [] => simp [walkAll]
  | s :: rest => simp [walkAll, walk_eq_map_nodes s, walkAll_eq_map_nodesAll rest]

theorem walkCases_eq_map_nodesCases (cases : List (Case Stmt)) :
    walkCases cases = (nodesCases cases).map line := by
  match cases with
  | [] => simp [walkCases, nodesCases]
  | ⟨_, _, _, body⟩ :: rest =>
    simp [walkCases, nodesCases, walkAll_eq_map_nodesAll body, walkCases_eq_map_nodesCases rest]

end

end Stmt

/-! ## Scripts -/

namespace Script

/-- All statements of a script, in the order of `Script.walk`. -/
def nodes (script : Script) : List Stmt :=
  Stmt.nodesAll script.body ++ script.functionsByName.flatMap fun f => Stmt.nodesAll f.body

/-- All lists of statements of a script: what stands outside functions, the
    bodies of the functions, and what the statements own at every depth. -/
def lists (script : Script) : List (List Stmt) :=
  script.body :: script.functions.map (·.body) ++ script.nodes.flatMap Stmt.bodies

/-- The lines that a walk visits are those of the nodes. -/
theorem map_walk_eq_map_nodes (script : Script) :
    script.walk.map Prod.fst = script.nodes.map Stmt.line := by
  simp [walk, nodes, Stmt.walkAll_eq_map_nodesAll, List.map_flatMap, Function.comp_def]

theorem mem_nodes_of_function {script : Script} {f : Function} (hf : f ∈ script.functions)
    {x : Stmt} (hx : x ∈ Stmt.nodesAll f.body) : x ∈ script.nodes := by
  have hsorted : f ∈ script.functionsByName := (sortBy_perm _ _).mem_iff.mpr hf
  exact List.mem_append_right _ (List.mem_flatMap.mpr ⟨f, hsorted, hx⟩)

/-- The nodes, whatever the order of the functions. -/
theorem nodes_perm (script : Script) :
    script.nodes.Perm (Stmt.nodesAll (script.body ++ script.functions.flatMap (·.body))) := by
  have hsort : script.functionsByName.Perm script.functions := sortBy_perm _ _
  have hfuns : (script.functionsByName.flatMap fun f => Stmt.nodesAll f.body).Perm
      (script.functions.flatMap fun f => Stmt.nodesAll f.body) := hsort.flatMap_right _
  have hflat : (script.functions.flatMap fun f => Stmt.nodesAll f.body) =
      Stmt.nodesAll (script.functions.flatMap (·.body)) := by
    simp [Stmt.nodesAll_eq_flatMap, List.flatMap_assoc]
  rw [Stmt.nodesAll_append, ← hflat]
  exact hfuns.append_left _

end Script

end ConsoleScript
