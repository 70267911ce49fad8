-- SUMMARY: Scripts whose lines are changed, and that validation judges them by what stands in the lines.
import ConsoleScript.Proofs.Script.Nodes
import ConsoleScript.Script.Validate

/-!
# Changing the lines of a script

`Script.mapLines f` changes every line of a script by `f` and keeps the tree, the
directives and the functions. Two scripts are the same up to what `f` forgets if
they become the same by it. `Line.scopeless` forgets what a line owes to the scope in
which it was read: its expanded text, and the value that it binds.
-/

namespace ConsoleScript

/-! ## Results that become the same -/

/-- Results that become the same are the same error, or both there. -/
theorem except_map_eq_map {ε α β : Type} {m : α → β} {x y : Except ε α} (h : x.map m = y.map m) :
    (∃ e, x = .error e ∧ y = .error e) ∨ ∃ a b, x = .ok a ∧ y = .ok b ∧ m a = m b := by
  cases x with
  | error e =>
    cases y with
    | error e' => exact .inl ⟨e, rfl, (congrArg Except.error (Except.error.inj h)).symm⟩
    | ok b => cases h
  | ok a =>
    cases y with
    | error e' => cases h
    | ok b => exact .inr ⟨a, b, rfl, rfl, Except.ok.inj h⟩

/-- Two optional results that become the same are both there or both not. -/
theorem option_map_eq_map {α β : Type} {m : α → β} {x y : Option α} (h : x.map m = y.map m) :
    (x = none ∧ y = none) ∨ ∃ a b, x = some a ∧ y = some b ∧ m a = m b := by
  cases x with
  | none =>
    cases y with
    | none => exact .inl ⟨rfl, rfl⟩
    | some b => cases h
  | some a =>
    cases y with
    | none => cases h
    | some b => exact .inr ⟨a, b, rfl, rfl, Option.some.inj h⟩

/-! ## Lines -/

/-- A change of lines that keeps what is looked at once they have been read. -/
structure Line.Faithful (f : Line → Line) : Prop where
  number : ∀ line, (f line).number = line.number
  trimmed : ∀ line, (f line).trimmed = line.trimmed
  kind : ∀ line, (f line).kind = line.kind

namespace Line

/-- The line without its expanded text and without the value that it binds. -/
def scopeless (line : Line) : Line :=
  { line with expanded := "", binding := line.binding.map fun (name, _) => (name, "") }

namespace Faithful

variable {f : Line → Line} {line line' : Line}

theorem number_eq (hf : Faithful f) (h : f line = f line') : line.number = line'.number := by
  rw [← hf.number, h, hf.number]

theorem trimmed_eq (hf : Faithful f) (h : f line = f line') : line.trimmed = line'.trimmed := by
  rw [← hf.trimmed, h, hf.trimmed]

theorem kind_eq (hf : Faithful f) (h : f line = f line') : line.kind = line'.kind := by
  rw [← hf.kind, h, hf.kind]

end Faithful

theorem faithful_id : Faithful id := ⟨fun _ => rfl, fun _ => rfl, fun _ => rfl⟩

theorem faithful_scopeless : Faithful scopeless := ⟨fun _ => rfl, fun _ => rfl, fun _ => rfl⟩

end Line

/-! ## Statements -/

namespace Stmt

variable {f : Line → Line}

mutual

/-- The statement with its lines changed, at every depth. -/
def mapLines (f : Line → Line) : Stmt → Stmt
  | plain line => plain (f line)
  | action line a => action (f line) a
  | loop line l body => loop (f line) l (mapLinesAll f body)
  | branch line c yes no => branch (f line) c (mapLinesAll f yes) (mapLinesAll f no)
  | switch line o cases none => switch (f line) o (mapLinesCases f cases) none
  | switch line o cases (some body) =>
    switch (f line) o (mapLinesCases f cases) (some (mapLinesAll f body))

/-- The statements with their lines changed. -/
def mapLinesAll (f : Line → Line) : List Stmt → List Stmt
  | [] => []
  | x :: rest => mapLines f x :: mapLinesAll f rest

/-- The cases with the lines of their bodies changed. -/
def mapLinesCases (f : Line → Line) : List (Case Stmt) → List (Case Stmt)
  | [] => []
  | ⟨pattern, first, last, body⟩ :: rest =>
    ⟨pattern, first, last, mapLinesAll f body⟩ :: mapLinesCases f rest

end

end Stmt

/-- The case with the lines of its body changed. -/
def Case.mapLines (f : Line → Line) (c : Case Stmt) : Case Stmt :=
  { c with body := c.body.map (Stmt.mapLines f) }

namespace Stmt

variable {f : Line → Line}

theorem mapLinesAll_eq_map (ss : List Stmt) : mapLinesAll f ss = ss.map (mapLines f) := by
  induction ss with
  | nil => simp [mapLinesAll]
  | cons x rest ih => simp [mapLinesAll, ih]

theorem mapLinesCases_eq_map (cases : List (Case Stmt)) :
    mapLinesCases f cases = cases.map (Case.mapLines f) := by
  induction cases with
  | nil => simp [mapLinesCases]
  | cons c rest ih =>
    obtain ⟨pattern, first, last, body⟩ := c
    simp [mapLinesCases, ih, Case.mapLines, mapLinesAll_eq_map]

theorem flatMap_pattern {α : Type} (g : String → List α) (cases : List (Case Stmt)) :
    (mapLinesCases f cases).flatMap (fun c => g c.pattern) =
      cases.flatMap fun c => g c.pattern := by
  rw [mapLinesCases_eq_map, List.flatMap_map]
  rfl

@[simp] theorem mapLines_plain (line : Line) : (plain line).mapLines f = plain (f line) := by
  simp [mapLines]

@[simp] theorem mapLines_action (line : Line) (a : Action) :
    (action line a).mapLines f = action (f line) a := by
  simp [mapLines]

@[simp] theorem mapLines_loop (line : Line) (l : Loop) (body : List Stmt) :
    (loop line l body).mapLines f = loop (f line) l (body.map (mapLines f)) := by
  simp [mapLines, mapLinesAll_eq_map]

@[simp] theorem mapLines_branch (line : Line) (c : Condition) (yes no : List Stmt) :
    (branch line c yes no).mapLines f =
      branch (f line) c (yes.map (mapLines f)) (no.map (mapLines f)) := by
  simp [mapLines, mapLinesAll_eq_map]

@[simp] theorem mapLines_switch (line : Line) (o : SwitchOptions) (cases : List (Case Stmt))
    (otherwise : Option (List Stmt)) :
    (switch line o cases otherwise).mapLines f =
      switch (f line) o (cases.map (Case.mapLines f)) (otherwise.map (List.map (mapLines f))) := by
  cases otherwise with
  | none => simp [mapLines, mapLinesCases_eq_map]
  | some body => simp [mapLines, mapLinesCases_eq_map, mapLinesAll_eq_map]

@[simp] theorem line_mapLines (x : Stmt) : (x.mapLines f).line = f x.line := by
  cases x <;> simp [line]

mutual

theorem mapLines_id (x : Stmt) : x.mapLines id = x := by
  match x with
  | plain l => simp [mapLines]
  | action l a => simp [mapLines]
  | loop l c body => simp [mapLines, mapLinesAll_id body]
  | branch l c yes no => simp [mapLines, mapLinesAll_id yes, mapLinesAll_id no]
  | switch l o cases none => simp [mapLines, mapLinesCases_id cases]
  | switch l o cases (some body) => simp [mapLines, mapLinesCases_id cases, mapLinesAll_id body]

theorem mapLinesAll_id (ss : List Stmt) : mapLinesAll id ss = ss := by
  match ss with
  | [] => simp [mapLinesAll]
  | x :: rest => simp [mapLinesAll, mapLines_id x, mapLinesAll_id rest]

theorem mapLinesCases_id (cases : List (Case Stmt)) : mapLinesCases id cases = cases := by
  match cases with
  | [] => simp [mapLinesCases]
  | ⟨_, _, _, body⟩ :: rest => simp [mapLinesCases, mapLinesAll_id body, mapLinesCases_id rest]

end

/-! ## Statements that become the same -/

/-- The statements of two lists become the same by `f`. -/
def AlikeAll (f : Line → Line) (ss ss' : List Stmt) : Prop :=
  ss.map (mapLines f) = ss'.map (mapLines f)

theorem AlikeAll.eq {ss ss' : List Stmt} (h : AlikeAll id ss ss') : ss = ss' := by
  simpa only [AlikeAll, ← mapLinesAll_eq_map, mapLinesAll_id] using h

/-- Two statements that become the same by `f` differ in what their lines owe to it,
    and in nothing else. -/
inductive Alike (f : Line → Line) : Stmt → Stmt → Prop where
  | plain {l l' : Line} (h : f l = f l') : Alike f (plain l) (plain l')
  | action {l l' : Line} {a : Action} (h : f l = f l') : Alike f (action l a) (action l' a)
  | loop {l l' : Line} {c : Loop} {body body' : List Stmt} (h : f l = f l')
      (hbody : AlikeAll f body body') : Alike f (loop l c body) (loop l' c body')
  | branch {l l' : Line} {c : Condition} {yes yes' no no' : List Stmt} (h : f l = f l')
      (hyes : AlikeAll f yes yes') (hno : AlikeAll f no no') :
      Alike f (branch l c yes no) (branch l' c yes' no')
  | switch {l l' : Line} {o : SwitchOptions} {cases cases' : List (Case Stmt)}
      {otherwise otherwise' : Option (List Stmt)} (h : f l = f l')
      (hcases : cases.map (Case.mapLines f) = cases'.map (Case.mapLines f))
      (hotherwise : otherwise.map (List.map (mapLines f)) =
        otherwise'.map (List.map (mapLines f))) :
      Alike f (switch l o cases otherwise) (switch l' o cases' otherwise')

theorem alike_of_mapLines_eq {x x' : Stmt} (h : x.mapLines f = x'.mapLines f) : Alike f x x' := by
  cases x with
  | plain l =>
    cases x' with
    | plain l' => exact .plain (by simpa using h)
    | action | loop | branch | switch => simp at h
  | action l a =>
    cases x' with
    | action l' a' =>
      simp only [mapLines_action, action.injEq] at h
      obtain ⟨hline, rfl⟩ := h
      exact .action hline
    | plain | loop | branch | switch => simp at h
  | loop l c body =>
    cases x' with
    | loop l' c' body' =>
      simp only [mapLines_loop, loop.injEq] at h
      obtain ⟨hline, rfl, hbody⟩ := h
      exact .loop hline hbody
    | plain | action | branch | switch => simp at h
  | branch l c yes no =>
    cases x' with
    | branch l' c' yes' no' =>
      simp only [mapLines_branch, branch.injEq] at h
      obtain ⟨hline, rfl, hyes, hno⟩ := h
      exact .branch hline hyes hno
    | plain | action | loop | switch => simp at h
  | switch l o cases otherwise =>
    cases x' with
    | switch l' o' cases' otherwise' =>
      simp only [mapLines_switch, switch.injEq] at h
      obtain ⟨hline, rfl, hcases, hotherwise⟩ := h
      exact .switch hline hcases hotherwise
    | plain | action | loop | branch => simp at h

end Stmt

/-! ## Scripts -/

/-- The function with the lines of its body changed. -/
def Function.mapLines (f : Line → Line) (fn : Function) : Function :=
  { fn with body := fn.body.map (Stmt.mapLines f) }

/-- Which function has a name does not depend on the lines. -/
theorem Function.find?_mapLines (f : Line → Line) (functions : List Function) (name : String) :
    (functions.map (mapLines f)).find? (·.name == name) =
      (functions.find? (·.name == name)).map (mapLines f) := by
  rw [List.find?_map]
  rfl

/-- The script with all its lines changed. -/
def Script.mapLines (f : Line → Line) (script : Script) : Script :=
  { script with
    body := script.body.map (Stmt.mapLines f)
    functions := script.functions.map (Function.mapLines f) }

/-! ## Validation -/

namespace Script

variable {f : Line → Line}

namespace Check

variable {check : Check} {inFunction : Bool}

mutual

theorem stmt_mapLines (hf : Line.Faithful f) (breakable : Bool) (x : Stmt) :
    check.stmt inFunction breakable (x.mapLines f) = check.stmt inFunction breakable x := by
  match x with
  | .plain line => simp [Stmt.mapLines, stmt, hf.number, hf.kind, hf.trimmed]
  | .action line a => simp [Stmt.mapLines, stmt, hf.number]
  | .loop line l body => simp [Stmt.mapLines, stmt, hf.number, stmts_mapLines hf true body]
  | .branch line c yes no =>
    simp [Stmt.mapLines, stmt, hf.number, stmts_mapLines hf breakable yes,
      stmts_mapLines hf breakable no]
  | .switch line o cases none =>
    simp [Stmt.mapLines, stmt, hf.number, caseBodies_mapLines hf cases, Stmt.flatMap_pattern]
  | .switch line o cases (some body) =>
    simp [Stmt.mapLines, stmt, hf.number, caseBodies_mapLines hf cases,
      stmts_mapLines hf true body, Stmt.flatMap_pattern]

theorem stmts_mapLines (hf : Line.Faithful f) (breakable : Bool) (ss : List Stmt) :
    check.stmts inFunction breakable (Stmt.mapLinesAll f ss) =
      check.stmts inFunction breakable ss := by
  match ss with
  | [] => simp [Stmt.mapLinesAll]
  | x :: rest =>
    simp [Stmt.mapLinesAll, stmts, stmt_mapLines hf breakable x, stmts_mapLines hf breakable rest]

theorem caseBodies_mapLines (hf : Line.Faithful f) (cases : List (Case Stmt)) :
    check.caseBodies inFunction (Stmt.mapLinesCases f cases) =
      check.caseBodies inFunction cases := by
  match cases with
  | [] => simp [Stmt.mapLinesCases]
  | ⟨_, _, _, body⟩ :: rest =>
    simp [Stmt.mapLinesCases, caseBodies, stmts_mapLines hf true body, caseBodies_mapLines hf rest]

end

end Check

/-- Validation looks at what a faithful change keeps. -/
theorem validate_mapLines (hf : Line.Faithful f) (script : Script) (scope : Scope) :
    (script.mapLines f).validate scope = script.validate scope := by
  have hnames : (script.functions.map (Function.mapLines f)).map (·.name) =
      script.functions.map (·.name) := by
    simp [Function.mapLines]
  have hsorted : (script.mapLines f).functionsByName =
      script.functionsByName.map (Function.mapLines f) :=
    sortBy_map (g := Function.mapLines f) (fun _ _ => rfl) script.functions
  simp only [validate, hsorted, List.flatMap_map]
  simp only [mapLines, hnames, Function.mapLines, ← Stmt.mapLinesAll_eq_map,
    Check.stmts_mapLines hf]

end Script

end ConsoleScript
