-- SUMMARY: Parsing by recursive descent with look-ahead, and where each call goes on.
import ConsoleScript.Proofs.Script.Peeking
import ConsoleScript.Script.Parse

/-!
# Recursive descent

A script can also be parsed top-down: a call for each construct, which is given the
index of a line, looks ahead to see where the construct ends, and gives back the index
at which the scan around it resumes. No call keeps a stack of what is open.

Whether such a parse ends at all depends on those indices. `Resumes` is what is true of
each call: it ends, and where it succeeds it resumes after the line that owns the
construct and not beyond the end of the text.
-/

namespace ConsoleScript

namespace Descent

/-- What a parse has gathered. -/
structure State where
  scope : Scope
  /-- The lines that were counted, the last one first. -/
  entries : List Entry
  /-- The functions that have ended, the last one first. -/
  functions : List Function

/-- The state when `e` was counted after it was read, which left `scope`. -/
def State.after (s : State) (e : Entry) (scope : Scope) : State :=
  { s with scope, entries := e :: s.entries }

/-- Where statements are collected, which decides the markers that end the collection. -/
inductive Region where
  | top
  | function
  | case
  deriving DecidableEq, Repr

/-- Whether a directive of the kind ends the region. -/
def Region.endsAt : Region → Directive.Kind → Bool
  | .top, _ => false
  | .function, kind => kind = .endFunction
  | .case, kind => kind = .case || kind = .default || kind = .endCase || kind = .endSwitch

end Descent

/-- A computation of a parse. -/
abbrev Descent (α : Type) := ExceptT ParseError (StateT Descent.State Option) α

namespace Descent

/-! ## Lines -/

/-- A text to parse, and the moment in seconds at which it is parsed. -/
structure Source where
  now : Int
  lines : List String

/-- Counts a line that was read. -/
def count (e : Entry) : Descent Unit :=
  modify fun s => { s with entries := e :: s.entries }

namespace Source

/-- Reads a line. -/
def readLine (src : Source) (i : Fin src.lines.length) : Descent Entry := do
  let s ← get
  let (result, scope) := Line.read src.now s.scope (i + 1) src.lines[i]
  set { s with scope }
  match result with
  | .ok e => return e
  | .error e => throw (.ofDirective (i + 1) (Line.content (Text.trim src.lines[i])) e)

/-- Reads a line and counts it. -/
def takeLine (src : Source) (i : Fin src.lines.length) : Descent Entry := do
  let e ← src.readLine i
  count e
  return e

/-! ## Calls -/

/-- The implicit bodies of a loop or a condition, with what was collected of them before
    the line at index `i`. The second body is that of the alternative. -/
def block (src : Source) (acceptsElse inElse : Bool) (yes no : List Stmt) (i : Nat) :
    Descent ((List Stmt × List Stmt) × Nat) :=
  let done := (yes.reverse, no.reverse)
  if h : i < src.lines.length then
    let trimmed := Text.trim src.lines[i]
    if Line.looksBlank trimmed then return (done, i)
    else if Line.looksDirective trimmed then
      let kind := Line.peekKind? trimmed
      if acceptsElse && kind = some .otherwise && !inElse then do
        let _ ← src.takeLine ⟨i, h⟩
        src.block acceptsElse true yes no (i + 1)
      else if acceptsElse && kind = some .endIf then do
        let _ ← src.takeLine ⟨i, h⟩
        return (done, i + 1)
      else return (done, i)
    else do
      let e ← src.takeLine ⟨i, h⟩
      if inElse then src.block acceptsElse inElse yes (.plain e.line :: no) (i + 1)
      else src.block acceptsElse inElse (.plain e.line :: yes) no (i + 1)
  else return (done, i)
termination_by src.lines.length - i

mutual

/-- The statements of a region, with those that were collected before the line at index
    `i`, up to the marker that ends the region or to the end of the text. -/
def region (src : Source) (r : Region) (items : List Stmt) (i : Nat) :
    Descent (List Stmt × Nat) := do
  if h : i < src.lines.length then
    if (Line.peekKind? src.lines[i]).any r.endsAt then return (items.reverse, i)
    else
      let e ← src.takeLine ⟨i, h⟩
      if e.line.kind.isSkipped then
        src |>.region r (if r = .top then .plain e.line :: items else items) (i + 1)
      else
        match e.directive with
        | none => src |>.region r (.plain e.line :: items) (i + 1)
        | some (.action a) => src |>.region r (.action e.line a :: items) (i + 1)
        | some (.loop l) =>
          let ((body, _), next) ← src.block false false [] [] (i + 1)
          src |>.region r (.loop e.line l body :: items) next
        | some (.condition c) =>
          let ((yes, no), next) ← src.block true false [] [] (i + 1)
          src |>.region r (.branch e.line c yes no :: items) next
        | some (.switch options) =>
          let ((cases, otherwise), next) ← src |>.switch ⟨i, h⟩ [] none (i + 1)
          src |>.region r (.switch e.line options cases otherwise :: items) next
        | some (.marker (.function name)) =>
          if r = .top then
            let next ← src |>.function ⟨i, h⟩ name
            src |>.region r items next
          else throw (.nestedFunction (i + 1) name)
        | some (.marker _) => throw (.unexpected (i + 1) (Line.content e.line.trimmed))
  else return (items.reverse, i)
partial_fixpoint

/-- The function whose first line is `owner`. -/
def function (src : Source) (owner : Fin src.lines.length) (name : String) : Descent Nat := do
  let s ← get
  match s.functions.find? (·.name == name) with
  | some f => throw (.duplicateFunction (owner + 1) name f.first)
  | none =>
    let (body, last) ← src |>.region .function [] (owner + 1)
    if h : last < src.lines.length then
      let _ ← src.takeLine ⟨last, h⟩
      modify fun s => { s with functions := ⟨name, owner + 1, last + 1, body⟩ :: s.functions }
      return last + 1
    else throw (.unterminatedFunction (owner + 1) name)
partial_fixpoint

/-- The cases and the default of the switch at `owner`, with what was collected of them
    before the line at index `i`. -/
def switch (src : Source) (owner : Fin src.lines.length) (cases : List (Case Stmt))
    (otherwise : Option (List Stmt)) (i : Nat) :
    Descent ((List (Case Stmt) × Option (List Stmt)) × Nat) := do
  if h : i < src.lines.length then
    let e ← src.readLine ⟨i, h⟩
    if e.line.kind.isSkipped then
      count e
      src |>.switch owner cases otherwise (i + 1)
    else
      match e.directive with
      | some (.marker .endSwitch) =>
        count e
        return ((cases.reverse, otherwise), i + 1)
      | some (.marker (.case pattern)) =>
        count e
        let (body, last) ← src |>.caseBody ⟨i, h⟩
        src |>.switch owner (⟨pattern, i + 1, last, body⟩ :: cases) otherwise last
      | some (.marker .default) =>
        if otherwise.isSome then throw (.secondDefault (i + 1) (owner + 1))
        else
          count e
          let (body, last) ← src |>.caseBody ⟨i, h⟩
          src |>.switch owner cases (some body) last
      | _ => throw (.outsideCase (i + 1) e.line.trimmed)
  else throw (.unterminatedSwitch (owner + 1))
partial_fixpoint

/-- The body of the case whose marker is `owner`, with the marker that closes it. -/
def caseBody (src : Source) (owner : Fin src.lines.length) : Descent (List Stmt × Nat) := do
  let (body, last) ← src |>.region .case [] (owner + 1)
  if h : last < src.lines.length then
    if Line.peekKind? src.lines[last] = some .endCase then
      let _ ← src.takeLine ⟨last, h⟩
      return (body, last + 1)
    else return (body, last)
  else return (body, last)
partial_fixpoint

end

/-- The script of all lines. -/
def script (src : Source) : Descent Script := do
  let (body, _) ← src.region .top [] 0
  let s ← get
  let functions := s.functions.reverse
  return ⟨body, functions, Summary.of s.entries.reverse (functions.map (·.name))⟩

/-- Parses the lines of a script in a scope. -/
def parseLines (src : Source) (scope : Scope) : Option (Except ParseError Script × Scope) :=
  (src.script ⟨scope, [], []⟩).map fun (result, s) => (result, s.scope)

end Source

variable {src : Source}

/-! ## Outcomes -/

section Ends

variable {α β : Type} {x : Descent α} {f : α → Descent β} {s : State} {P Q : α → State → Prop}
  {R : β → State → Prop} {E F : ParseError → State → Prop}

/-- From the state `s` the computation ends, either with an answer of which `P` is true or
    with an error of which `E` is. -/
inductive Ends (x : Descent α) (s : State) (P : α → State → Prop) (E : ParseError → State → Prop) :
    Prop where
  | answer {a : α} {s' : State} (run : x s = some (.ok a, s')) (holds : P a s') : Ends x s P E
  | error {e : ParseError} {s' : State} (run : x s = some (.error e, s')) (holds : E e s') :
    Ends x s P E

namespace Ends

theorem pure {a : α} (h : P a s) : Ends (Pure.pure a) s P E := .answer rfl h

theorem throw {e : ParseError} (h : E e s) : Ends (MonadExcept.throw e : Descent α) s P E :=
  .error rfl h

theorem bind (hx : Ends x s P E) (hf : ∀ a s', P a s' → Ends (f a) s' R E) :
    Ends (x >>= f) s R E := by
  have hrun : (x >>= f) s = (x s).bind fun r => ExceptT.bindCont f r.1 r.2 := rfl
  cases hx with
  | error run holds => exact .error (by rw [hrun, run]; rfl) holds
  | answer run holds =>
    cases hf _ _ holds with
    | answer run' holds' => exact .answer (by rw [hrun, run]; exact run') holds'
    | error run' holds' => exact .error (by rw [hrun, run]; exact run') holds'

theorem get_bind {f : State → Descent β} (h : Ends (f s) s R E) : Ends (get >>= f) s R E :=
  bind (P := fun a s' => a = s ∧ s' = s) (.answer rfl ⟨rfl, rfl⟩) fun _ _ ⟨ha, hs⟩ => by
    rw [ha, hs]
    exact h

theorem modify_bind {g : State → State} {f : Unit → Descent β} (h : Ends (f ()) (g s) R E) :
    Ends (modify g >>= f) s R E :=
  bind (P := fun _ s' => s' = g s) (.answer rfl rfl) fun _ _ hs => by
    rw [hs]
    exact h

theorem mono (h : Ends x s P E) (hP : ∀ a s', P a s' → Q a s') (hE : ∀ e s', E e s' → F e s') :
    Ends x s Q F := by
  cases h with
  | answer run holds => exact .answer run (hP _ _ holds)
  | error run holds => exact .error run (hE _ _ holds)

theorem and (hP : Ends x s P E) (hQ : Ends x s Q F) :
    Ends x s (fun a s' => P a s' ∧ Q a s') (fun e s' => E e s' ∧ F e s') := by
  cases hP with
  | answer run holds =>
    cases hQ with
    | answer run' holds' =>
      cases run.symm.trans run'
      exact .answer run ⟨holds, holds'⟩
    | error run' => cases run.symm.trans run'
  | error run holds =>
    cases hQ with
    | answer run' => cases run.symm.trans run'
    | error run' holds' =>
      cases run.symm.trans run'
      exact .error run ⟨holds, holds'⟩

variable {i : Fin src.lines.length}

/-- A line is refused for its directive, or gives what it is read as. -/
theorem readLine
    (h : ∀ e scope, Line.read src.now s.scope (i + 1) src.lines[i] = (.error e, scope) →
      E (.ofDirective (i + 1) (Line.content (Text.trim src.lines[i])) e) { s with scope }) :
    Ends (src.readLine i) s
      (fun e s' => ∃ scope, Line.read src.now s.scope (i + 1) src.lines[i] = (.ok e, scope) ∧
        s' = { s with scope }) E := by
  refine get_bind ?_
  rcases hread : Line.read src.now s.scope (i + 1) src.lines[i] with ⟨e | e, scope⟩
  · exact .error rfl (h e scope hread)
  · exact .answer rfl ⟨scope, rfl, rfl⟩

theorem takeLine
    (h : ∀ e scope, Line.read src.now s.scope (i + 1) src.lines[i] = (.error e, scope) →
      E (.ofDirective (i + 1) (Line.content (Text.trim src.lines[i])) e) { s with scope }) :
    Ends (src.takeLine i) s
      (fun e s' => ∃ scope, Line.read src.now s.scope (i + 1) src.lines[i] = (.ok e, scope) ∧
        s' = s.after e scope) E := by
  refine (readLine h).bind ?_
  rintro e _ ⟨scope, hread, rfl⟩
  exact modify_bind (pure ⟨scope, hread, rfl⟩)

end Ends

end Ends

/-! ## Where calls resume -/

/-- The computation ends from every state, and its answer resumes at an index from `first` to
    `last`. -/
def Resumes {α : Type} (x : Descent α) (next : α → Nat) (first last : Nat) : Prop :=
  ∀ s, Ends x s (fun a _ => first ≤ next a ∧ next a ≤ last) fun _ _ => True

namespace Resumes

variable {α β : Type} {x : Descent α} {f : α → Descent β} {next : α → Nat} {next' : β → Nat}
  {first first' last last' : Nat}

theorem pure {a : α} (hfirst : first ≤ next a) (hlast : next a ≤ last) :
    Resumes (Pure.pure a) next first last :=
  fun _ => .pure ⟨hfirst, hlast⟩

theorem throw (e : ParseError) : Resumes (MonadExcept.throw e : Descent α) next first last :=
  fun _ => .throw trivial

theorem later (h : Resumes x next first' last) (hfirst : first ≤ first') :
    Resumes x next first last :=
  fun s => (h s).mono (fun _ _ ha => ⟨Nat.le_trans hfirst ha.1, ha.2⟩) fun _ _ he => he

/-- Where a call resumes, the scan goes on. -/
theorem bind (hx : Resumes x next first last)
    (hf : ∀ a, first ≤ next a → next a ≤ last → Resumes (f a) next' first' last') :
    Resumes (x >>= f) next' first' last' :=
  fun s => (hx s).bind fun a s' ha => hf a ha.1 ha.2 s'

theorem readLine {i : Fin src.lines.length} {f : Entry → Descent β}
    (hf : ∀ e, Resumes (f e) next' first' last') :
    Resumes (src.readLine i >>= f) next' first' last' :=
  fun _ => (Ends.readLine fun _ _ _ => trivial).bind fun e s' _ => hf e s'

theorem count {e : Entry} {f : Unit → Descent β} (hf : Resumes (f ()) next' first' last') :
    Resumes (count e >>= f) next' first' last' :=
  fun _ => .modify_bind (hf _)

theorem takeLine {i : Fin src.lines.length} {f : Entry → Descent β}
    (hf : ∀ e, Resumes (f e) next' first' last') :
    Resumes (src.takeLine i >>= f) next' first' last' :=
  fun _ => (Ends.takeLine fun _ _ _ => trivial).bind fun e s' _ => hf e s'

end Resumes

theorem block_resumes {acceptsElse inElse : Bool} {yes no : List Stmt} {i : Nat}
    (hi : i ≤ src.lines.length) :
    Resumes (src.block acceptsElse inElse yes no i) Prod.snd i src.lines.length := by
  have done {a : List Stmt × List Stmt} : Resumes (pure (a, i)) Prod.snd i src.lines.length :=
    .pure (Nat.le_refl i) hi
  rw [Source.block]
  split
  case isFalse => exact done
  case isTrue h =>
    have onward {acceptsElse inElse : Bool} {yes no : List Stmt} :
        Resumes (src.block acceptsElse inElse yes no (i + 1)) Prod.snd i src.lines.length :=
      (block_resumes h).later (Nat.le_succ i)
    simp only
    split
    · exact done
    split
    · split
      · exact .takeLine fun _ => onward
      split
      · exact .takeLine fun _ => .pure (Nat.le_succ i) h
      · exact done
    · refine .takeLine fun e => ?_
      split
      · exact onward
      · exact onward
termination_by src.lines.length - i

/-- The calls of a region at the line at index `i` resume there or later. -/
def RegionResumes (src : Source) (i : Nat) : Prop :=
  ∀ r items, Resumes (src.region r items i) Prod.snd i src.lines.length

/-- The marker that ends a function is a line of its own. -/
theorem function_resumes (owner : Fin src.lines.length) (name : String)
    (hbody : RegionResumes src (owner + 1)) :
    Resumes (src.function owner name) id (owner + 1) src.lines.length := by
  intro s
  rw [Source.function]
  refine .get_bind ?_
  split
  case h_1 => exact .throw trivial
  case h_2 =>
    refine (hbody _ _).bind ?_ s
    rintro ⟨body, last⟩ hfirst -
    simp only
    split
    case isTrue h =>
      exact .takeLine fun _ _ => .modify_bind (.pure ⟨Nat.le_succ_of_le hfirst, h⟩)
    case isFalse => exact .throw _

theorem caseBody_resumes (owner : Fin src.lines.length)
    (hbody : RegionResumes src (owner + 1)) :
    Resumes (src.caseBody owner) Prod.snd (owner + 1) src.lines.length := by
  rw [Source.caseBody]
  refine (hbody _ _).bind ?_
  rintro ⟨body, last⟩ hfirst hlast
  simp only
  split
  case isFalse => exact .pure hfirst hlast
  case isTrue h =>
    split
    · exact .takeLine fun _ => .pure (Nat.le_succ_of_le hfirst) h
    · exact .pure hfirst hlast

/-- A switch resumes behind its end, if the bodies of its cases resume. -/
theorem switch_resumes {owner : Fin src.lines.length} {cases : List (Case Stmt)}
    {otherwise : Option (List Stmt)} {i : Nat}
    (hbody : ∀ j, i < j → j ≤ src.lines.length → RegionResumes src j) :
    Resumes (src.switch owner cases otherwise i) Prod.snd i src.lines.length := by
  rw [Source.switch]
  split
  case isFalse => exact .throw _
  case isTrue h =>
    have onward {cases : List (Case Stmt)} {otherwise : Option (List Stmt)} {j : Nat}
        (hj : i < j) : Resumes (src.switch owner cases otherwise j) Prod.snd i src.lines.length :=
      (switch_resumes fun k hk => hbody k (Nat.lt_trans hj hk)).later (Nat.le_of_lt hj)
    have body : Resumes (src.caseBody ⟨i, h⟩) Prod.snd (i + 1) src.lines.length :=
      caseBody_resumes ⟨i, h⟩ (hbody (i + 1) (Nat.lt_succ_self i) h)
    refine .readLine fun e => ?_
    split
    · exact .count (onward (Nat.lt_succ_self i))
    split
    · exact .count (.pure (Nat.le_succ i) h)
    · exact .count (body.bind fun a hfirst _ => onward hfirst)
    · split
      · exact .throw _
      · exact .count (body.bind fun a hfirst _ => onward hfirst)
    · exact .throw _
termination_by src.lines.length - i

/-- Calls go on at later lines only, so that all of them end. -/
theorem region_resumes {i : Nat} (hi : i ≤ src.lines.length) : RegionResumes src i := by
  intro r items
  have done : Resumes (pure (items.reverse, i)) Prod.snd i src.lines.length :=
    .pure (Nat.le_refl i) hi
  rw [Source.region]
  split
  case isFalse => exact done
  case isTrue h =>
    have onward {items : List Stmt} {j : Nat} (hj : i < j) (hlast : j ≤ src.lines.length) :
        Resumes (src.region r items j) Prod.snd i src.lines.length :=
      (region_resumes hlast r items).later (Nat.le_of_lt hj)
    have body : RegionResumes src (i + 1) := region_resumes h
    split
    · exact done
    refine .takeLine fun e => ?_
    split
    · exact onward (Nat.lt_succ_self i) h
    split
    · exact onward (Nat.lt_succ_self i) h
    · exact onward (Nat.lt_succ_self i) h
    · exact (block_resumes h).bind fun a hfirst hlast => onward hfirst hlast
    · exact (block_resumes h).bind fun a hfirst hlast => onward hfirst hlast
    · refine (switch_resumes fun j hj hlast => ?_).bind fun a hfirst hlast => onward hfirst hlast
      exact region_resumes hlast
    · split
      · exact (function_resumes ⟨i, h⟩ _ body).bind fun a hfirst hlast => onward hfirst hlast
      · exact .throw _
    · exact .throw _
termination_by src.lines.length - i

end Descent

end ConsoleScript
