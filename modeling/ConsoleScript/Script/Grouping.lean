-- SUMMARY: Grouping the lines of a script into statements, one line at a time.
import ConsoleScript.Script.Error
import ConsoleScript.Stmt

/-!
# Grouping

Lines are grouped into statements by a machine that takes one line after the
other and keeps a stack of what is open. There are two shapes of body.

The body of a loop or a condition is *implicit*: it holds the texts and
assignments that follow and ends before a blank line, a comment or a directive.
A condition may have one `<else>` and may be closed by `<end-if>`.

The bodies of functions and of the cases of a switch are *explicit*: they run
up to a marker and may hold any statement, but a function stands at the top.

Lists that are still growing are kept in reverse.
-/

namespace ConsoleScript

/-- An implicit body that is still growing. -/
inductive OpenBlock where
  | loop (line : Line) (loop : Loop) (body : List Stmt)
  | inThen (line : Line) (condition : Condition) (yes : List Stmt)
  | inElse (line : Line) (condition : Condition) (yes no : List Stmt)

-- ---------------------------------------------------------------------------
-- Implicit bodies
-- ---------------------------------------------------------------------------

/-- What an implicit body makes of a line. -/
inductive Absorbed where
  /-- The line belongs to the construct, which goes on as given. -/
  | taken (block : OpenBlock)
  /-- The line ends the construct and belongs to it. -/
  | closing
  /-- The line comes after the construct. -/
  | after

namespace OpenBlock

/-- The implicit body of a directive that has one, before its first line. -/
def opened (line : Line) : (owner : Directive) → owner.hasImplicitBlock = true → OpenBlock
  | .loop l, _ => .loop line l []
  | .condition c, _ => .inThen line c []

/-- The directive that owns an implicit body. -/
def owner : OpenBlock → Directive
  | .loop _ l _ => .loop l
  | .inThen _ c _ | .inElse _ c _ _ => .condition c

/-- The statement of an implicit body that has ended. -/
def close : OpenBlock → Stmt
  | .loop line l body => .loop line l body.reverse
  | .inThen line c yes => .branch line c yes.reverse []
  | .inElse line c yes no => .branch line c yes.reverse no.reverse

/-- Adds a text or an assignment to an implicit body. -/
def add (s : Stmt) : OpenBlock → OpenBlock
  | .loop line l body => .loop line l (s :: body)
  | .inThen line c yes => .inThen line c (s :: yes)
  | .inElse line c yes no => .inElse line c yes (s :: no)

/-- What an implicit body makes of a line. -/
def absorb (e : Entry) (block : OpenBlock) : Absorbed :=
  match e.directive with
  | none => if e.line.kind.isSkipped then .after else .taken (block.add (.plain e.line))
  | some (.marker .otherwise) =>
    match block with
    | .inThen line c yes => .taken (.inElse line c yes [])
    | _ => .after
  | some (.action .endIf) => if block.owner.acceptsElse then .closing else .after
  | some _ => .after

end OpenBlock

-- ---------------------------------------------------------------------------
-- The stack
-- ---------------------------------------------------------------------------

/-- A switch that has not ended. -/
structure OpenSwitch where
  line : Line
  options : SwitchOptions
  cases : List (Case Stmt)
  otherwise : Option (List Stmt)

/-- An explicit body that is still growing, and what it belongs to. -/
inductive Frame where
  | function (name : String) (first : Nat)
  /-- A switch, outside of its cases. -/
  | switch (switch : OpenSwitch)
  /-- A case of a switch, or its default, which has no pattern. -/
  | case (switch : OpenSwitch) (pattern : Option String) (first : Nat)

/-- The state of the grouping. -/
structure Grouping where
  /-- The statements of the innermost open body. -/
  items : List Stmt
  /-- The implicit body at its end. -/
  block : Option OpenBlock
  /-- The open bodies, the innermost first, each with the statements before it
      in the body around it. -/
  frames : List (Frame × List Stmt)
  /-- The functions that have ended. -/
  functions : List Function

namespace Grouping

/-- Before the first line. -/
def start : Grouping := ⟨[], none, [], []⟩

/-- Adds a statement to the innermost open body. -/
def push (g : Grouping) (s : Stmt) : Grouping :=
  { g with items := s :: g.items }

/-- Ends the implicit body, if one is open. -/
def closeBlock (g : Grouping) : Grouping :=
  match g.block with
  | none => g
  | some block => { g.push block.close with block := none }

-- ---------------------------------------------------------------------------
-- Explicit bodies
-- ---------------------------------------------------------------------------

/-- A line where any statement may stand. -/
def item (g : Grouping) (e : Entry) : Except ParseError Grouping :=
  let line := e.line
  match e.directive with
  | none =>
    if line.kind.isSkipped && !g.frames.isEmpty then .ok g else .ok (g.push (.plain line))
  | some (.action a) => .ok (g.push (.action line a))
  | some (.loop l) => .ok { g with block := some (.opened line (.loop l) rfl) }
  | some (.condition c) => .ok { g with block := some (.opened line (.condition c) rfl) }
  | some (.switch options) =>
    .ok { g with items := [], frames := (.switch ⟨line, options, [], none⟩, g.items) :: g.frames }
  | some (.marker (.function name)) =>
    if g.frames.isEmpty then
      match g.functions.find? (·.name == name) with
      | some f => .error (.duplicateFunction line.number name f.first)
      | none =>
        .ok { g with items := [], frames := [(.function name line.number, g.items)] }
    else .error (.nestedFunction line.number name)
  | some (.marker _) => .error (.unexpected line.number (Line.content line.trimmed))

/-- Whether a directive ends the body of a case. -/
def endsCase : Directive → Bool
  | .marker (.case _) | .marker .default | .marker .endCase | .marker .endSwitch => true
  | _ => false

/-- A line in a switch, outside of its cases. -/
def betweenCases (g : Grouping) (switch : OpenSwitch) (outer : List Stmt)
    (frames : List (Frame × List Stmt)) (e : Entry) : Except ParseError Grouping :=
  let line := e.line
  match e.directive with
  | none =>
    if line.kind.isSkipped then .ok g else .error (.outsideCase line.number line.trimmed)
  | some (.marker .endSwitch) =>
    .ok { g with
      items := .switch switch.line switch.options switch.cases.reverse switch.otherwise :: outer
      frames }
  | some (.marker (.case pattern)) =>
    .ok { g with items := [], frames := (.case switch (some pattern) line.number, outer) :: frames }
  | some (.marker .default) =>
    if switch.otherwise.isSome then .error (.secondDefault line.number switch.line.number)
    else .ok { g with items := [], frames := (.case switch none line.number, outer) :: frames }
  | some _ => .error (.outsideCase line.number line.trimmed)

/-- Ends the body of a case with its marker at `first` at line `last`. -/
def endCase (g : Grouping) (switch : OpenSwitch) (pattern : Option String) (first last : Nat)
    (outer : List Stmt) (frames : List (Frame × List Stmt)) : OpenSwitch × Grouping :=
  let body := g.items.reverse
  let switch :=
    match pattern with
    | some pattern => { switch with cases := ⟨pattern, first, last, body⟩ :: switch.cases }
    | none => { switch with otherwise := some body }
  (switch, { g with items := [], frames := (.switch switch, outer) :: frames })

/-- A line in the body of a case, or of the default for no pattern. -/
def inCase (g : Grouping) (switch : OpenSwitch) (pattern : Option String) (first : Nat)
    (outer : List Stmt) (frames : List (Frame × List Stmt)) (e : Entry) :
    Except ParseError Grouping :=
  match e.directive with
  | some (.marker .endCase) =>
    .ok (endCase g switch pattern first e.line.number outer frames).2
  | some d =>
    if endsCase d then
      let (switch, g) := endCase g switch pattern first (e.line.number - 1) outer frames
      betweenCases g switch outer frames e
    else item g e
  | none => item g e

/-- A line in the body of a function. -/
def inFunction (g : Grouping) (name : String) (first : Nat) (outer : List Stmt)
    (frames : List (Frame × List Stmt)) (e : Entry) : Except ParseError Grouping :=
  match e.directive with
  | some (.marker .endFunction) =>
    .ok { g with
      items := outer
      frames
      functions := ⟨name, first, e.line.number, g.items.reverse⟩ :: g.functions }
  | _ => item g e

/-- A line outside of implicit bodies. -/
def place (g : Grouping) (e : Entry) : Except ParseError Grouping :=
  match g.frames with
  | [] => item g e
  | (.function name first, outer) :: frames => inFunction g name first outer frames e
  | (.switch switch, outer) :: frames => betweenCases g switch outer frames e
  | (.case switch pattern first, outer) :: frames =>
    inCase g switch pattern first outer frames e

/-- The next line. -/
def step (g : Grouping) (e : Entry) : Except ParseError Grouping :=
  match g.block with
  | none => g.place e
  | some block =>
    match block.absorb e with
    | .taken block => .ok { g with block := some block }
    | .closing => .ok g.closeBlock
    | .after => g.closeBlock.place e

/-- The end of the lines. -/
def finish (g : Grouping) : Except ParseError (List Stmt × List Function) :=
  let g := g.closeBlock
  match g.frames with
  | [] => .ok (g.items.reverse, g.functions.reverse)
  | (.function name first, _) :: _ => .error (.unterminatedFunction first name)
  | (.switch switch, _) :: _ | (.case switch _ _, _) :: _ =>
    .error (.unterminatedSwitch switch.line.number)

end Grouping

end ConsoleScript
