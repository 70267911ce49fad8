-- SUMMARY: The scope in which a script is parsed decides nothing but expanded texts and bound values.
import ConsoleScript.Proofs.Script.MapLines
import ConsoleScript.Proofs.Script.Setting

/-!
# Parsing in two scopes

A parse carries a scope from line to line, in which it expands every text. The
scope does not decide how a line is read: `Line.read` gives the same in all scopes,
up to what `Line.scopeless` forgets. Nor does the grouping look at what is forgotten:
a faithful change of the lines is a setting that puts nothing before them, and the
grouping commutes with it (`Grouping.step_mapLines`). So two parses of one text go side
by side, and fail at the same line or end in scripts that become the same.
-/

namespace ConsoleScript

/-! ## Reading -/

/-- The entry with its line changed. -/
def Entry.mapLine (f : Line → Line) (e : Entry) : Entry := { e with line := f e.line }

/-- What a line is does not depend on the scope, nor on the time, at which it is read. -/
theorem Line.read_scopeless (now now' : Int) (scope scope' : Scope) (n : Nat) (raw : String) :
    (read now scope n raw).1.map (Entry.mapLine scopeless) =
      (read now' scope' n raw).1.map (Entry.mapLine scopeless) := by
  cases hkind : classify (Text.trim raw) with
  | blank | comment | text => simp only [read, hkind, Except.map, Entry.mapLine, scopeless]
  | assignment =>
    simp only [read, hkind, Scope.readAssignment?]
    cases Scope.splitAssignment? (Text.trim raw) with
    | none => rfl
    | some parts => simp only [Except.map, Entry.mapLine, scopeless, Option.map_some]
  | directive | conditional =>
    simp only [read, hkind]
    cases Directive.read (content (Text.trim raw)) with
    | error e => rfl
    | ok directive => simp only [Except.map, Entry.mapLine, scopeless, Option.map_none]

/-- The summary is made of what is kept. -/
theorem Summary.of_map_scopeless (entries : List Entry) (functions : List String) :
    Summary.of (entries.map (Entry.mapLine Line.scopeless)) functions =
      Summary.of entries functions := by
  have hbound : ∀ e : Entry, (e.mapLine Line.scopeless).boundName? = e.boundName? := by
    rintro ⟨⟨number, raw, trimmed, expanded, kind, _ | ⟨name, value⟩⟩, directive⟩ <;> rfl
  simp only [Summary.of, List.length_map, List.countP_map, List.filterMap_map,
    Function.comp_def, hbound]
  rfl

/-! ## Grouping -/

variable {f : Line → Line}

/-- The implicit body with its lines changed. -/
def OpenBlock.mapLines (f : Line → Line) : OpenBlock → OpenBlock
  | .loop line l body => .loop (f line) l (body.map (Stmt.mapLines f))
  | .inThen line c yes => .inThen (f line) c (yes.map (Stmt.mapLines f))
  | .inElse line c yes no =>
    .inElse (f line) c (yes.map (Stmt.mapLines f)) (no.map (Stmt.mapLines f))

/-- The switch with its lines changed. -/
def OpenSwitch.mapLines (f : Line → Line) (switch : OpenSwitch) : OpenSwitch :=
  { switch with
    line := f switch.line
    cases := switch.cases.map (Case.mapLines f)
    otherwise := switch.otherwise.map (List.map (Stmt.mapLines f)) }

/-- The open body with its lines changed. -/
def Frame.mapLines (f : Line → Line) : Frame → Frame
  | .function name first => .function name first
  | .switch s => .switch (s.mapLines f)
  | .case s pattern first => .case (s.mapLines f) pattern first

namespace Grouping

/-- The frames with their lines changed, and those of the statements before them. -/
def mapFrames (f : Line → Line) (frames : List (Frame × List Stmt)) : List (Frame × List Stmt) :=
  frames.map fun (frame, outer) => (frame.mapLines f, outer.map (Stmt.mapLines f))

/-- The grouping with its lines changed. -/
def mapLines (f : Line → Line) (g : Grouping) : Grouping :=
  ⟨g.items.map (Stmt.mapLines f), g.block.map (OpenBlock.mapLines f), mapFrames f g.frames,
    g.functions.map (Function.mapLines f)⟩

end Grouping

/-! ## Faithful changes as settings -/

/-- A faithful change of lines, which stand where they stood. -/
def Line.Faithful.setting (hf : Line.Faithful f) : Setting where
  line := f
  number := id
  number_line := hf.number
  trimmed_line := hf.trimmed
  kind_line := hf.kind
  items := []
  functions := []

section

variable (hf : Line.Faithful f)
include hf

namespace Stmt

mutual

theorem mapLines_eq_relabel (x : Stmt) : x.mapLines f = x.relabel hf.setting.toRelabelling := by
  match x with
  | plain l => simp [mapLines, relabel, Line.Faithful.setting]
  | action l a => simp [mapLines, relabel, Line.Faithful.setting]
  | loop l c body =>
    simp only [mapLines, relabel, mapLinesAll_eq_relabelAll body, Line.Faithful.setting]
  | branch l c yes no =>
    simp only [mapLines, relabel, mapLinesAll_eq_relabelAll yes, mapLinesAll_eq_relabelAll no,
      Line.Faithful.setting]
  | switch l o cases none =>
    simp only [mapLines, relabel, mapLinesCases_eq_relabelCases cases, Line.Faithful.setting]
  | switch l o cases (some body) =>
    simp only [mapLines, relabel, mapLinesCases_eq_relabelCases cases,
      mapLinesAll_eq_relabelAll body, Line.Faithful.setting]

theorem mapLinesAll_eq_relabelAll (ss : List Stmt) :
    mapLinesAll f ss = relabelAll hf.setting.toRelabelling ss := by
  match ss with
  | [] => simp [mapLinesAll, relabelAll]
  | x :: rest =>
    simp only [mapLinesAll, relabelAll, mapLines_eq_relabel x, mapLinesAll_eq_relabelAll rest]

theorem mapLinesCases_eq_relabelCases (cases : List (Case Stmt)) :
    mapLinesCases f cases = relabelCases hf.setting.toRelabelling cases := by
  match cases with
  | [] => simp [mapLinesCases, relabelCases]
  | ⟨pattern, first, last, body⟩ :: rest =>
    simp only [mapLinesCases, relabelCases, mapLinesAll_eq_relabelAll body,
      mapLinesCases_eq_relabelCases rest]
    rfl

end

theorem map_mapLines_eq (ss : List Stmt) :
    ss.map (mapLines f) = ss.map (relabel hf.setting.toRelabelling) := by
  rw [← mapLinesAll_eq_map, mapLinesAll_eq_relabelAll hf, relabelAll_eq_map]

theorem map_caseMapLines_eq (cases : List (Case Stmt)) :
    cases.map (Case.mapLines f) = cases.map (Case.relabel hf.setting.toRelabelling) := by
  rw [← mapLinesCases_eq_map, mapLinesCases_eq_relabelCases hf, relabelCases_eq_map]

end Stmt

theorem Function.mapLines_eq_relabel (fn : Function) :
    fn.mapLines f = fn.relabel hf.setting.toRelabelling := by
  simp only [mapLines, relabel, Stmt.map_mapLines_eq hf]
  rfl

theorem OpenBlock.mapLines_eq_relabel (block : OpenBlock) :
    block.mapLines f = block.relabel hf.setting.toRelabelling := by
  cases block <;> simp only [mapLines, relabel, Stmt.map_mapLines_eq hf, Line.Faithful.setting]

theorem OpenSwitch.mapLines_eq_relabel (switch : OpenSwitch) :
    switch.mapLines f = switch.relabel hf.setting.toRelabelling := by
  have hbody : List.map (Stmt.mapLines f) = List.map (Stmt.relabel hf.setting.toRelabelling) :=
    funext (Stmt.map_mapLines_eq hf)
  simp only [mapLines, relabel, hbody, Stmt.map_caseMapLines_eq hf]
  rfl

theorem Frame.mapLines_eq_relabel (frame : Frame) :
    frame.mapLines f = frame.relabel hf.setting.toRelabelling := by
  cases frame <;> simp only [mapLines, relabel, OpenSwitch.mapLines_eq_relabel hf] <;> rfl

namespace Grouping

theorem mapFrames_eq_stack (frames : List (Frame × List Stmt)) :
    mapFrames f frames = hf.setting.stack frames := by
  induction frames with
  | nil => rfl
  | cons head rest ih =>
    obtain ⟨frame, outer⟩ := head
    have hbody : hf.setting.body rest outer =
        outer.map (Stmt.relabel hf.setting.toRelabelling) := by
      simp [Setting.body, Line.Faithful.setting]
    rw [Setting.stack, hbody, ← ih, ← Stmt.map_mapLines_eq hf, ← Frame.mapLines_eq_relabel hf]
    rfl

theorem mapLines_eq_within (g : Grouping) : g.mapLines f = g.within hf.setting := by
  have hblock : OpenBlock.mapLines f = OpenBlock.relabel hf.setting.toRelabelling :=
    funext (OpenBlock.mapLines_eq_relabel hf)
  have hfunction : Function.mapLines f = Function.relabel hf.setting.toRelabelling :=
    funext (Function.mapLines_eq_relabel hf)
  simp only [mapLines, within, hblock, hfunction, mapFrames_eq_stack hf, Stmt.map_mapLines_eq hf]
  simp [Setting.body, Line.Faithful.setting]

/-- The grouping does not look at what a faithful change of the lines forgets. -/
theorem step_mapLines (g : Grouping) (e : Entry) :
    (g.mapLines f).step (e.mapLine f) = (g.step e).map (mapLines f) := by
  have hstep := step_within (τ := hf.setting) (g := g) (e := e) (fun _ _ => rfl) rfl
  have hresult : (g.step e).map (mapLines f) = (g.step e).map (within hf.setting) :=
    congrArg (Except.map · _) (funext (mapLines_eq_within hf))
  rw [mapLines_eq_within hf, hresult]
  refine hstep.trans ?_
  rcases g.step e with err | g'
  · cases err <;> rfl
  · rfl

theorem finish_mapLines (g : Grouping) :
    (g.mapLines f).finish = g.finish.map fun (body, functions) =>
      (body.map (Stmt.mapLines f), functions.map (Function.mapLines f)) := by
  have hfunction : Function.mapLines f = Function.relabel hf.setting.toRelabelling :=
    funext (Function.mapLines_eq_relabel hf)
  rw [mapLines_eq_within hf, finish_within]
  simp only [Stmt.map_mapLines_eq hf, hfunction]
  rcases g.finish with err | ⟨body, functions⟩
  · cases err <;> rfl
  · simp [Except.map, except_mapError_ok, Line.Faithful.setting]

end Grouping

end

/-! ## Two parses -/

namespace Script

open Line (scopeless)

variable {now now' : Int}

/-- The lines that were grouped and those that were read, without what they owe to the
    scope. -/
def scopelessLines (result : Grouping × List Entry) : Grouping × List Entry :=
  (result.1.mapLines scopeless, result.2.map (Entry.mapLine scopeless))

/-- Two parses that have come to the same go on to the same. -/
theorem parseFrom_scopeless {scope scope' : Scope} {n : Nat} {g g' : Grouping}
    {before before' : List Entry}
    (h : scopelessLines (g, before) = scopelessLines (g', before')) (raws : List String) :
    (parseFrom now scope n g before raws).1.map scopelessLines =
      (parseFrom now' scope' n g' before' raws).1.map scopelessLines := by
  induction raws generalizing scope scope' n g g' before before' with
  | nil => exact congrArg Except.ok h
  | cons raw raws ih =>
    obtain ⟨hg, hbefore⟩ := Prod.mk.inj h
    have hread := Line.read_scopeless now now' scope scope' n raw
    rw [parseFrom, parseFrom]
    rcases hfirst : Line.read now scope n raw with ⟨result, scope₁⟩
    rcases hsecond : Line.read now' scope' n raw with ⟨result', scope₁'⟩
    rw [hfirst, hsecond] at hread
    obtain ⟨err, rfl, rfl⟩ | ⟨e, e', rfl, rfl, he⟩ := except_map_eq_map hread
    · rfl
    · have hstep : (g.step e).map (Grouping.mapLines scopeless) =
          (g'.step e').map (Grouping.mapLines scopeless) := by
        rw [← Grouping.step_mapLines Line.faithful_scopeless,
          ← Grouping.step_mapLines Line.faithful_scopeless, hg, he]
      obtain ⟨err, hstop, hstop'⟩ | ⟨g₁, g₁', hgo, hgo', hg₁⟩ := except_map_eq_map hstep
      · simp only [hstop, hstop']
      · have hentries : (e :: before).map (Entry.mapLine scopeless) =
            (e' :: before').map (Entry.mapLine scopeless) := by
          rw [List.map_cons, List.map_cons, he, hbefore]
        simp only [hgo, hgo']
        exact ih (Prod.ext hg₁ hentries)

theorem ofGrouping_scopeless (g : Grouping) (entries : List Entry) :
    ofGrouping (g.mapLines scopeless) (entries.map (Entry.mapLine scopeless)) =
      (ofGrouping g entries).map (mapLines scopeless) := by
  unfold ofGrouping
  rw [Grouping.finish_mapLines Line.faithful_scopeless]
  rcases g.finish with _ | ⟨body, functions⟩
  · rfl
  · have hnames : (functions.map (Function.mapLines scopeless)).map (·.name) =
        functions.map (·.name) := by
      simp [Function.mapLines]
    simp only [Except.map, hnames, ← List.map_reverse, Summary.of_map_scopeless]
    rfl

/-- A text is refused in all scopes for the same reason, or makes the same script in all
    of them, up to expanded texts and bound values. -/
theorem parse_scopeless (now now' : Int) (scope scope' : Scope) (text : String) :
    (parse now scope text).1.map (mapLines scopeless) =
      (parse now' scope' text).1.map (mapLines scopeless) := by
  have hlines : (parseFrom now scope 1 .start [] (Text.lines text)).1.map scopelessLines =
      (parseFrom now' scope' 1 .start [] (Text.lines text)).1.map scopelessLines :=
    parseFrom_scopeless rfl (Text.lines text)
  rw [parse, parse, parseLines, parseLines]
  rcases hfirst : parseFrom now scope 1 .start [] (Text.lines text) with ⟨result, scope₁⟩
  rcases hsecond : parseFrom now' scope' 1 .start [] (Text.lines text) with ⟨result', scope₁'⟩
  rw [hfirst, hsecond] at hlines
  obtain ⟨err, rfl, rfl⟩ | ⟨⟨g, entries⟩, ⟨g', entries'⟩, rfl, rfl, hsame⟩ :=
    except_map_eq_map hlines
  · rfl
  · obtain ⟨hg, hentries⟩ := Prod.mk.inj hsame
    dsimp only at hg hentries ⊢
    rw [← ofGrouping_scopeless, ← ofGrouping_scopeless, hg, hentries]

end Script

end ConsoleScript
