-- SUMMARY: A text is parsed exactly if its lines are read, its functions have different names and its tokens are a script of the grammar.
import ConsoleScript.Proofs.Script.Grammar
import ConsoleScript.Proofs.Script.Placing

/-!
# Which texts are scripts

The grouping of lines does what the machine of the grammar does, as far as what is
open is concerned (`Grouping.step_shape`): it refuses the same tokens, and besides
them a function whose name is taken. So a parse succeeds on the scripts of the
grammar whose functions have different names, and on nothing else:
`parse_isOk_iff`.
-/

namespace ConsoleScript

/-! ## Tokens of lines -/

/-- The name of the function that a token opens. -/
def Token.functionName? : Token → Option String
  | .function name => some name
  | _ => none

/-- The part that a line plays. -/
def Entry.token (e : Entry) : Token :=
  match e.directive with
  | some d => d.token
  | none => if e.line.kind.isSkipped then .blank else .text

namespace Line

/-- A line that holds a directive holds one that can be read. -/
def Readable (raw : String) : Prop :=
  (classify (Text.trim raw)).isDirective = true →
    ∃ d, Directive.read (content (Text.trim raw)) = .ok d

/-- The part that a line plays, if it can be read. -/
def token? (raw : String) : Option Token :=
  match classify (Text.trim raw) with
  | .blank | .comment => some .blank
  | .text | .assignment => some .text
  | .directive | .conditional =>
    match Directive.read (content (Text.trim raw)) with
    | .ok d => some d.token
    | .error _ => none

theorem token?_isSome_iff {raw : String} : (token? raw).isSome = true ↔ Readable raw := by
  unfold token? Readable
  cases classify (Text.trim raw) <;> simp [LineKind.isDirective] <;>
    cases Directive.read (content (Text.trim raw)) <;> simp

/-- What is read of a line plays the line's part, and a line that is refused plays
    none. -/
theorem token?_eq (now : Int) (scope : Scope) (n : Nat) (raw : String) :
    token? raw = (read now scope n raw).1.toOption.map Entry.token := by
  cases hk : classify (Text.trim raw) with
  | blank | comment | text => simp only [token?, read, hk]; rfl
  | assignment =>
    simp only [token?, read, hk]
    split <;> rfl
  | directive | conditional =>
    simp only [token?, read, hk]
    cases Directive.read (content (Text.trim raw)) <;> rfl

end Line

/-- The parts that the lines of a text play. -/
def Script.tokens (text : String) : List Token := (Text.lines text).filterMap Line.token?

/-! ## What is open in a grouping -/

/-- What kind of implicit body is open. -/
def OpenBlock.shape : OpenBlock → Shape.Block
  | .loop .. => .loop
  | .inThen .. => .inThen
  | .inElse .. => .inElse

/-- What kind of explicit body is open. -/
def Frame.shape : Frame → Shape.Frame
  | .function .. => .function
  | .switch s => .switch s.otherwise.isSome
  | .case s pattern _ => .case (s.otherwise.isSome || pattern.isNone)

/-- The name of the function that a body belongs to. -/
def Frame.functionName? : Frame → Option String
  | .function name _ => some name
  | _ => none

namespace Grouping

/-- What is open in a grouping. -/
def shape (g : Grouping) : Shape :=
  ⟨g.block.map OpenBlock.shape, g.frames.map fun frame => frame.1.shape⟩

/-- No function of the name has ended. -/
def isNew (g : Grouping) : Token → Bool
  | .function name => (g.functions.find? (·.name == name)).isNone
  | _ => true

theorem item_shape {g : Grouping} (hblock : g.block = none) (e : Entry) :
    (g.item e).toOption.map shape =
      if g.isNew e.token then Shape.item g.shape.frames e.token else none := by
  obtain ⟨items, block, frames, functions⟩ := g
  obtain ⟨line, directive⟩ := e
  obtain rfl : block = none := hblock
  cases directive with
  | none =>
    cases hkind : line.kind.isSkipped <;> cases hframes : frames.isEmpty <;>
      simp [item, Entry.token, hkind, hframes, isNew, Shape.item, shape, push, Except.toOption]
  | some d =>
    cases d with
    | action a => cases a <;> rfl
    | loop l => rfl
    | condition c => rfl
    | switch o => rfl
    | marker m =>
      cases m with
      | function name =>
        cases frames with
        | nil =>
          cases hfind : functions.find? (·.name == name) <;>
            simp [item, Entry.token, Directive.token, isNew, hfind, Shape.item, shape, Frame.shape,
              Except.toOption]
        | cons frame frames =>
          simp [item, Entry.token, Directive.token, Shape.item, shape, Except.toOption]
      | _ => rfl

theorem betweenCases_shape {g : Grouping} {switch : OpenSwitch} {outer : List Stmt}
    {frames : List (Frame × List Stmt)} (hblock : g.block = none)
    (stack : g.frames = (.switch switch, outer) :: frames) (e : Entry) :
    (g.betweenCases switch outer frames e).toOption.map shape =
      Shape.betweenCases switch.otherwise.isSome (frames.map fun frame => frame.1.shape) e.token := by
  obtain ⟨items, block, gframes, functions⟩ := g
  obtain ⟨line, directive⟩ := e
  obtain rfl : block = none := hblock
  obtain rfl : gframes = (.switch switch, outer) :: frames := stack
  cases directive with
  | none =>
    cases hkind : line.kind.isSkipped <;>
      simp [betweenCases, Entry.token, hkind, Shape.betweenCases, shape, Frame.shape,
        Except.toOption]
  | some d =>
    cases d with
    | action a => cases a <;> rfl
    | loop l => rfl
    | condition c => rfl
    | switch o => rfl
    | marker m =>
      cases m with
      | default =>
        cases hdefault : switch.otherwise.isSome <;>
          simp [betweenCases, Entry.token, Directive.token, hdefault, Shape.betweenCases, shape,
            Frame.shape, Except.toOption]
      | case pattern =>
        simp [betweenCases, Entry.token, Directive.token, Shape.betweenCases, shape, Frame.shape,
          Except.toOption]
      | _ => rfl

/-- A line without a directive is an item. -/
theorem isSome_item_plain (line : Line) :
    (Shape.item [] (Entry.token ⟨line, none⟩)).isSome = true := by
  cases hkind : line.kind.isSkipped <;> simp [Entry.token, hkind, Shape.item]

/-- Ending a case puts its switch in its place, with a default if the case was one. -/
theorem endCase_shape (g : Grouping) (switch : OpenSwitch) (pattern : Option String)
    (first last : Nat) (outer : List Stmt) (frames : List (Frame × List Stmt)) :
    (endCase g switch pattern first last outer frames).1.otherwise.isSome =
      (switch.otherwise.isSome || pattern.isNone) := by
  cases pattern <;> simp [endCase]

theorem inFunction_shape {g : Grouping} {name : String} {first : Nat} {outer : List Stmt}
    {frames : List (Frame × List Stmt)} (hblock : g.block = none)
    (stack : g.frames = (.function name first, outer) :: frames) (e : Entry) :
    (g.inFunction name first outer frames e).toOption.map shape =
      if g.isNew e.token then Shape.place g.shape.frames e.token else none := by
  have hitem := item_shape hblock e
  have hframes : g.shape.frames = .function :: frames.map fun frame => frame.1.shape := by
    simp [shape, stack, Frame.shape]
  rw [hframes] at hitem ⊢
  obtain ⟨line, directive⟩ := e
  cases directive with
  | none =>
    rw [Shape.place_item (by intro _ _ h; cases h) (isSome_item_plain line)]
    exact hitem
  | some d =>
    cases d with
    | action a => cases a <;> exact hitem
    | loop l => exact hitem
    | condition c => exact hitem
    | switch o => exact hitem
    | marker m =>
      cases m with
      | endFunction =>
        change some (Shape.mk (g.block.map OpenBlock.shape) _) = some ⟨none, _⟩
        rw [hblock]
        rfl
      | _ => exact hitem

theorem inCase_shape {g : Grouping} {switch : OpenSwitch} {pattern : Option String} {first : Nat}
    {outer : List Stmt} {frames : List (Frame × List Stmt)} (hblock : g.block = none)
    (stack : g.frames = (.case switch pattern first, outer) :: frames) (e : Entry) :
    (g.inCase switch pattern first outer frames e).toOption.map shape =
      if g.isNew e.token then Shape.place g.shape.frames e.token else none := by
  have hitem := item_shape hblock e
  have hframes : g.shape.frames = .case (switch.otherwise.isSome || pattern.isNone) ::
      frames.map fun frame => frame.1.shape := by
    simp [shape, stack, Frame.shape]
  have hbetween : ∀ last, (betweenCases (endCase g switch pattern first last outer frames).2
      (endCase g switch pattern first last outer frames).1 outer frames e).toOption.map shape =
        Shape.betweenCases (switch.otherwise.isSome || pattern.isNone)
          (frames.map fun frame => frame.1.shape) e.token := by
    intro last
    have hblock' : (endCase g switch pattern first last outer frames).2.block = none := hblock
    have stack' : (endCase g switch pattern first last outer frames).2.frames =
        (.switch (endCase g switch pattern first last outer frames).1, outer) :: frames := rfl
    rw [betweenCases_shape hblock' stack', endCase_shape]
  rw [hframes] at hitem ⊢
  obtain ⟨line, directive⟩ := e
  cases directive with
  | none =>
    rw [Shape.place_item (by intro _ _ h; cases h) (isSome_item_plain line)]
    exact hitem
  | some d =>
    cases d with
    | action a => cases a <;> exact hitem
    | loop l => exact hitem
    | condition c => exact hitem
    | switch o => exact hitem
    | marker m =>
      cases m with
      | endCase =>
        have hended := endCase_shape g switch pattern first line.number outer frames
        rw [← hended]
        change some (Shape.mk (g.block.map OpenBlock.shape) _) = some ⟨none, _⟩
        rw [hblock]
        rfl
      | case pattern => exact hbetween _
      | default => exact hbetween _
      | endSwitch => exact hbetween _
      | _ => exact hitem

theorem place_shape {g : Grouping} (hblock : g.block = none) (e : Entry) :
    (g.place e).toOption.map shape =
      if g.isNew e.token then Shape.place g.shape.frames e.token else none := by
  unfold place
  split
  case h_1 hframes =>
    have hitem := item_shape hblock e
    rwa [show g.shape.frames = [] by simp [shape, hframes]] at hitem ⊢
  case h_2 hframes => exact inFunction_shape hblock hframes e
  case h_3 switch outer frames hframes =>
    have hshape : g.shape.frames = .switch switch.otherwise.isSome ::
        frames.map fun frame => frame.1.shape := by
      simp [shape, hframes, Frame.shape]
    rw [betweenCases_shape hblock hframes e, hshape]
    cases e.token with
    | function name => exact (ite_self _).symm
    | _ => rfl
  case h_4 hframes => exact inCase_shape hblock hframes e

theorem closeBlock_shape (g : Grouping) : g.closeBlock.shape.frames = g.shape.frames := by
  simp [shape]

theorem closeBlock_isNew (g : Grouping) : g.closeBlock.isNew = g.isNew := by
  funext t
  unfold closeBlock
  split <;> rfl

/-- What an implicit body makes of a line, as far as what is open is concerned. -/
theorem absorb_shape (block : OpenBlock) (frames : List Shape.Frame) (e : Entry) :
    Shape.step ⟨some block.shape, frames⟩ e.token =
      match block.absorb e with
      | .taken block => some ⟨some block.shape, frames⟩
      | .closing => some ⟨none, frames⟩
      | .after => Shape.place frames e.token := by
  obtain ⟨line, directive⟩ := e
  cases directive with
  | none =>
    cases hkind : line.kind.isSkipped <;> cases block <;>
      simp [OpenBlock.absorb, OpenBlock.add, OpenBlock.shape, Entry.token, hkind, Shape.step]
  | some d =>
    cases d with
    | action a => cases a <;> cases block <;> rfl
    | loop l => cases block <;> rfl
    | condition c => cases block <;> rfl
    | switch o => cases block <;> rfl
    | marker m => cases m <;> cases block <;> rfl

/-- An implicit body takes no function. -/
theorem isNew_of_absorb {g : Grouping} {block : OpenBlock} {e : Entry}
    (h : block.absorb e ≠ .after) : g.isNew e.token = true := by
  obtain ⟨line, directive⟩ := e
  cases directive with
  | none => cases hkind : line.kind.isSkipped <;> simp [Entry.token, hkind, isNew]
  | some d =>
    cases d with
    | marker m =>
      cases m with
      | function name => exact absurd rfl h
      | _ => rfl
    | action a => cases a <;> rfl
    | _ => rfl

/-- The grouping takes a line exactly if the machine takes its token, and if it does
    not open a function whose name is taken. -/
theorem step_shape (g : Grouping) (e : Entry) :
    (g.step e).toOption.map shape = if g.isNew e.token then g.shape.step e.token else none := by
  have hplace := place_shape g.closeBlock_block e
  rw [closeBlock_shape, closeBlock_isNew] at hplace
  cases hblock : g.block with
  | none =>
    have hshape : g.shape = ⟨none, g.shape.frames⟩ := by simp [shape, hblock]
    rw [closeBlock_of_none hblock] at hplace
    rw [step, hblock, hshape]
    exact hplace
  | some block =>
    have hshape : g.shape = ⟨some block.shape, g.shape.frames⟩ := by simp [shape, hblock]
    have hnew : block.absorb e ≠ .after → g.isNew e.token = true := isNew_of_absorb
    have habsorb := absorb_shape block g.shape.frames e
    rw [step, hblock, hshape, habsorb]
    cases hcase : block.absorb e with
    | taken block' => simp [hcase, hnew, Except.toOption, shape]
    | closing =>
      have hclosed : g.closeBlock.shape = ⟨none, g.shape.frames⟩ := by simp [shape]
      simp [hcase, hnew, Except.toOption, hclosed]
    | after => simpa [hcase] using hplace

/-! ## The names of functions -/

/-- The names of the functions that have begun. -/
def names (g : Grouping) : List String :=
  g.frames.filterMap (·.1.functionName?) ++ g.functions.map (·.name)

theorem closeBlock_names (g : Grouping) : g.closeBlock.names = g.names := by
  unfold closeBlock
  split <;> rfl

/-- Only a line that opens a function adds a name, and no line takes one away. -/
theorem Placed.names_perm {e : Entry} {g g' : Grouping} (h : Placed e g g') :
    g'.names.Perm (e.token.functionName?.toList ++ g.names) := by
  have hsame : ∀ {g g' : Grouping}, g'.names = g.names → e.token.functionName? = none →
      g'.names.Perm (e.token.functionName?.toList ++ g.names) := by
    intro g g' hnames htoken
    rw [hnames, htoken]
    exact .refl _
  have hplain : e.directive = none → e.token.functionName? = none := by
    intro hd
    cases hkind : e.line.kind.isSkipped <;> simp [Entry.token, hd, hkind, Token.functionName?]
  have hdirective : ∀ {d : Directive}, e.directive = some d →
      e.token.functionName? = d.token.functionName? := by
    intro d hd
    simp [Entry.token, hd]
  induction h with
  | skipped hd _ _ => exact hsame rfl (hplain hd)
  | plain hd _ _ => exact hsame rfl (hplain hd)
  | @action g a hd _ =>
    refine hsame rfl ((hdirective hd).trans ?_)
    cases a <;> rfl
  | loop hd _ => exact hsame rfl (hdirective hd)
  | condition hd _ => exact hsame rfl (hdirective hd)
  | switch hd _ => exact hsame rfl (hdirective hd)
  | function hd htop _ =>
    rw [hdirective hd]
    simp [Directive.token, Token.functionName?, names, htop, Frame.functionName?]
  | endFunction hd hstack =>
    rw [hdirective hd]
    simp [Directive.token, Token.functionName?, names, hstack, Frame.functionName?]
  | case hd hstack => exact hsame (by simp [names, hstack, Frame.functionName?]) (hdirective hd)
  | default hd hstack _ => exact hsame (by simp [names, hstack, Frame.functionName?]) (hdirective hd)
  | endSwitch hd hstack => exact hsame (by simp [names, hstack, Frame.functionName?]) (hdirective hd)
  | endCase hd hstack =>
    exact hsame (by simp [names, Grouping.endCase, hstack, Frame.functionName?]) (hdirective hd)
  | nextCase hstack _ _ ih =>
    refine ih.trans ?_
    simp [names, Grouping.endCase, hstack, Frame.functionName?]

theorem step_names_perm {e : Entry} {g g' : Grouping} (h : g.step e = .ok g') :
    g'.names.Perm (e.token.functionName?.toList ++ g.names) := by
  cases step_stepped h with
  | added hd hk hb => simp [Entry.token, hd, hk, Token.functionName?, names]
  | otherwise hd hb => simp [Entry.token, hd, Directive.token, Token.functionName?, names]
  | endIf hd hb =>
    simp [Entry.token, hd, Directive.token, Token.functionName?, closeBlock_names]
  | placed _ _ hplaced =>
    rw [← closeBlock_names g]
    exact hplaced.names_perm

theorem step_mem_names {e : Entry} {g g' : Grouping} (h : g.step e = .ok g') (name : String) :
    name ∈ g'.names ↔ e.token.functionName? = some name ∨ name ∈ g.names := by
  rw [(step_names_perm h).mem_iff, List.mem_append, Option.mem_toList]

/-! ## Runs of the grouping -/

/-- Where the machine takes a token, it opens no function or the names that have
    begun are those that have ended. -/
theorem isNew_iff {g : Grouping} {t : Token} {s : Shape} (h : g.shape.step t = some s) :
    g.isNew t = true ↔ ∀ name, t.functionName? = some name → name ∉ g.names := by
  cases t with
  | function name =>
    have hframes : g.frames = [] := List.map_eq_nil_iff.mp (Shape.frames_of_function h)
    simp [isNew, Token.functionName?, names, hframes]
  | _ => simp [isNew, Token.functionName?]

theorem step_eq_ok_iff {g : Grouping} {e : Entry} {s : Shape} :
    (∃ g', g.step e = .ok g' ∧ g'.shape = s) ↔
      g.shape.step e.token = some s ∧ ∀ name, e.token.functionName? = some name → name ∉ g.names := by
  have hshape := g.step_shape e
  constructor
  · rintro ⟨g', hstep, rfl⟩
    rw [hstep] at hshape
    split at hshape
    · next hnew => exact ⟨hshape.symm, (isNew_iff hshape.symm).mp hnew⟩
    · cases hshape
  · rintro ⟨hstep, hnames⟩
    rw [if_pos ((isNew_iff hstep).mpr hnames), hstep] at hshape
    obtain ⟨g', hg', rfl⟩ := Option.map_eq_some_iff.mp hshape
    cases hresult : g.step e with
    | error err => rw [hresult] at hg'; cases hg'
    | ok g₁ =>
      rw [hresult] at hg'
      cases hg'
      exact ⟨g', rfl, rfl⟩

/-- The functions that have begun have different names. -/
theorem step_names_nodup {e : Entry} {g g' : Grouping} (h : g.step e = .ok g')
    (hnodup : g.names.Nodup) : g'.names.Nodup := by
  obtain ⟨-, hnew⟩ := step_eq_ok_iff.mp ⟨g', h, rfl⟩
  rw [(step_names_perm h).nodup_iff]
  cases hname : e.token.functionName? with
  | none => exact hnodup
  | some name => exact List.nodup_cons.mpr ⟨hnew name hname, hnodup⟩

/-- Names that are different from each other and from those that have begun. -/
def NewNames (ts : List Token) (before : List String) : Prop :=
  (ts.filterMap Token.functionName?).Nodup ∧
    ∀ name ∈ ts.filterMap Token.functionName?, name ∉ before

theorem newNames_cons {t : Token} {ts : List Token} {before after : List String}
    (hafter : ∀ name, name ∈ after ↔ t.functionName? = some name ∨ name ∈ before) :
    NewNames (t :: ts) before ↔
      (∀ name, t.functionName? = some name → name ∉ before) ∧ NewNames ts after := by
  unfold NewNames
  cases hname : t.functionName? with
  | none =>
    simp only [List.filterMap_cons_none hname]
    grind
  | some name =>
    simp only [List.filterMap_cons_some hname, List.nodup_cons]
    grind

/-- Lines are grouped, and leave nothing open, exactly if the machine accepts their
    tokens and their functions have new and different names. -/
theorem steps_isOk_iff {g : Grouping} {entries : List Entry} :
    (∃ g', g.steps entries = .ok g' ∧ g'.frames = []) ↔
      g.shape.Accepts (entries.map Entry.token) ∧ NewNames (entries.map Entry.token) g.names := by
  induction entries generalizing g with
  | nil =>
    have hframes : g.shape.Accepts [] ↔ g.frames = [] := by simp [Shape.Accepts, shape]
    simp [steps, hframes, NewNames]
  | cons e entries ih =>
    simp only [List.map_cons, Shape.accepts_cons, steps_cons_eq_ok_iff]
    constructor
    · rintro ⟨g', ⟨g₁, hstep, hsteps⟩, hframes⟩
      obtain ⟨haccepts, hnames⟩ := ih.mp ⟨g', hsteps, hframes⟩
      obtain ⟨htaken, hnew⟩ := step_eq_ok_iff.mp ⟨g₁, hstep, rfl⟩
      refine ⟨⟨g₁.shape, htaken, haccepts⟩, ?_⟩
      exact (newNames_cons (step_mem_names hstep)).mpr ⟨hnew, hnames⟩
    · rintro ⟨⟨s, htaken, haccepts⟩, hnames⟩
      have hnew : ∀ name, e.token.functionName? = some name → name ∉ g.names := by
        intro name hname
        refine hnames.2 name ?_
        rw [List.filterMap_cons_some hname]
        exact List.mem_cons_self
      obtain ⟨g₁, hstep, rfl⟩ := step_eq_ok_iff.mpr ⟨htaken, hnew⟩
      obtain ⟨-, hnames⟩ := (newNames_cons (step_mem_names hstep)).mp hnames
      obtain ⟨g', hsteps, hframes⟩ := ih.mpr ⟨haccepts, hnames⟩
      exact ⟨g', ⟨g₁, hstep, hsteps⟩, hframes⟩

end Grouping

/-! ## Parsing -/

namespace Script

variable {now : Int} {scope : Scope} {n : Nat} {raws : List String}

/-- Lines are read exactly if each of them can be, and play the same parts in every
    scope. -/
theorem readLines_isOk_iff :
    (∃ entries scope', readLines now scope n raws = (.ok entries, scope')) ↔
      ∀ raw ∈ raws, Line.Readable raw := by
  induction raws generalizing scope n with
  | nil => simp [readLines]
  | cons raw raws ih =>
    have hhead := Line.token?_eq now scope n raw
    rw [List.forall_mem_cons, ← Line.token?_isSome_iff, hhead]
    simp only [readLines_cons_eq_ok_iff]
    cases hread : Line.read now scope n raw with
    | mk result scope₁ =>
      cases result with
      | error err => simp [Except.toOption]
      | ok e =>
        simp only [Except.toOption, Option.map_some, Option.isSome_some, true_and]
        constructor
        · rintro ⟨_, scope', _, _, rest, heq, hrest, rfl⟩
          cases heq
          exact ih.mp ⟨rest, scope', hrest⟩
        · intro hreadable
          obtain ⟨rest, scope', hrest⟩ := ih.mpr hreadable
          exact ⟨e :: rest, scope', e, scope₁, rest, rfl, hrest, rfl⟩

theorem readLines_tokens {entries : List Entry} {scope' : Scope}
    (h : readLines now scope n raws = (.ok entries, scope')) :
    entries.map Entry.token = raws.filterMap Line.token? := by
  induction raws generalizing scope n entries with
  | nil => cases h; rfl
  | cons raw raws ih =>
    obtain ⟨e, scope₁, rest, hread, hrest, rfl⟩ := readLines_cons_eq_ok_iff.mp h
    have htoken : Line.token? raw = some e.token := by
      rw [Line.token?_eq now scope n raw, hread]
      rfl
    rw [List.map_cons, List.filterMap_cons_some htoken, ih hrest]

/-- The grouping makes a script exactly if it leaves nothing open. -/
theorem ofGrouping_isOk_iff {g : Grouping} {entries : List Entry} :
    (∃ script, ofGrouping g entries = .ok script) ↔ g.frames = [] := by
  simp only [ofGrouping, Grouping.finish, Grouping.closeBlock_frames]
  cases g.frames with
  | nil => simp
  | cons frame frames =>
    obtain ⟨frame, outer⟩ := frame
    cases frame <;> simp

/-- A text is a script exactly if all its directives can be read, its functions have
    different names and its lines are as the grammar says. -/
theorem parse_isOk_iff (now : Int) (scope : Scope) (text : String) :
    (∃ script, (parse now scope text).1 = .ok script) ↔
      (∀ raw ∈ Text.lines text, Line.Readable raw) ∧
        ((tokens text).filterMap Token.functionName?).Nodup ∧
        Grammar.Derives .script (tokens text) := by
  have hgrouped : ∀ {entries : List Entry}, entries.map Entry.token = tokens text →
      ((∃ g, Grouping.start.steps entries = .ok g ∧ g.frames = []) ↔
        ((tokens text).filterMap Token.functionName?).Nodup ∧
          Grammar.Derives .script (tokens text)) := by
    intro entries htokens
    have hshape : Grouping.start.shape = Shape.start := rfl
    rw [Grouping.steps_isOk_iff, htokens, hshape, Shape.accepts_iff_derives, and_comm]
    simp [Grouping.NewNames, Grouping.names, Grouping.start]
  constructor
  · rintro ⟨script, hscript⟩
    obtain ⟨entries, g, hread, hsteps, hmade⟩ := parseLines_eq_ok_iff.mp (Prod.ext hscript rfl)
    have hframes := ofGrouping_isOk_iff.mp ⟨script, hmade⟩
    refine ⟨readLines_isOk_iff.mp ⟨entries, _, hread⟩, ?_⟩
    exact (hgrouped (readLines_tokens hread)).mp ⟨g, hsteps, hframes⟩
  · rintro ⟨hreadable, hderived⟩
    obtain ⟨entries, scope', hread⟩ := readLines_isOk_iff.mpr hreadable
    obtain ⟨g, hsteps, hframes⟩ := (hgrouped (readLines_tokens hread)).mpr hderived
    obtain ⟨script, hmade⟩ := ofGrouping_isOk_iff.mpr hframes
    have hparse := parseLines_eq_ok_iff.mpr ⟨entries, g, hread, hsteps, hmade⟩
    exact ⟨script, congrArg Prod.fst hparse⟩

end Script

end ConsoleScript
