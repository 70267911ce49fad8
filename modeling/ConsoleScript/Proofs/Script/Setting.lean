-- SUMMARY: The grouping of lines that stand after others: what comes of them does not depend on where they stand.
import ConsoleScript.Proofs.Script.Placing

/-!
# Lines in a setting

A `Setting` says where lines stand: after which statements and functions, with which
numbers, and with what other changes that the grouping does not look at. The grouping
of lines in a setting goes as it would go without it (`Grouping.step_within`). The only
exception is a function whose name is that of one before it.
-/

namespace ConsoleScript

/-! ## Relabelling -/

/-- A change of lines that keeps what the grouping looks at, up to line numbers. -/
structure Relabelling where
  line : Line → Line
  number : Nat → Nat
  number_line : ∀ l, (line l).number = number l.number
  trimmed_line : ∀ l, (line l).trimmed = l.trimmed
  kind_line : ∀ l, (line l).kind = l.kind

namespace Stmt

mutual

/-- The statement with its lines relabelled, at every depth. -/
def relabel (ρ : Relabelling) : Stmt → Stmt
  | plain line => plain (ρ.line line)
  | action line a => action (ρ.line line) a
  | loop line l body => loop (ρ.line line) l (relabelAll ρ body)
  | branch line c yes no => branch (ρ.line line) c (relabelAll ρ yes) (relabelAll ρ no)
  | switch line o cases none => switch (ρ.line line) o (relabelCases ρ cases) none
  | switch line o cases (some body) =>
    switch (ρ.line line) o (relabelCases ρ cases) (some (relabelAll ρ body))

/-- The statements with their lines relabelled. -/
def relabelAll (ρ : Relabelling) : List Stmt → List Stmt
  | [] => []
  | x :: rest => relabel ρ x :: relabelAll ρ rest

/-- The cases with their ranges and the lines of their bodies relabelled. -/
def relabelCases (ρ : Relabelling) : List (Case Stmt) → List (Case Stmt)
  | [] => []
  | ⟨pattern, first, last, body⟩ :: rest =>
    ⟨pattern, ρ.number first, ρ.number last, relabelAll ρ body⟩ :: relabelCases ρ rest

end

end Stmt

variable {ρ : Relabelling}

/-- The case with its range and the lines of its body relabelled. -/
def Case.relabel (ρ : Relabelling) (c : Case Stmt) : Case Stmt :=
  ⟨c.pattern, ρ.number c.first, ρ.number c.last, c.body.map (Stmt.relabel ρ)⟩

/-- The function with its range and the lines of its body relabelled. -/
def Function.relabel (ρ : Relabelling) (fn : Function) : Function :=
  ⟨fn.name, ρ.number fn.first, ρ.number fn.last, fn.body.map (Stmt.relabel ρ)⟩

/-- The entry with its line relabelled. -/
def Entry.relabel (ρ : Relabelling) (e : Entry) : Entry := ⟨ρ.line e.line, e.directive⟩

namespace Stmt

theorem relabelAll_eq_map (ss : List Stmt) : relabelAll ρ ss = ss.map (relabel ρ) := by
  induction ss with
  | nil => simp [relabelAll]
  | cons x rest ih => simp [relabelAll, ih]

theorem relabelCases_eq_map (cases : List (Case Stmt)) :
    relabelCases ρ cases = cases.map (Case.relabel ρ) := by
  induction cases with
  | nil => simp [relabelCases]
  | cons c rest ih =>
    obtain ⟨pattern, first, last, body⟩ := c
    simp [relabelCases, ih, Case.relabel, relabelAll_eq_map]

@[simp] theorem relabel_plain (line : Line) : (plain line).relabel ρ = plain (ρ.line line) := by
  simp [relabel]

@[simp] theorem relabel_action (line : Line) (a : Action) :
    (action line a).relabel ρ = action (ρ.line line) a := by
  simp [relabel]

@[simp] theorem relabel_loop (line : Line) (l : Loop) (body : List Stmt) :
    (loop line l body).relabel ρ = loop (ρ.line line) l (body.map (relabel ρ)) := by
  simp [relabel, relabelAll_eq_map]

@[simp] theorem relabel_branch (line : Line) (c : Condition) (yes no : List Stmt) :
    (branch line c yes no).relabel ρ =
      branch (ρ.line line) c (yes.map (relabel ρ)) (no.map (relabel ρ)) := by
  simp [relabel, relabelAll_eq_map]

@[simp] theorem relabel_switch (line : Line) (o : SwitchOptions) (cases : List (Case Stmt))
    (otherwise : Option (List Stmt)) :
    (switch line o cases otherwise).relabel ρ =
      switch (ρ.line line) o (cases.map (Case.relabel ρ))
        (otherwise.map (List.map (relabel ρ))) := by
  cases otherwise with
  | none => simp [relabel, relabelCases_eq_map]
  | some body => simp [relabel, relabelCases_eq_map, relabelAll_eq_map]

end Stmt

/-- The error with its lines renumbered. -/
def ParseError.renumber (f : Nat → Nat) : ParseError → ParseError
  | unknownDirective line content => unknownDirective (f line) content
  | malformed line content cause => malformed (f line) content cause
  | unterminatedFunction line name => unterminatedFunction (f line) name
  | unterminatedSwitch line => unterminatedSwitch (f line)
  | duplicateFunction line name first => duplicateFunction (f line) name (f first)
  | nestedFunction line name => nestedFunction (f line) name
  | unexpected line content => unexpected (f line) content
  | secondDefault line switch => secondDefault (f line) (f switch)
  | outsideCase line trimmed => outsideCase (f line) trimmed

@[simp] theorem except_mapError_ok {ε ε' α : Type} (f : ε → ε') (a : α) :
    (Except.ok a).mapError f = .ok a := rfl

@[simp] theorem except_mapError_error {ε ε' α : Type} (f : ε → ε') (err : ε) :
    (Except.error err : Except ε α).mapError f = .error (f err) := rfl

/-! ## Settings -/

/-- Where lines stand. -/
structure Setting extends Relabelling where
  /-- The statements before the lines, the last one first. -/
  items : List Stmt
  /-- The functions before the lines, the last one first. -/
  functions : List Function

variable {τ : Setting}

/-- The implicit body with its lines relabelled. -/
def OpenBlock.relabel (ρ : Relabelling) : OpenBlock → OpenBlock
  | .loop line l body => .loop (ρ.line line) l (body.map (Stmt.relabel ρ))
  | .inThen line c yes => .inThen (ρ.line line) c (yes.map (Stmt.relabel ρ))
  | .inElse line c yes no =>
    .inElse (ρ.line line) c (yes.map (Stmt.relabel ρ)) (no.map (Stmt.relabel ρ))

/-- The switch with its lines relabelled. -/
def OpenSwitch.relabel (ρ : Relabelling) (open_ : OpenSwitch) : OpenSwitch :=
  ⟨ρ.line open_.line, open_.options, open_.cases.map (Case.relabel ρ),
    open_.otherwise.map (List.map (Stmt.relabel ρ))⟩

/-- The open body with its lines relabelled. -/
def Frame.relabel (ρ : Relabelling) : Frame → Frame
  | .function name first => .function name (ρ.number first)
  | .switch open_ => .switch (open_.relabel ρ)
  | .case open_ pattern first => .case (open_.relabel ρ) pattern (ρ.number first)

/-- What a body makes of a line, relabelled. -/
def Absorbed.relabel (ρ : Relabelling) : Absorbed → Absorbed
  | .taken block => .taken (block.relabel ρ)
  | .closing => .closing
  | .after => .after

namespace OpenBlock

@[simp] theorem close_relabel (block : OpenBlock) :
    (block.relabel ρ).close = block.close.relabel ρ := by
  cases block <;> simp [relabel, close]

theorem add_relabel (x : Stmt) (block : OpenBlock) :
    (block.relabel ρ).add (x.relabel ρ) = (block.add x).relabel ρ := by
  cases block <;> rfl

theorem absorb_relabel (e : Entry) (block : OpenBlock) :
    (block.relabel ρ).absorb (e.relabel ρ) = (block.absorb e).relabel ρ := by
  obtain ⟨line, directive⟩ := e
  have hadd := add_relabel (ρ := ρ) (.plain line) block
  simp only [Stmt.relabel_plain] at hadd
  simp only [absorb, Entry.relabel, ρ.kind_line]
  split
  · split
    · rfl
    · rw [hadd]
      rfl
  · cases block <;> rfl
  · cases block <;> rfl
  · rfl

end OpenBlock

namespace Setting

/-- The statements of a body that is inside of `frames`. The outermost body is the one
    that has statements before it. -/
def body (τ : Setting) (frames : List (Frame × List Stmt)) (ss : List Stmt) : List Stmt :=
  ss.map (Stmt.relabel τ.toRelabelling) ++ if frames.isEmpty then τ.items else []

/-- The open bodies in the setting. -/
def stack (τ : Setting) : List (Frame × List Stmt) → List (Frame × List Stmt)
  | [] => []
  | (frame, outer) :: frames =>
    (frame.relabel τ.toRelabelling, τ.body frames outer) :: stack τ frames

@[simp] theorem body_cons (frames : List (Frame × List Stmt)) (s : Stmt) (ss : List Stmt) :
    τ.body frames (s :: ss) = s.relabel τ.toRelabelling :: τ.body frames ss := rfl

@[simp] theorem body_nil_cons (f : Frame × List Stmt) (frames : List (Frame × List Stmt)) :
    τ.body (f :: frames) [] = [] := rfl

@[simp] theorem body_reverse_cons (f : Frame × List Stmt) (frames : List (Frame × List Stmt))
    (ss : List Stmt) :
    (τ.body (f :: frames) ss).reverse = ss.reverse.map (Stmt.relabel τ.toRelabelling) := by
  simp [body]

@[simp] theorem isEmpty_stack (frames : List (Frame × List Stmt)) :
    (τ.stack frames).isEmpty = frames.isEmpty := by
  cases frames <;> rfl

end Setting

namespace Grouping

/-- The grouping in a setting. -/
def within (τ : Setting) (g : Grouping) : Grouping :=
  ⟨τ.body g.frames g.items, g.block.map (OpenBlock.relabel τ.toRelabelling), τ.stack g.frames,
    g.functions.map (Function.relabel τ.toRelabelling) ++ τ.functions⟩

/-- What the grouping comes to, in a setting. -/
def resultWithin (τ : Setting) (result : Except ParseError Grouping) : Except ParseError Grouping :=
  (result.map (within τ)).mapError (ParseError.renumber τ.number)

@[simp] theorem resultWithin_ok (g : Grouping) : resultWithin τ (.ok g) = .ok (g.within τ) := rfl

@[simp] theorem resultWithin_error (err : ParseError) :
    resultWithin τ (.error err) = .error (err.renumber τ.number) := rfl

theorem closeBlock_within (g : Grouping) : (g.within τ).closeBlock = g.closeBlock.within τ := by
  obtain ⟨items, block, frames, functions⟩ := g
  cases block with
  | none => rfl
  | some block => simp [within, closeBlock, push]

/-- The line opens no function that has the name of one before the setting. -/
def FreshIn (τ : Setting) (e : Entry) : Prop :=
  ∀ name, e.directive = some (.marker (.function name)) →
    τ.functions.find? (·.name == name) = none

/-- The line before the line is relabelled with it. -/
def Steady (τ : Setting) (e : Entry) : Prop :=
  τ.number (e.line.number - 1) = τ.number e.line.number - 1

theorem item_within {g : Grouping} {e : Entry} (hfresh : FreshIn τ e) :
    (g.within τ).item (e.relabel τ.toRelabelling) = resultWithin τ (g.item e) := by
  obtain ⟨line, directive⟩ := e
  simp only [FreshIn] at hfresh
  simp only [item, Entry.relabel, τ.kind_line, τ.number_line, τ.trimmed_line]
  split
  · simp only [within, Setting.isEmpty_stack]
    split
    · rfl
    · simp [push, within]
  · simp [push, within]
  · rfl
  · rfl
  · simp [within, Setting.stack, Frame.relabel, OpenSwitch.relabel]
  · next name =>
    simp only [within, Setting.isEmpty_stack]
    split
    · next htop =>
      have hfind : (g.functions.map (Function.relabel τ.toRelabelling) ++ τ.functions).find?
          (·.name == name) =
            (g.functions.find? (·.name == name)).map (Function.relabel τ.toRelabelling) := by
        rw [List.find?_append, hfresh name rfl, Option.or_none, List.find?_map]
        rfl
      rw [hfind]
      cases g.functions.find? (·.name == name) with
      | some f => rfl
      | none => simp [within, Setting.stack, Frame.relabel, List.isEmpty_iff.mp htop]
    · rfl
  · rfl

theorem betweenCases_within {g : Grouping} {open_ : OpenSwitch} {outer : List Stmt}
    {frames : List (Frame × List Stmt)} {e : Entry} :
    (g.within τ).betweenCases (open_.relabel τ.toRelabelling) (τ.body frames outer)
      (τ.stack frames) (e.relabel τ.toRelabelling) =
        resultWithin τ (g.betweenCases open_ outer frames e) := by
  obtain ⟨line, directive⟩ := e
  simp only [betweenCases, Entry.relabel, τ.kind_line, τ.number_line, τ.trimmed_line]
  split
  · split
    · rfl
    · rfl
  · simp [within, OpenSwitch.relabel]
  · simp [within, Setting.stack, Frame.relabel]
  · simp only [OpenSwitch.relabel, Option.isSome_map, τ.number_line]
    split
    · rfl
    · simp [within, Setting.stack, Frame.relabel, OpenSwitch.relabel]
  · rfl

theorem endCase_within {g : Grouping} {open_ : OpenSwitch} {pattern : Option String}
    {first last : Nat} {outer : List Stmt} {frames : List (Frame × List Stmt)}
    (stack : g.frames = (.case open_ pattern first, outer) :: frames) :
    (g.within τ).endCase (open_.relabel τ.toRelabelling) pattern (τ.number first) (τ.number last)
      (τ.body frames outer) (τ.stack frames) =
        ((g.endCase open_ pattern first last outer frames).1.relabel τ.toRelabelling,
          (g.endCase open_ pattern first last outer frames).2.within τ) := by
  cases pattern <;>
    simp [endCase, within, stack, Setting.stack, Frame.relabel, OpenSwitch.relabel, Case.relabel]

theorem inFunction_within {g : Grouping} {name : String} {first : Nat} {outer : List Stmt}
    {frames : List (Frame × List Stmt)} {e : Entry}
    (stack : g.frames = (.function name first, outer) :: frames) (hfresh : FreshIn τ e) :
    (g.within τ).inFunction name (τ.number first) (τ.body frames outer) (τ.stack frames)
      (e.relabel τ.toRelabelling) =
        resultWithin τ (g.inFunction name first outer frames e) := by
  have hitem := item_within (g := g) hfresh
  obtain ⟨line, directive⟩ := e
  simp only [inFunction, Entry.relabel, τ.number_line] at hitem ⊢
  split
  · simp [within, stack, Function.relabel]
  · exact hitem

theorem inCase_within {g : Grouping} {open_ : OpenSwitch} {pattern : Option String} {first : Nat}
    {outer : List Stmt} {frames : List (Frame × List Stmt)} {e : Entry}
    (stack : g.frames = (.case open_ pattern first, outer) :: frames) (hfresh : FreshIn τ e)
    (hsteady : Steady τ e) :
    (g.within τ).inCase (open_.relabel τ.toRelabelling) pattern (τ.number first)
      (τ.body frames outer) (τ.stack frames) (e.relabel τ.toRelabelling) =
        resultWithin τ (g.inCase open_ pattern first outer frames e) := by
  have hitem := item_within (g := g) hfresh
  obtain ⟨line, directive⟩ := e
  simp only [Steady] at hsteady
  simp only [inCase, Entry.relabel, τ.number_line, ← hsteady, endCase_within stack] at hitem ⊢
  split
  · rfl
  · split
    · exact betweenCases_within (e := ⟨line, _⟩)
    · exact hitem
  · exact hitem

theorem place_within {g : Grouping} {e : Entry} (hfresh : FreshIn τ e) (hsteady : Steady τ e) :
    (g.within τ).place (e.relabel τ.toRelabelling) = resultWithin τ (g.place e) := by
  have hframes : (g.within τ).frames = τ.stack g.frames := rfl
  unfold place
  rw [hframes]
  cases hstack : g.frames with
  | nil => exact item_within hfresh
  | cons head frames =>
    obtain ⟨frame, outer⟩ := head
    cases frame with
    | function name first => exact inFunction_within hstack hfresh
    | switch open_ => exact betweenCases_within
    | case open_ pattern first => exact inCase_within hstack hfresh hsteady

/-- In a setting, a line does to the grouping what it does without. -/
theorem step_within {g : Grouping} {e : Entry} (hfresh : FreshIn τ e) (hsteady : Steady τ e) :
    (g.within τ).step (e.relabel τ.toRelabelling) = resultWithin τ (g.step e) := by
  have hblock : (g.within τ).block = g.block.map (OpenBlock.relabel τ.toRelabelling) := rfl
  have hplace := place_within (g := g.closeBlock) hfresh hsteady
  unfold step
  rw [hblock]
  cases hopen : g.block with
  | none => exact place_within hfresh hsteady
  | some block =>
    simp only [Option.map_some, OpenBlock.absorb_relabel, closeBlock_within]
    cases block.absorb e with
    | taken block => rfl
    | closing => rfl
    | after => exact hplace

/-- In a setting, the lines end as they end without. -/
theorem finish_within (g : Grouping) :
    (g.within τ).finish = (g.finish.map fun (body, functions) =>
      (τ.items.reverse ++ body.map (Stmt.relabel τ.toRelabelling),
        τ.functions.reverse ++ functions.map (Function.relabel τ.toRelabelling))).mapError
          (ParseError.renumber τ.number) := by
  unfold finish
  rw [closeBlock_within]
  have hframes : (g.closeBlock.within τ).frames = τ.stack g.closeBlock.frames := rfl
  simp only [hframes]
  cases hstack : g.closeBlock.frames with
  | nil =>
    have htop : g.frames = [] := by rwa [closeBlock_frames] at hstack
    simp [Setting.stack, within, Setting.body, htop, Except.map]
  | cons head frames =>
    obtain ⟨frame, outer⟩ := head
    cases frame with
    | function name first => rfl
    | switch open_ =>
      simp [Setting.stack, Frame.relabel, OpenSwitch.relabel, Except.map,
        ParseError.renumber, τ.number_line]
    | case open_ pattern first =>
      simp [Setting.stack, Frame.relabel, OpenSwitch.relabel, Except.map,
        ParseError.renumber, τ.number_line]

end Grouping

end ConsoleScript
