-- SUMMARY: A parse as two passes: reading all lines in order, then placing them one by one.
import ConsoleScript.Script.Parse

/-!
# Reading and placing

A parse reads each line and places it at once. `parseFrom_eq_ok_iff` says that a
parse that succeeds is the same as reading all lines in order first and then
grouping what was read. `Placed` says once what placing a line can do to a
grouping, so that no other proof opens `Grouping.place` and what it is made of.
-/

namespace ConsoleScript

/-! ## Reading -/

namespace Line

/-- A line that is read keeps its number, and has a directive exactly if its
    class says so. -/
theorem read_ok {now : Int} {scope scope' : Scope} {n : Nat} {raw : String} {e : Entry}
    (h : read now scope n raw = (.ok e, scope')) :
    e.line.number = n ∧ e.directive.isSome = e.line.kind.isDirective := by
  cases hk : classify (Text.trim raw) with
  | blank | comment | text =>
    simp only [read, hk] at h
    cases h
    exact ⟨rfl, rfl⟩
  | assignment =>
    simp only [read, hk] at h
    split at h
    · cases h
      exact ⟨rfl, rfl⟩
    · cases h
      exact ⟨rfl, rfl⟩
  | directive | conditional =>
    simp only [read, hk] at h
    split at h
    · cases h
    · cases h
      exact ⟨rfl, rfl⟩

end Line

namespace Script

/-- Reads lines one after the other from number `n` on, each in the scope that
    the lines before it leave, and groups nothing. -/
def readLines (now : Int) (scope : Scope) (n : Nat) :
    List String → Except ParseError (List Entry) × Scope
  | [] => (.ok [], scope)
  | raw :: rest =>
    match Line.read now scope n raw with
    | (.error e, scope) => (.error (.ofDirective n (Line.content (Text.trim raw)) e), scope)
    | (.ok entry, scope) =>
      let (result, scope) := readLines now scope (n + 1) rest
      (result.map (entry :: ·), scope)

variable {now : Int} {scope scope' : Scope} {n : Nat} {raws : List String} {entries : List Entry}

theorem readLines_cons_eq_ok_iff {raw : String} :
    readLines now scope n (raw :: raws) = (.ok entries, scope') ↔
      ∃ e scope₁ rest, Line.read now scope n raw = (.ok e, scope₁) ∧
        readLines now scope₁ (n + 1) raws = (.ok rest, scope') ∧ entries = e :: rest := by
  rw [readLines]
  split
  case h_1 hread => simp [hread]
  case h_2 entry scope₁ hread =>
    cases hrest : readLines now scope₁ (n + 1) raws with
    | mk result scope₂ =>
      cases result with
      | error err => simp [hread, hrest, Except.map]
      | ok rest =>
        simp only [hread, Except.map, Prod.mk.injEq, Except.ok.injEq]
        constructor
        · rintro ⟨rfl, rfl⟩
          exact ⟨entry, scope₁, rest, ⟨rfl, rfl⟩, hrest, rfl⟩
        · rintro ⟨_, _, rest', ⟨rfl, rfl⟩, hrest', rfl⟩
          rw [hrest] at hrest'
          cases hrest'
          exact ⟨rfl, rfl⟩

/-- The lines that are read are numbered without a gap. -/
theorem readLines_numbers (h : readLines now scope n raws = (.ok entries, scope')) :
    entries.map (·.line.number) = List.range' n raws.length := by
  induction raws generalizing n scope entries with
  | nil => cases h; rfl
  | cons raw raws ih =>
    obtain ⟨e, scope₁, rest, hread, hrest, rfl⟩ := readLines_cons_eq_ok_iff.mp h
    simp [(Line.read_ok hread).1, ih hrest, List.range'_succ]

/-- What holds of each of the lines when it is read holds of all that are read. -/
theorem readLines_forall_mem {P : Entry → Prop}
    (hread : ∀ raw ∈ raws, ∀ {scope scope' : Scope} {n : Nat} {e : Entry},
      Line.read now scope n raw = (.ok e, scope') → P e)
    (h : readLines now scope n raws = (.ok entries, scope')) : ∀ e ∈ entries, P e := by
  induction raws generalizing n scope entries with
  | nil => cases h; simp
  | cons raw raws ih =>
    obtain ⟨e, scope₁, rest, he, hrest, rfl⟩ := readLines_cons_eq_ok_iff.mp h
    obtain ⟨hhead, htail⟩ := List.forall_mem_cons.mp hread
    intro e' he'
    rcases List.mem_cons.mp he' with rfl | he'
    · exact hhead he
    · exact ih htail hrest e' he'

/-- What holds of every single line that is read holds of all that are read. -/
theorem readLines_forall {P : Entry → Prop}
    (hread : ∀ {scope scope' : Scope} {n : Nat} {raw : String} {e : Entry},
      Line.read now scope n raw = (.ok e, scope') → P e)
    (h : readLines now scope n raws = (.ok entries, scope')) : ∀ e ∈ entries, P e :=
  readLines_forall_mem (fun _ _ => hread) h

end Script

/-! ## Grouping what was read -/

namespace Grouping

/-- Takes lines one after the other. -/
def steps (g : Grouping) : List Entry → Except ParseError Grouping
  | [] => .ok g
  | e :: rest =>
    match g.step e with
    | .error err => .error err
    | .ok g => steps g rest

theorem steps_cons_eq_ok_iff {g g' : Grouping} {e : Entry} {rest : List Entry} :
    g.steps (e :: rest) = .ok g' ↔ ∃ g₁, g.step e = .ok g₁ ∧ g₁.steps rest = .ok g' := by
  rw [steps]
  cases g.step e <;> simp

end Grouping

namespace Script

/-- A parse that succeeds is the reading of all lines, followed by their
    grouping. -/
theorem parseFrom_eq_ok_iff {now : Int} {scope scope' : Scope} {n : Nat} {raws : List String}
    {g g' : Grouping} {before all : List Entry} :
    parseFrom now scope n g before raws = (.ok (g', all), scope') ↔
      ∃ entries, readLines now scope n raws = (.ok entries, scope') ∧
        g.steps entries = .ok g' ∧ all = entries.reverse ++ before := by
  induction raws generalizing n scope g before with
  | nil => simp [parseFrom, readLines, Grouping.steps, and_assoc, and_comm, eq_comm]
  | cons raw raws ih =>
    rw [parseFrom]
    simp only [readLines_cons_eq_ok_iff]
    cases hread : Line.read now scope n raw with
    | mk result scope₁ =>
      cases result with
      | error e => simp
      | ok entry =>
        cases hstep : g.step entry with
        | error e =>
          simp only [hstep, Prod.mk.injEq, reduceCtorEq, false_and, false_iff]
          rintro ⟨_, ⟨_, _, entries, ⟨heq, -⟩, -, rfl⟩, hsteps, -⟩
          cases heq
          rw [Grouping.steps, hstep] at hsteps
          cases hsteps
        | ok g₁ =>
          simp only [hstep, ih]
          constructor
          · rintro ⟨entries, hrest, hsteps, rfl⟩
            refine ⟨entry :: entries, ⟨entry, scope₁, entries, rfl, hrest, rfl⟩, ?_, by simp⟩
            exact Grouping.steps_cons_eq_ok_iff.mpr ⟨g₁, hstep, hsteps⟩
          · rintro ⟨_, ⟨e, scope₂, entries, heq, hrest, rfl⟩, hsteps, rfl⟩
            cases heq
            obtain ⟨g₂, hstep₂, hsteps⟩ := Grouping.steps_cons_eq_ok_iff.mp hsteps
            rw [hstep] at hstep₂
            cases hstep₂
            exact ⟨entries, hrest, hsteps, by simp⟩

/-- A script is made of the grouping of the lines that were read. -/
theorem parseLines_eq_ok_iff {now : Int} {scope scope' : Scope} {raws : List String}
    {script : Script} :
    parseLines now scope raws = (.ok script, scope') ↔
      ∃ entries g, readLines now scope 1 raws = (.ok entries, scope') ∧
        Grouping.start.steps entries = .ok g ∧
        ofGrouping g entries.reverse = .ok script := by
  rw [parseLines]
  cases hparse : parseFrom now scope 1 .start [] raws with
  | mk result scope₁ =>
    cases result with
    | error e =>
      simp only [Prod.mk.injEq, reduceCtorEq, false_and, false_iff]
      rintro ⟨entries, g, hread, hsteps, -⟩
      have hok : parseFrom now scope 1 .start [] raws = (.ok (g, entries.reverse ++ []), scope') :=
        parseFrom_eq_ok_iff.mpr ⟨entries, hread, hsteps, rfl⟩
      rw [hparse] at hok
      cases hok
    | ok result =>
      obtain ⟨g, all⟩ := result
      obtain ⟨entries, hread, hsteps, rfl⟩ := parseFrom_eq_ok_iff.mp hparse
      simp only [List.append_nil, Prod.mk.injEq]
      constructor
      · rintro ⟨hscript, rfl⟩
        exact ⟨entries, g, hread, hsteps, hscript⟩
      · rintro ⟨entries', g', hread', hsteps', hscript⟩
        rw [hread] at hread'
        cases hread'
        rw [hsteps] at hsteps'
        cases hsteps'
        exact ⟨hscript, rfl⟩

end Script

/-! ## What placing a line can do -/

/-- The statement of a switch with the cases that have ended. -/
def OpenSwitch.close (switch : OpenSwitch) : Stmt :=
  .switch switch.line switch.options switch.cases.reverse switch.otherwise

namespace Grouping

/-- Whether any statement may stand next: not between the cases of a switch. -/
def TakesItems (g : Grouping) : Prop :=
  ∀ switch outer frames, g.frames ≠ (.switch switch, outer) :: frames

/-- What a line outside of implicit bodies does to a grouping. -/
inductive Placed (e : Entry) : Grouping → Grouping → Prop where
  /-- A blank line or a comment inside a function or a switch is left out. -/
  | skipped {g : Grouping} (directive : e.directive = none) (skipped : e.line.kind.isSkipped = true)
      (inside : g.frames ≠ []) : Placed e g g
  | plain {g : Grouping} (directive : e.directive = none)
      (outside : e.line.kind.isSkipped = true → g.frames = []) (takes : g.TakesItems) :
      Placed e g (g.push (.plain e.line))
  | action {g : Grouping} {a : Action} (directive : e.directive = some (.action a))
      (takes : g.TakesItems) : Placed e g (g.push (.action e.line a))
  | loop {g : Grouping} {l : Loop} (directive : e.directive = some (.loop l))
      (takes : g.TakesItems) : Placed e g { g with block := some (.loop e.line l []) }
  | condition {g : Grouping} {c : Condition} (directive : e.directive = some (.condition c))
      (takes : g.TakesItems) : Placed e g { g with block := some (.inThen e.line c []) }
  | switch {g : Grouping} {o : SwitchOptions} (directive : e.directive = some (.switch o))
      (takes : g.TakesItems) :
      Placed e g { g with
        items := [], frames := (.switch ⟨e.line, o, [], none⟩, g.items) :: g.frames }
  | function {g : Grouping} {name : String}
      (directive : e.directive = some (.marker (.function name))) (top : g.frames = [])
      (fresh : g.functions.find? (·.name == name) = none) :
      Placed e g { g with items := [], frames := [(.function name e.line.number, g.items)] }
  | endFunction {g : Grouping} {name : String} {first : Nat} {outer : List Stmt}
      {frames : List (Frame × List Stmt)}
      (directive : e.directive = some (.marker .endFunction))
      (stack : g.frames = (.function name first, outer) :: frames) :
      Placed e g { g with
        items := outer, frames := frames
        functions := ⟨name, first, e.line.number, g.items.reverse⟩ :: g.functions }
  | case {g : Grouping} {switch : OpenSwitch} {outer : List Stmt}
      {frames : List (Frame × List Stmt)} {pattern : String}
      (directive : e.directive = some (.marker (.case pattern)))
      (stack : g.frames = (.switch switch, outer) :: frames) :
      Placed e g { g with
        items := [], frames := (.case switch (some pattern) e.line.number, outer) :: frames }
  | default {g : Grouping} {switch : OpenSwitch} {outer : List Stmt}
      {frames : List (Frame × List Stmt)}
      (directive : e.directive = some (.marker .default))
      (stack : g.frames = (.switch switch, outer) :: frames) (first : switch.otherwise = none) :
      Placed e g { g with
        items := [], frames := (.case switch none e.line.number, outer) :: frames }
  | endSwitch {g : Grouping} {switch : OpenSwitch} {outer : List Stmt}
      {frames : List (Frame × List Stmt)}
      (directive : e.directive = some (.marker .endSwitch))
      (stack : g.frames = (.switch switch, outer) :: frames) :
      Placed e g { g with items := switch.close :: outer, frames := frames }
  | endCase {g : Grouping} {switch : OpenSwitch} {pattern : Option String} {first : Nat}
      {outer : List Stmt} {frames : List (Frame × List Stmt)}
      (directive : e.directive = some (.marker .endCase))
      (stack : g.frames = (.case switch pattern first, outer) :: frames) :
      Placed e g (endCase g switch pattern first e.line.number outer frames).2
  /-- A case without an end ends before the marker that comes next. -/
  | nextCase {g g' : Grouping} {switch : OpenSwitch} {pattern : Option String} {first : Nat}
      {outer : List Stmt} {frames : List (Frame × List Stmt)}
      (stack : g.frames = (.case switch pattern first, outer) :: frames)
      (marker : e.directive.any endsCase = true)
      (next : Placed e (endCase g switch pattern first (e.line.number - 1) outer frames).2 g') :
      Placed e g g'

theorem item_placed {g g' : Grouping} {e : Entry} (takes : g.TakesItems)
    (h : g.item e = .ok g') : Placed e g g' := by
  simp only [item] at h
  split at h
  case h_1 hd =>
    split at h
    case isTrue hs =>
      cases h
      simp only [Bool.and_eq_true, Bool.not_eq_true', List.isEmpty_eq_false_iff] at hs
      exact .skipped hd hs.1 hs.2
    case isFalse hs =>
      cases h
      refine .plain hd (fun hk => ?_) takes
      simpa [hk] using hs
  case h_2 hd => cases h; exact .action hd takes
  case h_3 hd => cases h; exact .loop hd takes
  case h_4 hd => cases h; exact .condition hd takes
  case h_5 hd => cases h; exact .switch hd takes
  case h_6 name hd =>
    split at h
    case isTrue hf =>
      split at h
      · cases h
      case h_2 hfind => cases h; exact .function hd (List.isEmpty_iff.mp hf) hfind
    case isFalse => cases h
  case h_7 => cases h

theorem betweenCases_placed {g g' : Grouping} {switch : OpenSwitch} {outer : List Stmt}
    {frames : List (Frame × List Stmt)} {e : Entry}
    (stack : g.frames = (.switch switch, outer) :: frames)
    (h : g.betweenCases switch outer frames e = .ok g') : Placed e g g' := by
  simp only [betweenCases] at h
  split at h
  case h_1 hd =>
    split at h
    case isTrue hs => cases h; exact .skipped hd hs (by simp [stack])
    case isFalse => cases h
  case h_2 hd => cases h; exact .endSwitch hd stack
  case h_3 hd => cases h; exact .case hd stack
  case h_4 hd =>
    split at h
    case isTrue => cases h
    case isFalse hs => cases h; exact .default hd stack (by simpa using hs)
  case h_5 => cases h

/-- Placing a line does one of these things, or fails. -/
theorem place_placed {g g' : Grouping} {e : Entry} (h : g.place e = .ok g') : Placed e g g' := by
  unfold place at h
  split at h
  case h_1 hf => exact item_placed (by simp [TakesItems, hf]) h
  case h_2 name first outer frames hf =>
    unfold inFunction at h
    split at h
    case h_1 hd => cases h; exact .endFunction hd hf
    case h_2 => exact item_placed (by simp [TakesItems, hf]) h
  case h_3 switch outer frames hf => exact betweenCases_placed hf h
  case h_4 switch pattern first outer frames hf =>
    unfold inCase at h
    split at h
    case h_1 hd => cases h; exact .endCase hd hf
    case h_2 d _ hd =>
      split at h
      case isTrue hends =>
        exact .nextCase hf (by simp [hd, hends]) (betweenCases_placed rfl h)
      case isFalse => exact item_placed (by simp [TakesItems, hf]) h
    case h_3 => exact item_placed (by simp [TakesItems, hf]) h

/-! ## What a step can do -/

/-- Whether the lines of a condition are open, which `<end-if>` would close. -/
def inCondition (g : Grouping) : Bool :=
  match g.block with
  | some (.inThen ..) | some (.inElse ..) => true
  | _ => false

/-- What a line does to a grouping. -/
inductive Stepped (e : Entry) : Grouping → Grouping → Prop where
  /-- A text or an assignment belongs to the implicit body that is open. -/
  | added {g : Grouping} {b : OpenBlock} (directive : e.directive = none)
      (kept : e.line.kind.isSkipped = false) (block : g.block = some b) :
      Stepped e g { g with block := some (b.add (.plain e.line)) }
  | otherwise {g : Grouping} {line : Line} {c : Condition} {yes : List Stmt}
      (directive : e.directive = some (.marker .otherwise))
      (block : g.block = some (.inThen line c yes)) :
      Stepped e g { g with block := some (.inElse line c yes []) }
  | endIf {g : Grouping} (directive : e.directive = some (.action .endIf))
      (block : g.inCondition = true) : Stepped e g g.closeBlock
  /-- Every other line is placed after the implicit body, which has ended. -/
  | placed {g g' : Grouping}
      (plain : e.directive = none → e.line.kind.isSkipped = false → g.block = none)
      (endIf : e.directive = some (.action .endIf) → g.inCondition = false)
      (placed : Placed e g.closeBlock g') : Stepped e g g'

theorem inCondition_of_block {g : Grouping} {b : OpenBlock} (h : g.block = some b) :
    g.inCondition = b.owner.acceptsElse := by
  rw [inCondition, h]
  cases b <;> rfl

theorem closeBlock_of_none {g : Grouping} (h : g.block = none) : g.closeBlock = g := by
  simp [closeBlock, h]

@[simp] theorem closeBlock_block (g : Grouping) : g.closeBlock.block = none := by
  unfold closeBlock
  split
  · assumption
  · rfl

@[simp] theorem closeBlock_frames (g : Grouping) : g.closeBlock.frames = g.frames := by
  unfold closeBlock
  split
  · rfl
  · rfl

/-- A line that an implicit body leaves is taken as if the body had ended before. -/
theorem step_of_after {g : Grouping} {b : OpenBlock} {e : Entry} (hblock : g.block = some b)
    (h : b.absorb e = .after) : g.step e = g.closeBlock.step e := by
  have hclosed : g.closeBlock.step e = g.closeBlock.place e := by
    rw [step, closeBlock_block]
  rw [hclosed, step, hblock]
  simp only [h]

/-- A line is taken in one of these ways, or refused. -/
theorem step_stepped {g g' : Grouping} {e : Entry} (h : g.step e = .ok g') : Stepped e g g' := by
  unfold step at h
  split at h
  case h_1 hb =>
    refine .placed (fun _ _ => hb) (fun _ => by simp [inCondition, hb]) ?_
    rw [closeBlock_of_none hb]
    exact place_placed h
  case h_2 b hb =>
    unfold OpenBlock.absorb at h
    split at h
    case h_1 b' ha =>
      cases h
      split at ha
      case h_1 hd =>
        split at ha
        · cases ha
        case isFalse hk => cases ha; exact .added hd (by simpa using hk) hb
      case h_2 hd =>
        split at ha
        · cases ha; exact .otherwise hd hb
        · cases ha
      case h_3 => split at ha <;> cases ha
      case h_4 => cases ha
    case h_2 ha =>
      cases h
      split at ha
      case h_1 => split at ha <;> cases ha
      case h_2 => split at ha <;> cases ha
      case h_3 hd =>
        split at ha
        case isTrue haccepts => exact .endIf hd ((inCondition_of_block hb).trans haccepts)
        case isFalse => cases ha
      case h_4 => cases ha
    case h_3 ha =>
      refine .placed (fun hd hk => ?_) (fun hd => ?_) (place_placed h)
      · simp [hd, hk] at ha
      · rw [inCondition_of_block hb]
        simpa [hd] using ha

end Grouping

end ConsoleScript
