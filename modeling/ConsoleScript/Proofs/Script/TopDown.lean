-- SUMMARY: Parsing by recursive descent comes to what grouping line by line comes to.
import ConsoleScript.Proofs.Script.Descent

/-!
# Top-down and line by line

The parse by recursive descent and the one that groups line by line read the same lines
in the same scopes, and come to the same script or the same error: `parseLines_eq`.

What a parse comes to can be told from any point of it: the index of the next line, the
grouping and the state (`groupedFrom`). A call of the descent stands for what is open in
the grouping. It fails as the parse does from the point where it is made, or moves that
point to where it resumes, with what it has collected put in its place. `block_follows`,
`switch_follows` and `region_follows` say so for each loop of the descent.
-/

namespace ConsoleScript

theorem OpenBlock.absorb_plain {b : OpenBlock} {e : Entry} (hd : e.directive = none) :
    b.absorb e = if e.line.kind.isSkipped then .after else .taken (b.add (.plain e.line)) := by
  simp only [absorb, hd]

theorem Grouping.finish_closeBlock (g : Grouping) : g.closeBlock.finish = g.finish := by
  rw [finish, finish, closeBlock_of_none (closeBlock_block g)]

namespace Descent

variable {src : Source} {g g' : Grouping} {s s' : State} {i : Nat}

/-! ## Points of a parse -/

/-- What a parse comes to that has the lines from index `i` on before it. -/
def groupedFrom (src : Source) (i : Nat) (g : Grouping) (s : State) :
    Except ParseError Script × Scope :=
  match Script.parseFrom src.now s.scope (i + 1) g s.entries (src.lines.drop i) with
  | (.error e, scope) => (.error e, scope)
  | (.ok (g, entries), scope) => (Script.ofGrouping g entries, scope)

theorem groupedFrom_start (src : Source) (scope : Scope) :
    groupedFrom src 0 .start ⟨scope, [], []⟩ = Script.parseLines src.now scope src.lines := rfl

theorem groupedFrom_end (h : src.lines.length ≤ i) :
    groupedFrom src i g s = (Script.ofGrouping g s.entries, s.scope) := by
  rw [groupedFrom, List.drop_eq_nil_of_le h]
  rfl

theorem groupedFrom_unread (h : i < src.lines.length) {e : DirectiveError} {scope : Scope}
    (hread : Line.read src.now s.scope (i + 1) src.lines[i] = (.error e, scope)) :
    groupedFrom src i g s =
      (.error (.ofDirective (i + 1) (Line.content (Text.trim src.lines[i])) e), scope) := by
  rw [groupedFrom, List.drop_eq_getElem_cons h, Script.parseFrom, hread]

theorem groupedFrom_step (h : i < src.lines.length) {e : Entry} {scope : Scope}
    (hread : Line.read src.now s.scope (i + 1) src.lines[i] = (.ok e, scope))
    (hstep : g.step e = .ok g') :
    groupedFrom src i g s = groupedFrom src (i + 1) g' (s.after e scope) := by
  rw [groupedFrom, List.drop_eq_getElem_cons h, Script.parseFrom, hread]
  simp only [hstep]
  rfl

theorem groupedFrom_refused (h : i < src.lines.length) {e : Entry} {scope : Scope}
    {err : ParseError}
    (hread : Line.read src.now s.scope (i + 1) src.lines[i] = (.ok e, scope))
    (hstep : g.step e = .error err) :
    groupedFrom src i g s = (.error err, scope) := by
  rw [groupedFrom, List.drop_eq_getElem_cons h, Script.parseFrom, hread]
  simp only [hstep]

/-- Groupings that do the same with the next line, and at the end of the text, come to the
    same. -/
theorem groupedFrom_congr
    (hstep : ∀ h : i < src.lines.length, ∀ e scope,
      Line.read src.now s.scope (i + 1) src.lines[i] = (.ok e, scope) → g.step e = g'.step e)
    (hfinish : g.finish = g'.finish) :
    groupedFrom src i g s = groupedFrom src i g' s := by
  by_cases h : i < src.lines.length
  · rcases hread : Line.read src.now s.scope (i + 1) src.lines[i] with ⟨err | e, scope⟩
    · rw [groupedFrom_unread h hread, groupedFrom_unread h hread]
    · have hsame := hstep h e scope hread
      cases hnext : g'.step e with
      | error err =>
        rw [groupedFrom_refused h hread hnext, groupedFrom_refused h hread (hsame.trans hnext)]
      | ok g₁ => rw [groupedFrom_step h hread hnext, groupedFrom_step h hread (hsame.trans hnext)]
  · have hend := Nat.le_of_not_lt h
    rw [groupedFrom_end hend, groupedFrom_end hend, Script.ofGrouping, hfinish, Script.ofGrouping]

/-! ## Calls that follow a parse -/

/-- In a parse that comes to `R` the computation ends with the error of the parse, or with an
    answer of which `P` is true. -/
def Follows {α : Type} (R : Except ParseError Script × Scope) (x : Descent α) (s : State)
    (P : α → State → Prop) : Prop :=
  Ends x s P fun e s' => R = (.error e, s'.scope)

variable {R : Except ParseError Script × Scope}

/-- What is known of an answer together with where it resumes. -/
theorem Follows.resumes {α : Type} {x : Descent α} {P : α → State → Prop} {next : α → Nat}
    {first last : Nat} (h : Follows R x s P) (hx : Resumes x next first last) :
    Follows R x s fun a s' => P a s' ∧ first ≤ next a ∧ next a ≤ last :=
  (h.and (hx s)).mono (fun _ _ ha => ha) fun _ _ he => he.1

/-- What is known of the line at index `i` when it was read and counted. -/
structure Taken (src : Source) (R : Except ParseError Script × Scope) {i : Nat}
    (h : i < src.lines.length) (g : Grouping) (s : State) (e : Entry) (s' : State) : Prop where
  number : e.line.number = i + 1
  functions : s'.functions = s.functions
  skipped : e.line.kind.isSkipped = Line.looksBlank (Text.trim src.lines[i])
  directive : e.directive.isSome = Line.looksDirective (Text.trim src.lines[i])
  kind : e.directive.map Directive.kind = Line.peekKind? src.lines[i]
  step : ∀ {g'}, g.step e = .ok g' → R = groupedFrom src (i + 1) g' s'
  refused : ∀ {err}, g.step e = .error err → R = (.error err, s'.scope)

theorem taken_of_read {h : i < src.lines.length} (hR : R = groupedFrom src i g s) {e : Entry}
    {scope : Scope} (hread : Line.read src.now s.scope (i + 1) src.lines[i] = (.ok e, scope)) :
    Taken src R h g s e (s.after e scope) where
  number := (Line.read_ok hread).1
  functions := rfl
  skipped := Line.isSkipped_of_read hread
  directive := Line.isSome_directive_of_read hread
  kind := Line.kind_directive_of_read hread
  step hstep := hR.trans (groupedFrom_step h hread hstep)
  refused hstep := hR.trans (groupedFrom_refused h hread hstep)

theorem takeLine_follows (h : i < src.lines.length) (hR : R = groupedFrom src i g s) :
    Follows R (src.takeLine ⟨i, h⟩) s (Taken src R h g s) := by
  refine (Ends.takeLine fun e scope hread => ?_).mono ?_ fun _ _ he => he
  · exact hR.trans (groupedFrom_unread h hread)
  · rintro e _ ⟨scope, hread, rfl⟩
    exact taken_of_read hR hread

namespace Taken

variable {h : i < src.lines.length} {e : Entry}

theorem directive_eq_none_iff (ht : Taken src R h g s e s') :
    e.directive = none ↔ Line.looksDirective (Text.trim src.lines[i]) = false := by
  rw [← ht.directive, Option.isSome_eq_false_iff, Option.isNone_iff_eq_none]

/-- A line that is skipped holds no directive. -/
theorem plain (ht : Taken src R h g s e s') (hskipped : e.line.kind.isSkipped = true) :
    e.directive = none :=
  ht.directive_eq_none_iff.mpr (Line.looksDirective_of_looksBlank (ht.skipped.symm.trans hskipped))

/-- A directive without arguments is known from its kind. -/
theorem bare (ht : Taken src R h g s e s') {d : Directive} (hbare : d ∈ Directive.bare)
    (hkind : Line.peekKind? src.lines[i] = some d.kind) : e.directive = some d := by
  obtain ⟨d', hd, hkind⟩ := Option.map_eq_some_iff.mp (ht.kind.trans hkind)
  rw [hd, Directive.eq_of_kind_eq hbare hkind]

/-- Where the kind that was seen ends a region, the line holds a directive that does. -/
theorem ends (ht : Taken src R h g s e s') {r : Region}
    (hends : (Line.peekKind? src.lines[i]).any r.endsAt = true) :
    ∃ d, e.directive = some d ∧ r.endsAt d.kind = true := by
  rw [← ht.kind, Option.any_map] at hends
  exact (Option.any_eq_true _ _).mp hends

end Taken

/-! ## Implicit bodies -/

/-- The implicit body that is open while the bodies of a construct are collected. -/
inductive Collects : OpenBlock → (acceptsElse inElse : Bool) → (yes no : List Stmt) → Prop where
  | loop (line : Line) (l : Loop) (body : List Stmt) :
      Collects (.loop line l body) false false body []
  | inThen (line : Line) (c : Condition) (yes : List Stmt) :
      Collects (.inThen line c yes) true false yes []
  | inElse (line : Line) (c : Condition) (yes no : List Stmt) :
      Collects (.inElse line c yes no) true true yes no

/-- The statement of an implicit body that has the given bodies in the end. -/
def sealed (bodies : List Stmt × List Stmt) : OpenBlock → Stmt
  | .loop line l _ => .loop line l bodies.1
  | .inThen line c _ | .inElse line c _ _ => .branch line c bodies.1 bodies.2

theorem sealed_add (bodies : List Stmt × List Stmt) (b : OpenBlock) (t : Stmt) :
    sealed bodies (b.add t) = sealed bodies b := by
  cases b <;> rfl

namespace Collects

variable {b : OpenBlock} {acceptsElse inElse : Bool} {yes no items : List Stmt} {e : Entry}
  {frames : List (Frame × List Stmt)}

theorem close_eq (h : Collects b acceptsElse inElse yes no) :
    b.close = sealed (yes.reverse, no.reverse) b := by
  cases h <;> rfl

theorem owner_acceptsElse (h : Collects b acceptsElse inElse yes no) :
    b.owner.acceptsElse = acceptsElse := by
  cases h <;> rfl

theorem add (h : Collects b acceptsElse inElse yes no) (t : Stmt) :
    Collects (b.add t) acceptsElse inElse (if inElse then yes else t :: yes)
      (if inElse then t :: no else no) := by
  cases h <;> constructor

theorem absorb_otherwise (h : Collects b true false yes no)
    (hd : e.directive = some (.marker .otherwise)) :
    ∃ b', b.absorb e = .taken b' ∧ Collects b' true true yes no ∧
      ∀ bodies, sealed bodies b' = sealed bodies b := by
  cases h with
  | inThen line c yes =>
    exact ⟨.inElse line c yes [], by rw [OpenBlock.absorb, hd], .inElse .., fun _ => rfl⟩

theorem absorb_endIf (h : Collects b true inElse yes no)
    (hd : e.directive = some (.action .endIf)) : b.absorb e = .closing := by
  simp only [OpenBlock.absorb, hd, h.owner_acceptsElse, ↓reduceIte]

/-- Every other directive comes after the construct. -/
theorem absorb_after (h : Collects b acceptsElse inElse yes no) {d : Directive}
    (hd : e.directive = some d)
    (helse : (acceptsElse && d.kind = .otherwise && !inElse) = false)
    (hend : (acceptsElse && d.kind = .endIf) = false) : b.absorb e = .after := by
  unfold OpenBlock.absorb
  rw [hd]
  split
  case h_1 hnone => cases hnone
  case h_2 heq =>
    obtain rfl := Option.some.inj heq
    cases h with
    | loop | inElse => rfl
    | inThen => simp [Directive.kind] at helse
  case h_3 heq =>
    obtain rfl := Option.some.inj heq
    simp only [Directive.kind, decide_true, Bool.and_true] at hend
    rw [h.owner_acceptsElse, hend, if_neg Bool.false_ne_true]
  case h_4 => rfl

/-- Where the next line does not belong to the construct, its bodies have ended. -/
theorem ends (h : Collects b acceptsElse inElse yes no)
    (hR : R = groupedFrom src i ⟨items, some b, frames, s.functions⟩ s)
    (hafter : ∀ hi : i < src.lines.length, ∀ e s',
      Taken src R hi ⟨items, some b, frames, s.functions⟩ s e s' → b.absorb e = .after) :
    R = groupedFrom src i
      ⟨sealed (yes.reverse, no.reverse) b :: items, none, frames, s.functions⟩ s := by
  rw [hR, ← h.close_eq]
  refine groupedFrom_congr (fun hi e scope hread => ?_) (Grouping.finish_closeBlock _).symm
  exact Grouping.step_of_after rfl (hafter hi e _ (taken_of_read hR hread))

end Collects

/-- The bodies of a construct are those that its implicit body has where it is closed. -/
theorem block_follows {i : Nat} {s : State} {b : OpenBlock} {acceptsElse inElse : Bool}
    {yes no items : List Stmt} {frames : List (Frame × List Stmt)}
    (hb : Collects b acceptsElse inElse yes no)
    (hR : R = groupedFrom src i ⟨items, some b, frames, s.functions⟩ s) :
    Follows R (src.block acceptsElse inElse yes no i) s fun a s' =>
      R = groupedFrom src a.2 ⟨sealed a.1 b :: items, none, frames, s'.functions⟩ s' := by
  rw [Source.block]
  split
  case isFalse h => exact .pure (hb.ends hR fun h' => absurd h' h)
  case isTrue h =>
    simp only [Line.peekKind?_trim]
    split
    case isTrue hblank =>
      refine .pure (hb.ends hR fun _ e s' ht => ?_)
      have hskipped := ht.skipped.trans hblank
      rw [OpenBlock.absorb_plain (ht.plain hskipped), hskipped, if_pos rfl]
    case isFalse hblank =>
      split
      case isFalse hlooks =>
        refine (takeLine_follows h hR).bind fun e s' ht => ?_
        have hd := ht.directive_eq_none_iff.mpr (Bool.not_eq_true _ ▸ hlooks)
        have hnext : R = groupedFrom src (i + 1)
            ⟨items, some (b.add (.plain e.line)), frames, s'.functions⟩ s' := by
          apply ht.step
          rw [Grouping.step, ht.functions]
          simp only [OpenBlock.absorb_plain hd, ht.skipped, hblank, Bool.false_eq_true, ↓reduceIte]
        simp only [← sealed_add _ b (.plain e.line)]
        cases inElse with
        | true => exact block_follows (hb.add (.plain e.line)) hnext
        | false => exact block_follows (hb.add (.plain e.line)) hnext
      case isTrue hlooks =>
        split
        case isTrue helse =>
          simp only [Bool.and_eq_true, Bool.not_eq_true', decide_eq_true_eq] at helse
          obtain ⟨⟨rfl, hkind⟩, rfl⟩ := helse
          refine (takeLine_follows h hR).bind fun e s' ht => ?_
          obtain ⟨b', habsorb, hb', hsealed⟩ := hb.absorb_otherwise (ht.bare (by decide) hkind)
          simp only [← hsealed]
          refine block_follows hb' (ht.step ?_)
          simp only [Grouping.step, habsorb, ht.functions]
        case isFalse helse =>
          split
          case isTrue hend =>
            simp only [Bool.and_eq_true, decide_eq_true_eq] at hend
            obtain ⟨rfl, hkind⟩ := hend
            refine (takeLine_follows h hR).bind fun e s' ht => .pure ?_
            have hclosing := hb.absorb_endIf (ht.bare (by decide) hkind)
            rw [← hb.close_eq, ht.functions]
            apply ht.step
            simp only [Grouping.step, hclosing]
            rfl
          case isFalse hend =>
            refine .pure (hb.ends hR fun _ e s' ht => ?_)
            obtain ⟨d, hd⟩ := Option.isSome_iff_exists.mp (ht.directive.trans hlooks)
            have hkind := ht.kind
            rw [hd] at hkind
            simp only [← hkind, Option.map_some, Option.some.injEq, Bool.not_eq_true] at helse hend
            exact hb.absorb_after hd helse hend
termination_by src.lines.length - i

/-! ## Explicit bodies -/

/-- The bodies that are open while a region is collected. -/
inductive Fits : Region → List (Frame × List Stmt) → Prop where
  | top : Fits .top []
  | function {name : String} {first : Nat} {outer : List Stmt} {frames : List (Frame × List Stmt)} :
      Fits .function ((.function name first, outer) :: frames)
  | case {switch : OpenSwitch} {pattern : Option String} {first : Nat} {outer : List Stmt}
      {frames : List (Frame × List Stmt)} :
      Fits .case ((.case switch pattern first, outer) :: frames)

theorem Fits.eq_top_iff {r : Region} {frames : List (Frame × List Stmt)} (h : Fits r frames) :
    r = .top ↔ frames = [] := by
  cases h <;> simp

theorem endsAt_case_kind (d : Directive) : Region.case.endsAt d.kind = Grouping.endsCase d := by
  unfold Directive.kind
  split <;> rfl

/-- A line that does not end the region is one where any statement may stand. -/
theorem Fits.step_eq {r : Region} {e : Entry} (h : Fits r g.frames) (hblock : g.block = none)
    (hopen : (e.directive.map Directive.kind).any r.endsAt = false) : g.step e = g.item e := by
  obtain ⟨items, block, frames, functions⟩ := g
  obtain rfl : block = none := hblock
  cases h with
  | top => rfl
  | function =>
    simp only [Grouping.step, Grouping.place, Grouping.inFunction]
    split
    case h_1 hd => simp [hd, Directive.kind, Region.endsAt] at hopen
    case h_2 => rfl
  | case =>
    simp only [Grouping.step, Grouping.place, Grouping.inCase]
    split
    case h_1 hd => simp [hd, Directive.kind, Region.endsAt] at hopen
    case h_2 d _ hd =>
      simp only [hd, Option.map_some, Option.any_some, endsAt_case_kind] at hopen
      simp only [hopen, Bool.false_eq_true, ↓reduceIte]
    case h_3 => rfl

/-- A region stops at the end of the text or before a marker that ends it. -/
def Stops (src : Source) (r : Region) (i : Nat) : Prop :=
  ∀ h : i < src.lines.length, (Line.peekKind? src.lines[i]).any r.endsAt = true

theorem not_stops_top (h : i < src.lines.length) : ¬Stops src .top i := by
  intro hstops
  obtain ⟨kind, -, hends⟩ := (Option.any_eq_true _ _).mp (hstops h)
  cases hends

/-- In every parse the calls of a region at the line at index `i` follow it. -/
def RegionFollows (src : Source) (i : Nat) : Prop :=
  ∀ {R : Except ParseError Script × Scope} {r : Region} {items : List Stmt}
    {frames : List (Frame × List Stmt)} {s : State}, Fits r frames →
    R = groupedFrom src i ⟨items, none, frames, s.functions⟩ s →
    Follows R (src.region r items i) s fun a s' =>
      Stops src r a.2 ∧ R = groupedFrom src a.2 ⟨a.1.reverse, none, frames, s'.functions⟩ s'

/-- A function whose name is new is closed by the marker at which its region stops. -/
theorem function_follows {owner : Fin src.lines.length} {name : String} {items : List Stmt}
    (hbody : RegionFollows src (owner + 1))
    (hknown : ∀ f, s.functions.find? (·.name == name) = some f →
      R = (.error (.duplicateFunction (owner + 1) name f.first), s.scope))
    (hnew : s.functions.find? (·.name == name) = none →
      R = groupedFrom src (owner + 1)
        ⟨[], none, [(.function name (owner + 1), items)], s.functions⟩ s) :
    Follows R (src.function owner name) s fun next s' =>
      R = groupedFrom src next ⟨items, none, [], s'.functions⟩ s' := by
  rw [Source.function]
  refine .get_bind ?_
  split
  case h_1 f hfind => exact .throw (hknown f hfind)
  case h_2 hfind =>
    refine (hbody .function (hnew hfind)).bind ?_
    rintro ⟨body, last⟩ s₁ ⟨hstops, hR⟩
    simp only
    split
    case isFalse h =>
      refine .throw (hR.trans ?_)
      rw [groupedFrom_end (Nat.le_of_not_lt h)]
      rfl
    case isTrue h =>
      refine (takeLine_follows h hR).bind fun e s₂ ht => .modify_bind (.pure ?_)
      obtain ⟨d, hd, hends⟩ := ht.ends (hstops h)
      obtain rfl : d = .marker .endFunction :=
        Directive.eq_of_kind_eq (by decide) (of_decide_eq_true hends)
      -- The point of a parse does not depend on the functions of the state.
      change R = groupedFrom src (last + 1) _ s₂
      apply ht.step
      simp only [Grouping.step, Grouping.place, Grouping.inFunction, hd, ht.number, ht.functions,
        List.reverse_reverse]

/-- A switch with one more part, of the lines from `first` to `last`. -/
def ended (switch : OpenSwitch) (pattern : Option String) (first last : Nat) (body : List Stmt) :
    OpenSwitch :=
  match pattern with
  | some pattern => { switch with cases := ⟨pattern, first, last, body⟩ :: switch.cases }
  | none => { switch with otherwise := some body }

theorem endCase_eq {switch : OpenSwitch} {pattern : Option String} {first last : Nat}
    {body outer : List Stmt} {frames rest : List (Frame × List Stmt)} {functions : List Function} :
    Grouping.endCase ⟨body.reverse, none, frames, functions⟩ switch pattern first last outer rest =
      (ended switch pattern first last body,
        ⟨[], none, (.switch (ended switch pattern first last body), outer) :: rest,
          functions⟩) := by
  cases pattern <;> simp [Grouping.endCase, ended]

/-- A case that has no end of its own ends where its region stops. -/
theorem case_ends {sw : OpenSwitch} {pattern : Option String} {first : Nat}
    {body outer : List Stmt} {frames : List (Frame × List Stmt)} {functions : List Function}
    (hstops : Stops src .case i)
    (hother : ∀ h : i < src.lines.length, Line.peekKind? src.lines[i] ≠ some .endCase)
    (hR : R = groupedFrom src i
      ⟨body.reverse, none, (.case sw pattern first, outer) :: frames, functions⟩ s) :
    R = groupedFrom src i
      ⟨[], none, (.switch (ended sw pattern first i body), outer) :: frames, functions⟩ s := by
  refine hR.trans (groupedFrom_congr (fun h e scope hread => ?_) ?_)
  · have ht : Taken src R h _ s e _ := taken_of_read hR hread
    obtain ⟨d, hd, hends⟩ := ht.ends (hstops h)
    have hne : d ≠ .marker .endCase := by
      rintro rfl
      have hkind := ht.kind
      rw [hd] at hkind
      exact hother h hkind.symm
    rw [endsAt_case_kind] at hends
    simp only [Grouping.step, Grouping.place, Grouping.inCase, hd, ht.number, hends, endCase_eq,
      Nat.add_sub_cancel, if_true]
  · cases pattern <;> rfl

theorem caseBody_follows {owner : Fin src.lines.length} {sw : OpenSwitch} {pattern : Option String}
    {outer : List Stmt} {frames : List (Frame × List Stmt)}
    (hbody : RegionFollows src (owner + 1))
    (hR : R = groupedFrom src (owner + 1)
      ⟨[], none, (.case sw pattern (owner + 1), outer) :: frames, s.functions⟩ s) :
    Follows R (src.caseBody owner) s fun a s' =>
      R = groupedFrom src a.2
        ⟨[], none, (.switch (ended sw pattern (owner + 1) a.2 a.1), outer) :: frames,
          s'.functions⟩ s' := by
  rw [Source.caseBody]
  refine (hbody .case hR).bind ?_
  rintro ⟨body, last⟩ s₁ ⟨hstops, hR⟩
  simp only
  split
  case isFalse h => exact .pure (case_ends hstops (fun h' => absurd h' h) hR)
  case isTrue h =>
    split
    case isFalse hother => exact .pure (case_ends hstops (fun _ => hother) hR)
    case isTrue hkind =>
      refine (takeLine_follows h hR).bind fun e s₂ ht => .pure (ht.step ?_)
      have hd : e.directive = some (.marker .endCase) := ht.bare (by decide) hkind
      simp only [Grouping.step, Grouping.place, Grouping.inCase, hd, ht.number, ht.functions,
        endCase_eq]

/-- The cases of a switch are those that its frame has where it is closed. -/
theorem switch_follows {i : Nat} {s : State} (owner : Fin src.lines.length) (sw : OpenSwitch)
    (items : List Stmt) {outer : List Stmt} {frames : List (Frame × List Stmt)}
    (hline : sw.line.number = owner + 1) (hbody : ∀ j, i < j → RegionFollows src j)
    (hR : R = groupedFrom src i ⟨items, none, (.switch sw, outer) :: frames, s.functions⟩ s) :
    Follows R (src.switch owner sw.cases sw.otherwise i) s fun a s' =>
      R = groupedFrom src a.2
        ⟨.switch sw.line sw.options a.1.1 a.1.2 :: outer, none, frames, s'.functions⟩ s' := by
  rw [Source.switch]
  split
  case isFalse h =>
    refine .throw (hR.trans ?_)
    rw [groupedFrom_end (Nat.le_of_not_lt h), ← hline]
    rfl
  case isTrue h =>
    refine (Ends.readLine fun e scope hread => ?_).bind ?_
    · exact hR.trans (groupedFrom_unread h hread)
    rintro e _ ⟨scope, hread, rfl⟩
    have ht : Taken src R h _ s e _ := taken_of_read hR hread
    -- The line stands between the cases. What it does there decides the point behind it.
    let g : Grouping := ⟨items, none, (.switch sw, outer) :: frames, s.functions⟩
    have step {g'} (hstep : g.betweenCases sw outer frames e = .ok g') :
        R = groupedFrom src (i + 1) g' (s.after e scope) := ht.step hstep
    have refused {err} (hstep : g.betweenCases sw outer frames e = .error err) :
        R = (.error err, scope) := ht.refused hstep
    have onward (sw : OpenSwitch) (items : List Stmt) {j : Nat} {s : State}
        (hline : sw.line.number = owner + 1) (hj : i < j)
        (hR : R = groupedFrom src j
          ⟨items, none, (.switch sw, outer) :: frames, s.functions⟩ s) :=
      switch_follows owner sw items hline (fun k hk => hbody k (Nat.lt_trans hj hk)) hR
    have part (pattern : Option String) (hopens : g.betweenCases sw outer frames e =
          .ok ⟨[], none, (.case sw pattern e.line.number, outer) :: frames, s.functions⟩) :
        Follows R (src.caseBody ⟨i, h⟩) (s.after e scope) fun a s' =>
          R = groupedFrom src a.2
            ⟨[], none, (.switch (ended sw pattern (i + 1) a.2 a.1), outer) :: frames,
              s'.functions⟩ s' ∧ i + 1 ≤ a.2 ∧ a.2 ≤ src.lines.length := by
      have hmarker := step hopens
      rw [ht.number] at hmarker
      exact (caseBody_follows (hbody (i + 1) (Nat.lt_succ_self i)) hmarker).resumes
        (caseBody_resumes ⟨i, h⟩ (region_resumes h))
    split
    case isTrue hskipped =>
      refine .modify_bind (onward sw items hline (Nat.lt_succ_self i) (step ?_))
      rw [Grouping.betweenCases, ht.plain hskipped]
      simp only [hskipped, if_true]
      rfl
    case isFalse hkept =>
      split
      case h_1 hd =>
        refine .modify_bind (.pure (step ?_))
        rw [Grouping.betweenCases, hd]
      case h_2 pattern hd =>
        refine .modify_bind ((part (some pattern) ?_).bind ?_)
        · rw [Grouping.betweenCases, hd]
        · rintro ⟨body, last⟩ s₂ ⟨hR, hfirst, hlast⟩
          exact onward (ended sw (some pattern) (i + 1) last body) [] hline hfirst hR
      case h_3 hd =>
        split
        case isTrue hsecond =>
          refine .throw (refused ?_)
          simp only [Grouping.betweenCases, hd, hsecond, if_true, ht.number, hline]
        case isFalse hnew =>
          refine .modify_bind ((part none ?_).bind ?_)
          · simp only [Grouping.betweenCases, hd, hnew, Bool.false_eq_true, ↓reduceIte, g]
          · rintro ⟨body, last⟩ s₂ ⟨hR, hfirst, hlast⟩
            exact onward (ended sw none (i + 1) last body) [] hline hfirst hR
      case h_4 hend hcase hdefault =>
        refine .throw (refused ?_)
        unfold Grouping.betweenCases
        split
        case h_1 => simp only [hkept, Bool.false_eq_true, ↓reduceIte, ht.number]
        case h_2 hd => exact absurd hd hend
        case h_3 pattern hd => exact absurd hd (hcase pattern)
        case h_4 hd => exact absurd hd hdefault
        case h_5 => simp only [ht.number]
termination_by src.lines.length - i

/-- What a region collects is what the grouping has at its innermost body where it stops. -/
theorem region_follows (i : Nat) : RegionFollows src i := by
  -- By induction on the lines that are left: a body starts behind its owner, and where it
  -- resumes, the region goes on.
  intro R r items frames s hfits hR
  have onward {items : List Stmt} {j : Nat} {s : State} (hi : i < src.lines.length) (hj : i < j)
      (hR : R = groupedFrom src j ⟨items, none, frames, s.functions⟩ s) :=
    region_follows j hfits hR
  have stopped (hstops : Stops src r i) : Follows R (pure (items.reverse, i)) s fun a s' =>
      Stops src r a.2 ∧
        R = groupedFrom src a.2 ⟨a.1.reverse, none, frames, s'.functions⟩ s' := by
    refine .pure ⟨hstops, ?_⟩
    rw [List.reverse_reverse]
    exact hR
  rw [Source.region]
  split
  case isFalse h => exact stopped fun h' => absurd h' h
  case isTrue h =>
    split
    case isTrue hends => exact stopped fun _ => hends
    case isFalse hopen =>
      refine (takeLine_follows h hR).bind fun e s₁ ht => ?_
      -- No marker that ends the region, so the line is placed as a statement of its own.
      have hstep : Grouping.step ⟨items, none, frames, s.functions⟩ e =
          Grouping.item ⟨items, none, frames, s₁.functions⟩ e := by
        rw [ht.functions]
        refine hfits.step_eq rfl ?_
        rw [ht.kind]
        exact Bool.not_eq_true _ ▸ hopen
      split
      case isTrue hskipped =>
        refine onward h (Nat.lt_succ_self i) (ht.step (hstep.trans ?_))
        rw [Grouping.item, ht.plain hskipped]
        cases hfits <;> simp [hskipped, Grouping.push]
      case isFalse hkept =>
        split
        case h_1 hd =>
          refine onward h (Nat.lt_succ_self i) (ht.step (hstep.trans ?_))
          rw [Grouping.item, hd]
          simp [hkept, Grouping.push]
        case h_2 a hd =>
          refine onward h (Nat.lt_succ_self i) (ht.step (hstep.trans ?_))
          rw [Grouping.item, hd]
          rfl
        case h_3 l hd =>
          have hopens := ht.step (hstep.trans (by rw [Grouping.item, hd]))
          refine ((block_follows (.loop e.line l []) hopens).resumes (block_resumes h)).bind ?_
          rintro ⟨⟨body, _⟩, next⟩ s₂ ⟨hR, hfirst, -⟩
          exact onward h hfirst hR
        case h_4 c hd =>
          have hopens := ht.step (hstep.trans (by rw [Grouping.item, hd]))
          refine ((block_follows (.inThen e.line c []) hopens).resumes (block_resumes h)).bind ?_
          rintro ⟨⟨yes, no⟩, next⟩ s₂ ⟨hR, hfirst, -⟩
          exact onward h hfirst hR
        case h_5 options hd =>
          have hopens := ht.step (hstep.trans (by rw [Grouping.item, hd]))
          have hswitch := switch_follows ⟨i, h⟩ ⟨e.line, options, [], none⟩ [] ht.number
            (fun j hj => region_follows j) hopens
          refine (hswitch.resumes (switch_resumes fun j _ hj => region_resumes hj)).bind ?_
          rintro ⟨⟨cases, otherwise⟩, next⟩ s₂ ⟨hR, hfirst, -⟩
          exact onward h hfirst hR
        case h_6 name hd =>
          split
          case isTrue htop =>
            obtain rfl := hfits.eq_top_iff.mp htop
            have hfunction : Follows R (src.function ⟨i, h⟩ name) s₁ fun next s' =>
                R = groupedFrom src next ⟨items, none, [], s'.functions⟩ s' := by
              refine function_follows (region_follows (i + 1)) (fun f hfind => ?_) fun hfind => ?_
              · refine ht.refused (hstep.trans ?_)
                simp [Grouping.item, hd, hfind, ht.number]
              · refine ht.step (hstep.trans ?_)
                simp [Grouping.item, hd, hfind, ht.number]
            refine (hfunction.resumes (function_resumes ⟨i, h⟩ name (region_resumes h))).bind ?_
            rintro next s₂ ⟨hR, hfirst, -⟩
            exact onward h hfirst hR
          case isFalse hinside =>
            have hframes : frames ≠ [] := fun hframes => hinside (hfits.eq_top_iff.mpr hframes)
            refine .throw (ht.refused (hstep.trans ?_))
            simp [Grouping.item, hd, hframes, ht.number]
        case h_7 m hname hd =>
          refine .throw (ht.refused (hstep.trans ?_))
          simp only [Grouping.item, hd, ht.number]
termination_by src.lines.length - i

/-! ## Whole parses -/

theorem script_follows (src : Source) (scope : Scope) :
    Follows (Script.parseLines src.now scope src.lines) src.script ⟨scope, [], []⟩ fun a s' =>
      Script.parseLines src.now scope src.lines = (.ok a, s'.scope) := by
  rw [Source.script]
  refine (region_follows 0 .top (groupedFrom_start src scope).symm).bind ?_
  rintro ⟨body, last⟩ s' ⟨hstops, hR⟩
  have hend : src.lines.length ≤ last := Nat.le_of_not_lt fun h => not_stops_top h hstops
  refine .get_bind (.pure (hR.trans ?_))
  rw [groupedFrom_end hend]
  simp only [Script.ofGrouping, Grouping.finish, Grouping.closeBlock, List.reverse_reverse]

/-- Parsing by recursive descent always ends, and comes to what grouping line by line comes to. -/
theorem parseLines_eq (src : Source) (scope : Scope) :
    src.parseLines scope = some (Script.parseLines src.now scope src.lines) := by
  rw [Source.parseLines]
  cases script_follows src scope with
  | answer run holds => rw [run, holds]; rfl
  | error run holds => rw [run, holds]; rfl

/-- Looking ahead and reading agree, and every call resumes where it should. The kind seen on
    a raw line is that of the directive which the line is read with, in every scope. The tests
    by which implicit bodies end are those of the line's class. A call for a construct resumes
    behind the line that owns it and not beyond the end of the text, and all calls together
    parse what grouping line by line parses. -/
theorem lookahead_agrees (src : Source) :
    (∀ (scope : Scope) (n : Nat) (raw : String) (kind : Directive.Kind),
      Line.peekKind? raw = some kind ↔
        ∃ e d scope', Line.read src.now scope n raw = (.ok e, scope') ∧ e.directive = some d ∧
          d.kind = kind) ∧
    (∀ trimmed, Line.looksDirective trimmed = true ↔
      Line.classify trimmed = .directive ∨ Line.classify trimmed = .conditional) ∧
    (∀ trimmed, Line.looksBlank trimmed = true ↔
      Line.classify trimmed = .blank ∨ Line.classify trimmed = .comment) ∧
    (∀ r items (start : Fin (src.lines.length + 1)),
      Resumes (src.region r items start) Prod.snd start src.lines.length) ∧
    (∀ acceptsElse (owner : Fin src.lines.length),
      Resumes (src.block acceptsElse false [] [] (owner + 1)) Prod.snd (owner + 1)
        src.lines.length) ∧
    (∀ owner name, Resumes (src.function owner name) id (owner + 1) src.lines.length) ∧
    (∀ owner, Resumes (src.switch owner [] none (owner + 1)) Prod.snd (owner + 1)
      src.lines.length) ∧
    (∀ owner, Resumes (src.caseBody owner) Prod.snd (owner + 1) src.lines.length) ∧
    ∀ scope, src.parseLines scope = some (Script.parseLines src.now scope src.lines) := by
  refine ⟨fun scope n raw kind => Line.peekKind?_eq_some_iff src.now scope n, fun trimmed => ?_,
    fun trimmed => ?_, fun r items start => region_resumes start.is_le r items,
    fun acceptsElse owner => block_resumes owner.isLt, fun owner name => ?_, fun owner => ?_,
    fun owner => ?_, parseLines_eq src⟩
  · rw [Line.looksDirective_eq, LineKind.isDirective_eq_true_iff]
  · rw [Line.looksBlank_eq, LineKind.isSkipped_eq_true_iff]
  · exact function_resumes owner name (region_resumes owner.isLt)
  · exact switch_resumes fun j _ hj => region_resumes hj
  · exact caseBody_resumes owner (region_resumes owner.isLt)

end Descent

end ConsoleScript
