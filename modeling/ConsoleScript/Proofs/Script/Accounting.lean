-- SUMMARY: Which lines of a script become statements, and that grouping loses and repeats none of them.
import ConsoleScript.Proofs.Script.Nodes
import ConsoleScript.Proofs.Script.Placing

/-!
# Accounting for lines

Some lines only shape a script: markers, blanks inside functions and switches,
and the `<else>` and `<end-if>` of a condition. `LeftOut` says which ones, given
the lines before, and without regard to how lines are grouped. Every other line
is the head of exactly one statement: at each point of the grouping, the heads
of all statements that are made or being made are, up to their order, the lines
that are not left out (`Grouping.Accounts`).

Lines before a line are given last one first.
-/

namespace ConsoleScript

/-! ## Lines that are left out -/

namespace Entry

/-- Whether a line opens a function or a switch. -/
def opensRegion (e : Entry) : Bool :=
  match e.directive with
  | some (.switch _) | some (.marker (.function _)) => true
  | _ => false

/-- Whether a line ends a function or a switch. -/
def closesRegion (e : Entry) : Bool :=
  match e.directive with
  | some (.marker .endSwitch) | some (.marker .endFunction) => true
  | _ => false

/-- Whether a line marks a part of a function or a switch. -/
def isRegionMarker (e : Entry) : Bool :=
  match e.directive with
  | some (.marker .otherwise) => false
  | some (.marker _) => true
  | _ => false

/-- Whether a line is `<else>` or `<end-if>`. -/
def isBranchMarker (e : Entry) : Bool :=
  match e.directive with
  | some (.marker .otherwise) | some (.action .endIf) => true
  | _ => false

/-- Whether a line is a condition. -/
def isCondition (e : Entry) : Bool :=
  match e.directive with
  | some (.condition _) => true
  | _ => false

/-- Whether a condition goes on after a line in it. -/
def staysInCondition (e : Entry) : Bool :=
  match e.directive with
  | none => !e.line.kind.isSkipped
  | some (.marker .otherwise) => true
  | _ => false

/-- Whether a line is no statement, given whether it is inside a function or a
    switch, and whether it follows the lines of a condition. -/
def isLeftOut (inside follows : Bool) (e : Entry) : Bool :=
  e.line.kind.isSkipped && inside || e.isRegionMarker || e.isBranchMarker && follows

/-- A line has a directive exactly if its class says so. -/
def WellRead (e : Entry) : Prop := e.directive.isSome = e.line.kind.isDirective

theorem mk_eq {e : Entry} {d : Option Directive} (hd : e.directive = d) :
    (⟨e.line, d⟩ : Entry) = e := by
  rw [← hd]

theorem isLeftOut_of_none {e : Entry} {inside follows : Bool} (hd : e.directive = none) :
    e.isLeftOut inside follows = (e.line.kind.isSkipped && inside) := by
  simp [isLeftOut, isRegionMarker, isBranchMarker, hd]

theorem isLeftOut_of_marker {e : Entry} {inside follows : Bool} {m : Marker}
    (hd : e.directive = some (.marker m)) (hm : m ≠ .otherwise) :
    e.isLeftOut inside follows = true := by
  simp [isLeftOut, isRegionMarker, hd]

theorem WellRead.isLeftOut_of_stmt {e : Entry} {inside follows : Bool} {d : Directive}
    (he : e.WellRead) (hd : e.directive = some d) (hm : ∀ m, d ≠ .marker m)
    (hf : d = .action .endIf → follows = false) : e.isLeftOut inside follows = false := by
  have hk : e.line.kind.isSkipped = false := by
    rw [WellRead, hd] at he
    cases hkind : e.line.kind <;> simp_all [LineKind.isSkipped, LineKind.isDirective]
  have hmarker : e.isRegionMarker = false := by
    cases d <;> simp_all [isRegionMarker]
  have hbranch : (e.isBranchMarker && follows) = false := by
    cases d with
    | action a => cases a <;> simp_all [isBranchMarker]
    | marker m => exact absurd rfl (hm m)
    | _ => simp [isBranchMarker, hd]
  simp [isLeftOut, hk, hmarker, hbranch]

end Entry

/-- Whether a line after these is inside a function or a switch: more of them
    have been opened than ended. -/
def insideRegion (before : List Entry) : Bool :=
  before.countP Entry.closesRegion < before.countP Entry.opensRegion

/-- Whether the lines of a condition reach up to here. -/
def followsCondition : (before : List Entry) → Bool
  | [] => false
  | e :: before => if e.staysInCondition then followsCondition before else e.isCondition

/-- Whether a line is no statement of the script: it is a blank or a comment inside
    a function or a switch, a marker of these, or the `<else>` or `<end-if>` of a
    condition. -/
def leftOut (before : List Entry) (e : Entry) : Bool :=
  e.isLeftOut (insideRegion before) (followsCondition before)

/-- The lines that are statements of the script. -/
def kept : (entries : List Entry) → List Entry
  | [] => []
  | e :: before => if leftOut before e then kept before else e :: kept before

theorem kept_sublist (entries : List Entry) : (kept entries).Sublist entries := by
  induction entries with
  | nil => exact .slnil
  | cons e before ih =>
    rw [kept]
    split
    · exact ih.cons e
    · exact ih.cons_cons e

/-- Whether a line that stands once among others is kept depends on the lines
    before it. -/
theorem mem_kept_iff {after before : List Entry} {e : Entry} (hafter : e ∉ after)
    (hbefore : e ∉ before) : e ∈ kept (after ++ e :: before) ↔ leftOut before e = false := by
  induction after with
  | nil =>
    have hnot : e ∉ kept before := fun h => hbefore ((kept_sublist before).mem h)
    cases hout : leftOut before e <;> simp [kept, hout, hnot]
  | cons f rest ih =>
    have hne : e ≠ f := fun h => hafter (h ▸ List.mem_cons_self)
    have hrest := ih fun h => hafter (List.mem_cons_of_mem f h)
    rw [List.cons_append, kept]
    split
    · exact hrest
    · simp [hne, hrest]

/-! ## The statements of a grouping -/

/-- The statement that an explicit body belongs to, as far as it goes. -/
def Frame.stmts : Frame → List Stmt
  | .function _ _ => []
  | .switch open_ | .case open_ _ _ => [open_.close]

/-- The body may hold statements, and a default is the first of its switch. -/
def Frame.IsBody : Frame → Prop
  | .function _ _ => True
  | .switch _ => False
  | .case open_ pattern _ => pattern = none → open_.otherwise = none

namespace Grouping

/-- The statements that have been made, and those that are being made. -/
def stmts (g : Grouping) : List Stmt :=
  g.items ++ (g.block.map OpenBlock.close).toList ++
    g.frames.flatMap (fun f => f.1.stmts ++ f.2) ++ g.functions.flatMap (·.body)

/-- The heads of all statements at every depth. -/
def heads (g : Grouping) : List Entry := Stmt.headsAll g.stmts

theorem closeBlock_stmts_perm (g : Grouping) : g.closeBlock.stmts.Perm g.stmts := by
  unfold closeBlock
  split
  case h_1 => exact .refl _
  case h_2 b hb =>
    simp only [stmts, push, hb, Option.map_none, Option.toList_none, Option.map_some,
      Option.toList_some, List.append_nil]
    refine List.Perm.append_right _ (List.Perm.append_right _ ?_)
    exact (List.perm_append_singleton _ _).symm

theorem closeBlock_heads_perm (g : Grouping) : g.closeBlock.heads.Perm g.heads :=
  Stmt.headsAll_perm g.closeBlock_stmts_perm

/-- A text that joins an implicit body is one more head. -/
theorem add_heads_perm (b : OpenBlock) (line : Line) :
    ((b.add (.plain line)).close.heads).Perm (⟨line, none⟩ :: b.close.heads) := by
  have hsnoc := List.perm_append_singleton (⟨line, none⟩ : Entry) b.close.heads
  refine .trans (.of_eq ?_) hsnoc
  cases b with
  | loop l c body => simp [OpenBlock.add, OpenBlock.close]
  | inThen l c yes => simp [OpenBlock.add, OpenBlock.close]
  | inElse l c yes no => simp [OpenBlock.add, OpenBlock.close]

/-- The body of a case that has ended belongs to the switch. -/
theorem endCase_heads_perm (g : Grouping) (open_ : OpenSwitch) (pattern : Option String)
    (first last : Nat) (outer : List Stmt) (frames : List (Frame × List Stmt))
    (hdefault : pattern = none → open_.otherwise = none) :
    ((endCase g open_ pattern first last outer frames).1.close.heads).Perm
      (open_.close.heads ++ Stmt.headsAll g.items) := by
  have hitems := Stmt.headsAll_reverse_perm g.items
  cases pattern with
  | none =>
    simp only [endCase, OpenSwitch.close, Stmt.heads_switch, hdefault rfl]
    simpa using List.Perm.append_left _ hitems
  | some pattern =>
    simp only [endCase, OpenSwitch.close, Stmt.heads_switch]
    simp only [List.reverse_cons, List.flatMap_append, List.flatMap_singleton, List.cons_append,
      List.perm_cons, List.append_assoc]
    refine List.Perm.append_left _ ?_
    exact List.perm_append_comm.trans (List.Perm.append_left _ hitems)

/-! ## The stack -/

/-- Statements stand in bodies only: between the cases of a switch, which only
    the innermost frame can be, there are none. -/
def Staged (g : Grouping) : Prop :=
  (∀ f ∈ g.frames, f.1.IsBody) ∨
    ∃ open_ outer frames, g.frames = (.switch open_, outer) :: frames ∧
      g.items = [] ∧ g.block = none ∧ ∀ f ∈ frames, f.1.IsBody

theorem Staged.of_takesItems {g : Grouping} (h : g.Staged) (takes : g.TakesItems) :
    ∀ f ∈ g.frames, f.1.IsBody := by
  rcases h with h | ⟨open_, outer, frames, hf, -⟩
  · exact h
  · exact absurd hf (takes open_ outer frames)

theorem Staged.of_switch {g : Grouping} (h : g.Staged) {open_ : OpenSwitch} {outer : List Stmt}
    {frames : List (Frame × List Stmt)} (hf : g.frames = (.switch open_, outer) :: frames) :
    g.items = [] ∧ ∀ f ∈ frames, f.1.IsBody := by
  rcases h with h | ⟨open', outer', frames', hf', hitems, -, h⟩
  · exact absurd (h _ (by rw [hf]; exact List.mem_cons_self)) id
  · rw [hf] at hf'
    cases hf'
    exact ⟨hitems, h⟩

theorem Staged.of_body {g : Grouping} (h : g.Staged) {f : Frame × List Stmt}
    {frames : List (Frame × List Stmt)} (hf : g.frames = f :: frames) (hbody : g.TakesItems) :
    f.1.IsBody ∧ ∀ f ∈ frames, f.1.IsBody := by
  have hall := h.of_takesItems hbody
  rw [hf] at hall
  exact ⟨hall f List.mem_cons_self, fun f' hf' => hall f' (List.mem_cons_of_mem _ hf')⟩

/-! ## Placing a line -/

theorem endCase_staged {g : Grouping} {open_ : OpenSwitch} {pattern : Option String}
    {first : Nat} {outer : List Stmt} {frames : List (Frame × List Stmt)} (last : Nat)
    (stack : g.frames = (.case open_ pattern first, outer) :: frames) (hb : g.block = none)
    (hs : g.Staged) : (endCase g open_ pattern first last outer frames).2.Staged := by
  have htakes : g.TakesItems := by simp [TakesItems, stack]
  exact .inr ⟨_, outer, frames, rfl, rfl, hb, (hs.of_body stack htakes).2⟩

theorem endCase_snd_heads_perm {g : Grouping} {open_ : OpenSwitch} {pattern : Option String}
    {first : Nat} {outer : List Stmt} {frames : List (Frame × List Stmt)} (last : Nat)
    (stack : g.frames = (.case open_ pattern first, outer) :: frames) (hb : g.block = none)
    (hs : g.Staged) :
    (endCase g open_ pattern first last outer frames).2.heads.Perm g.heads := by
  have htakes : g.TakesItems := by simp [TakesItems, stack]
  have hclose := endCase_heads_perm g open_ pattern first last outer frames
    (hs.of_body stack htakes).1
  refine List.perm_iff_count.mpr fun a => ?_
  have hcount := List.perm_iff_count.mp hclose a
  simp [endCase, heads, stmts, Frame.stmts, hb, stack] at hcount ⊢
  omega

/-- A line that is placed becomes a head, unless it is left out. -/
theorem Placed.heads_perm {e : Entry} {g g' : Grouping} (h : Placed e g g') (he : e.WellRead)
    (hb : g.block = none) (hs : g.Staged) :
    g'.heads.Perm (if e.isLeftOut (!g.frames.isEmpty) false then g.heads else e :: g.heads) := by
  induction h with
  | skipped hd hk hf => simp [Entry.isLeftOut_of_none hd, hk, hf]
  | @plain g hd hf takes =>
    have hin : (e.line.kind.isSkipped && !g.frames.isEmpty) = false := by
      cases hk : e.line.kind.isSkipped with
      | false => rfl
      | true => simp [hf hk]
    simp [Entry.isLeftOut_of_none hd, hin, heads, stmts, push, Entry.mk_eq hd]
  | action hd takes =>
    simp [he.isLeftOut_of_stmt hd, heads, stmts, push, Entry.mk_eq hd]
  | loop hd takes =>
    refine List.perm_iff_count.mpr fun a => ?_
    simp [he.isLeftOut_of_stmt hd, heads, stmts, hb, OpenBlock.close, Entry.mk_eq hd,
      List.count_cons]
    omega
  | condition hd takes =>
    refine List.perm_iff_count.mpr fun a => ?_
    simp [he.isLeftOut_of_stmt hd, heads, stmts, hb, OpenBlock.close, Entry.mk_eq hd,
      List.count_cons]
    omega
  | switch hd takes =>
    refine List.perm_iff_count.mpr fun a => ?_
    simp [he.isLeftOut_of_stmt hd, heads, stmts, hb, Frame.stmts, OpenSwitch.close,
      Stmt.heads_switch, Entry.mk_eq hd]
  | function hd top fresh =>
    simp [Entry.isLeftOut_of_marker hd, heads, stmts, hb, top, Frame.stmts]
  | @endFunction g _ _ _ _ hd stack =>
    refine List.perm_iff_count.mpr fun a => ?_
    have hbody := List.perm_iff_count.mp (Stmt.headsAll_reverse_perm g.items) a
    simp [Entry.isLeftOut_of_marker hd, heads, stmts, hb, stack, Frame.stmts, hbody]
    omega
  | case hd stack =>
    simp [Entry.isLeftOut_of_marker hd, heads, stmts, hb, stack, Frame.stmts, (hs.of_switch stack).1]
  | default hd stack first =>
    simp [Entry.isLeftOut_of_marker hd, heads, stmts, hb, stack, Frame.stmts, (hs.of_switch stack).1]
  | endSwitch hd stack =>
    simp [Entry.isLeftOut_of_marker hd, heads, stmts, hb, stack, Frame.stmts, (hs.of_switch stack).1]
  | endCase hd stack =>
    simpa [Entry.isLeftOut_of_marker hd] using endCase_snd_heads_perm e.line.number stack hb hs
  | nextCase stack _ next ih =>
    have hperm := endCase_snd_heads_perm (e.line.number - 1) stack hb hs
    have hnext := ih hb (endCase_staged (e.line.number - 1) stack hb hs)
    simp only [stack, List.isEmpty_cons, Bool.not_false] at hnext ⊢
    split at hnext
    · rw [if_pos ‹_›]; exact hnext.trans hperm
    · rw [if_neg ‹_›]; exact hnext.trans (hperm.cons e)

theorem Placed.staged {e : Entry} {g g' : Grouping} (h : Placed e g g') (hb : g.block = none)
    (hs : g.Staged) : g'.Staged := by
  induction h with
  | skipped hd hk hf => exact hs
  | plain hd hf takes => exact .inl (hs.of_takesItems takes)
  | action hd takes => exact .inl (hs.of_takesItems takes)
  | loop hd takes => exact .inl (hs.of_takesItems takes)
  | condition hd takes => exact .inl (hs.of_takesItems takes)
  | switch hd takes => exact .inr ⟨_, _, _, rfl, rfl, hb, hs.of_takesItems takes⟩
  | function hd top fresh => exact .inl (by simp [Frame.IsBody])
  | endFunction hd stack => exact .inl (hs.of_body stack (by simp [TakesItems, stack])).2
  | case hd stack => exact .inl (by simpa [Frame.IsBody] using (hs.of_switch stack).2)
  | default hd stack first =>
    exact .inl (by simpa [Frame.IsBody, first] using (hs.of_switch stack).2)
  | endSwitch hd stack => exact .inl (hs.of_switch stack).2
  | endCase hd stack => exact endCase_staged _ stack hb hs
  | nextCase stack _ next ih => exact ih hb (endCase_staged _ stack hb hs)

/-- The frames are the functions and switches that have not ended. -/
theorem Placed.frames_length {e : Entry} {g g' : Grouping} (h : Placed e g g') :
    e.closesRegion.toNat + g'.frames.length = e.opensRegion.toNat + g.frames.length := by
  induction h with
  | skipped hd hk hf => simp [Entry.closesRegion, Entry.opensRegion, hd]
  | plain hd hf takes => simp [Entry.closesRegion, Entry.opensRegion, hd, push]
  | action hd takes => simp [Entry.closesRegion, Entry.opensRegion, hd, push]
  | loop hd takes => simp [Entry.closesRegion, Entry.opensRegion, hd]
  | condition hd takes => simp [Entry.closesRegion, Entry.opensRegion, hd]
  | switch hd takes => simp [Entry.closesRegion, Entry.opensRegion, hd]; omega
  | function hd top fresh => simp [Entry.closesRegion, Entry.opensRegion, hd, top]
  | endFunction hd stack => simp [Entry.closesRegion, Entry.opensRegion, hd, stack]; omega
  | case hd stack => simp [Entry.closesRegion, Entry.opensRegion, hd, stack]
  | default hd stack first => simp [Entry.closesRegion, Entry.opensRegion, hd, stack]
  | endSwitch hd stack => simp [Entry.closesRegion, Entry.opensRegion, hd, stack]; omega
  | endCase hd stack => simp [Entry.closesRegion, Entry.opensRegion, hd, stack, Grouping.endCase]
  | nextCase stack _ next ih => simpa [stack, Grouping.endCase] using ih

/-- After a line that is placed, a condition is open if the line is one. -/
theorem Placed.inCondition {e : Entry} {g g' : Grouping} (h : Placed e g g') (hb : g.block = none) :
    e.directive ≠ some (.marker .otherwise) ∧ g'.inCondition = e.isCondition := by
  induction h with
  | skipped hd hk hf => simp [Grouping.inCondition, Entry.isCondition, hd, hb]
  | plain hd hf takes => simp [Grouping.inCondition, Entry.isCondition, hd, hb, push]
  | action hd takes => simp [Grouping.inCondition, Entry.isCondition, hd, hb, push]
  | loop hd takes => simp [Grouping.inCondition, Entry.isCondition, hd]
  | condition hd takes => simp [Grouping.inCondition, Entry.isCondition, hd]
  | switch hd takes => simp [Grouping.inCondition, Entry.isCondition, hd, hb]
  | function hd top fresh => simp [Grouping.inCondition, Entry.isCondition, hd, hb]
  | endFunction hd stack => simp [Grouping.inCondition, Entry.isCondition, hd, hb]
  | case hd stack => simp [Grouping.inCondition, Entry.isCondition, hd, hb]
  | default hd stack first => simp [Grouping.inCondition, Entry.isCondition, hd, hb]
  | endSwitch hd stack => simp [Grouping.inCondition, Entry.isCondition, hd, hb]
  | endCase hd stack => simp [Grouping.inCondition, Entry.isCondition, hd, hb, Grouping.endCase]
  | nextCase stack _ next ih => exact ih hb

/-! ## One line -/

/-- The grouping accounts for the lines that it has taken. -/
structure Accounts (g : Grouping) (before : List Entry) : Prop where
  /-- Every line that is not left out is the head of one statement. -/
  heads : g.heads.Perm (kept before)
  /-- The frames are the functions and switches that have not ended. -/
  depth : before.countP Entry.closesRegion + g.frames.length = before.countP Entry.opensRegion
  condition : g.inCondition = followsCondition before
  staged : g.Staged

theorem start_accounts : start.Accounts [] where
  heads := .refl _
  depth := rfl
  condition := rfl
  staged := .inl (by simp [start])

theorem Accounts.insideRegion_eq {g : Grouping} {before : List Entry} (h : g.Accounts before) :
    insideRegion before = !g.frames.isEmpty := by
  have hdepth := h.depth
  cases hf : g.frames with
  | nil =>
    rw [hf, List.length_nil] at hdepth
    simp [insideRegion, ← hdepth]
  | cons f frames =>
    rw [hf, List.length_cons] at hdepth
    simp [insideRegion, ← hdepth]

theorem Accounts.leftOut_eq {g : Grouping} {before : List Entry} (h : g.Accounts before)
    (e : Entry) : leftOut before e = e.isLeftOut (!g.frames.isEmpty) g.inCondition := by
  rw [leftOut, h.insideRegion_eq, h.condition]

theorem Staged.of_block {g : Grouping} (hs : g.Staged) {b : OpenBlock} (hb : g.block = some b) :
    ∀ f ∈ g.frames, f.1.IsBody := by
  rcases hs with hs | ⟨_, _, _, _, _, hnone, _⟩
  · exact hs
  · rw [hb] at hnone
    cases hnone

theorem closeBlock_staged {g : Grouping} (hs : g.Staged) : g.closeBlock.Staged := by
  cases hb : g.block with
  | none => rw [closeBlock_of_none hb]; exact hs
  | some b => exact .inl (by simpa using hs.of_block hb)

theorem inCondition_add {g : Grouping} {b : OpenBlock} (hb : g.block = some b) (s : Stmt) :
    inCondition { g with block := some (b.add s) } = g.inCondition := by
  cases b <;> simp [inCondition, hb, OpenBlock.add]

theorem add_block_heads_perm {g : Grouping} {b : OpenBlock} (hb : g.block = some b) (line : Line) :
    (Grouping.heads { g with block := some (b.add (.plain line)) }).Perm
      (⟨line, none⟩ :: g.heads) := by
  refine List.perm_iff_count.mpr fun a => ?_
  have hadd := List.perm_iff_count.mp (add_heads_perm b line) a
  simp [Grouping.heads, stmts, hb, List.count_cons] at hadd ⊢
  omega

/-- Taking a line keeps the account. -/
theorem Accounts.step {g g' : Grouping} {before : List Entry} {e : Entry} (ha : g.Accounts before)
    (he : e.WellRead) (h : g.step e = .ok g') : g'.Accounts (e :: before) := by
  have hout := ha.leftOut_eq e
  cases step_stepped h with
  | @added b hd hk hb =>
    have hkeep : leftOut before e = false := by simp [hout, Entry.isLeftOut_of_none hd, hk]
    refine ⟨?_, ?_, ?_, .inl (ha.staged.of_block hb)⟩
    · rw [kept, hkeep]
      have hperm := add_block_heads_perm hb e.line
      rw [Entry.mk_eq hd] at hperm
      exact hperm.trans (ha.heads.cons e)
    · simpa [Entry.closesRegion, Entry.opensRegion, hd, List.countP_cons] using ha.depth
    · rw [inCondition_add hb, followsCondition, ha.condition]
      simp [Entry.staysInCondition, hd, hk]
  | @otherwise line c yes hd hb =>
    have hin : g.inCondition = true := by simp [inCondition, hb]
    have hleft : leftOut before e = true := by
      simp [hout, hin, Entry.isLeftOut, Entry.isBranchMarker, hd]
    refine ⟨?_, ?_, ?_, .inl (ha.staged.of_block hb)⟩
    · rw [kept, hleft]
      have hsame : Grouping.heads { g with block := some (.inElse line c yes []) } = g.heads := by
        simp [Grouping.heads, stmts, hb, OpenBlock.close]
      rw [hsame]
      exact ha.heads
    · simpa [Entry.closesRegion, Entry.opensRegion, hd, List.countP_cons] using ha.depth
    · rw [followsCondition, ← ha.condition, hin]
      simp [Entry.staysInCondition, hd, inCondition]
  | endIf hd hin =>
    have hleft : leftOut before e = true := by
      simp [hout, hin, Entry.isLeftOut, Entry.isBranchMarker, hd]
    refine ⟨?_, ?_, ?_, closeBlock_staged ha.staged⟩
    · rw [kept, hleft]
      exact (closeBlock_heads_perm g).trans ha.heads
    · simpa [Entry.closesRegion, Entry.opensRegion, hd, List.countP_cons] using ha.depth
    · simp [followsCondition, Entry.staysInCondition, Entry.isCondition, hd, inCondition]
  | placed hplain hend hp =>
    have hs := closeBlock_staged ha.staged
    have hb := closeBlock_block g
    obtain ⟨hother, hcond⟩ := hp.inCondition hb
    have hleft : leftOut before e = e.isLeftOut (!g.closeBlock.frames.isEmpty) false := by
      rw [hout, closeBlock_frames]
      cases hin : g.inCondition with
      | false => rfl
      | true =>
        -- An open condition takes the first `<else>` and `<end-if>` itself.
        have hbranch : e.isBranchMarker = false := by
          unfold Entry.isBranchMarker
          split
          · exact absurd ‹_› hother
          · rw [hend ‹_›] at hin; cases hin
          · rfl
        simp [Entry.isLeftOut, hbranch]
    refine ⟨?_, ?_, ?_, hp.staged hb hs⟩
    · have hperm := hp.heads_perm he hb hs
      rw [← hleft] at hperm
      have hclose := (closeBlock_heads_perm g).trans ha.heads
      rw [kept]
      split at hperm
      · rw [if_pos ‹_›]; exact hperm.trans hclose
      · rw [if_neg ‹_›]; exact hperm.trans (hclose.cons e)
    · have hlen := hp.frames_length
      have hdepth := ha.depth
      rw [closeBlock_frames] at hlen
      simp only [List.countP_cons]
      cases hc : e.closesRegion <;> cases ho : e.opensRegion <;> simp [hc, ho] at hlen ⊢ <;> omega
    · rw [hcond, followsCondition]
      split
      case isFalse => rfl
      case isTrue hstay =>
        have hd : e.directive = none := by
          cases hd : e.directive with
          | none => rfl
          | some d => cases d <;> simp_all [Entry.staysInCondition]
        have hk : e.line.kind.isSkipped = false := by simpa [Entry.staysInCondition, hd] using hstay
        rw [← ha.condition]
        simp [Entry.isCondition, hd, inCondition, hplain hd hk]

/-! ## All lines -/

theorem Accounts.steps {g g' : Grouping} {before entries : List Entry} (ha : g.Accounts before)
    (he : ∀ e ∈ entries, e.WellRead) (h : g.steps entries = .ok g') :
    g'.Accounts (entries.reverse ++ before) := by
  induction entries generalizing g before with
  | nil => cases h; exact ha
  | cons e rest ih =>
    obtain ⟨g₁, hstep, hrest⟩ := steps_cons_eq_ok_iff.mp h
    have ha₁ := ha.step (he e List.mem_cons_self) hstep
    have ha' := ih ha₁ (fun e' he' => he e' (List.mem_cons_of_mem _ he')) hrest
    simpa using ha'

/-- When the lines are at their end, the statements of the script are those of
    the grouping. -/
theorem finish_stmts_perm {g : Grouping} {body : List Stmt} {functions : List Function}
    (h : g.finish = .ok (body, functions)) :
    (body ++ functions.flatMap (·.body)).Perm g.closeBlock.stmts := by
  unfold finish at h
  simp only at h
  split at h
  case h_1 hf =>
    cases h
    simp only [stmts, hf, closeBlock_block, Option.map_none, Option.toList_none, List.flatMap_nil,
      List.append_nil]
    have hitems := List.reverse_perm g.closeBlock.items
    have hfuns := (List.reverse_perm g.closeBlock.functions).flatMap_right (·.body)
    exact hitems.append hfuns
  case h_2 => cases h
  case h_3 => cases h
  case h_4 => cases h

end Grouping

/-- The lines of a script with their directives are those that are not left out. -/
theorem Script.heads_perm_kept {now : Int} {scope scope' : Scope} {raws : List String}
    {entries : List Entry} {g : Grouping} {script : Script}
    (hread : readLines now scope 1 raws = (.ok entries, scope'))
    (hsteps : Grouping.start.steps entries = .ok g)
    (hscript : ofGrouping g entries.reverse = .ok script) :
    (script.nodes.map Stmt.entry).Perm (kept entries.reverse) := by
  have hwell : ∀ e ∈ entries, e.WellRead := readLines_forall (fun h => (Line.read_ok h).2) hread
  have ha := Grouping.start_accounts.steps hwell hsteps
  rw [List.append_nil] at ha
  unfold ofGrouping at hscript
  split at hscript
  case h_1 => cases hscript
  case h_2 body functions hfinish =>
    cases hscript
    have hnodes := (nodes_perm ⟨body, functions, Summary.of entries (functions.map (·.name))⟩).map
      Stmt.entry
    have hstmts := Stmt.headsAll_perm (Grouping.finish_stmts_perm hfinish)
    have hclose := Grouping.closeBlock_heads_perm g
    rw [List.reverse_reverse]
    exact hnodes.trans (hstmts.trans (hclose.trans ha.heads))

end ConsoleScript
