-- SUMMARY: What is true of every statement of a script that was parsed.
import ConsoleScript.Proofs.Script.Regrouping
import ConsoleScript.Proofs.Script.Acceptance

/-!
# Well-formed scripts

In a script that was parsed, a statement has a directive and a binding just as the
class of its line says, loops and conditions own texts and assignments only, blank
lines and comments stand outside of everything, and every function is found under
its name: `parse_wellFormed`. Each line that the grouping takes keeps this true of
all statements that have been made or are being made (`Grouping.Neat`).
-/

namespace ConsoleScript

/-! ## Lines -/

/-- A line has a directive, and a binding, exactly if its class says so. -/
structure Entry.Consistent (e : Entry) : Prop where
  directive : e.WellRead
  binding : e.line.binding.isSome = (e.line.kind == .assignment)

theorem LineKind.isSkipped_of_isDirective {kind : LineKind} (h : kind.isDirective = true) :
    kind.isSkipped = false := by
  cases kind with
  | directive | conditional => rfl
  | _ => cases h

namespace Line

theorem isAssignment_of_classify {trimmed : String} (h : classify trimmed = .assignment) :
    Scope.isAssignment trimmed = true := by
  cases hassign : Scope.isAssignment trimmed with
  | true => rfl
  | false =>
    simp only [classify, hassign, Bool.false_eq_true, ↓reduceIte] at h
    repeat' split at h
    all_goals cases h

/-- A line of the class of assignments is one, in every scope. -/
theorem readAssignment?_isSome (now : Int) (scope : Scope) {trimmed : String}
    (h : classify trimmed = .assignment) :
    (scope.readAssignment? now trimmed).isSome = true := by
  have hsplit := isAssignment_of_classify h
  unfold Scope.readAssignment?
  unfold Scope.isAssignment at hsplit
  split
  · next hnone => rw [hnone] at hsplit; cases hsplit
  · rfl

theorem read_consistent {now : Int} {scope scope' : Scope} {n : Nat} {raw : String} {e : Entry}
    (h : read now scope n raw = (.ok e, scope')) : e.Consistent := by
  refine ⟨(read_ok h).2, ?_⟩
  cases hk : classify (Text.trim raw) with
  | blank | comment | text =>
    simp only [read, hk] at h
    cases h
    rfl
  | assignment =>
    have hsome := readAssignment?_isSome now scope hk
    simp only [read, hk] at h
    split at h
    · next hnone => rw [hnone] at hsome; cases hsome
    · cases h
      rfl
  | directive | conditional =>
    simp only [read, hk] at h
    split at h
    · cases h
    · cases h
      rfl

end Line

/-! ## Statements -/

namespace Stmt

/-- The lists of texts that a loop or a condition owns. -/
def implicitBodies : Stmt → List (List Stmt)
  | loop _ _ body => [body]
  | branch _ _ yes no => [yes, no]
  | _ => []

/-- A text or an assignment. -/
def IsText (s : Stmt) : Prop :=
  s.directive = none ∧ (s.line.kind = .text ∨ s.line.kind = .assignment)

/-- No statement is a blank line or a comment. -/
def Visible (ss : List Stmt) : Prop := ∀ s ∈ ss, s.line.kind.isSkipped = false

/-- What is true of a statement that was parsed. -/
structure Neat (s : Stmt) : Prop where
  consistent : s.entry.Consistent
  unmarked : ∀ m, s.directive ≠ some (.marker m)
  texts : ∀ body ∈ s.implicitBodies, ∀ t ∈ body, t.IsText
  visible : ∀ body ∈ s.bodies, Visible body

/-- The statement and all that are inside of it are neat. -/
def DeepNeat (s : Stmt) : Prop := ∀ t ∈ s.nodes, t.Neat

variable {s : Stmt} {ss : List Stmt}

theorem directive_ne_marker (s : Stmt) (m : Marker) : s.directive ≠ some (.marker m) := by
  cases s <;> simp [directive]

theorem deepNeat_iff : s.DeepNeat ↔ s.Neat ∧ ∀ body ∈ s.bodies, ∀ t ∈ body, t.DeepNeat :=
  forall_mem_nodes

theorem IsText.visible (h : s.IsText) : s.line.kind.isSkipped = false := by
  rcases h.2 with hkind | hkind <;> simp [hkind, LineKind.isSkipped]

/-- The lines that a loop or a condition owns are texts. -/
theorem deepNeat_iff_of_implicit (h : s.implicitBodies = s.bodies) :
    s.DeepNeat ↔
      s.entry.Consistent ∧ ∀ body ∈ s.bodies, ∀ t ∈ body, t.IsText ∧ t.DeepNeat := by
  rw [deepNeat_iff]
  constructor
  · rintro ⟨hneat, hdeep⟩
    refine ⟨hneat.consistent, fun body hbody t ht => ⟨?_, hdeep body hbody t ht⟩⟩
    exact hneat.texts body (by rwa [h]) t ht
  · rintro ⟨hconsistent, htexts⟩
    refine ⟨⟨hconsistent, directive_ne_marker s, ?_, ?_⟩, fun body hbody t ht =>
      (htexts body hbody t ht).2⟩
    · intro body hbody t ht
      rw [h] at hbody
      exact (htexts body hbody t ht).1
    · exact fun body hbody t ht => (htexts body hbody t ht).1.visible

theorem Neat.visible_of_directive (h : s.Neat) (hd : s.directive.isSome = true) :
    s.line.kind.isSkipped = false :=
  LineKind.isSkipped_of_isDirective ((Eq.symm h.consistent.directive).trans hd)

/-- A statement that owns nothing is neat if its line is consistent. -/
theorem deepNeat_of_bodies (hs : s.entry.Consistent) (hbodies : s.bodies.flatten = []) :
    s.DeepNeat := by
  have hempty : ∀ body ∈ s.bodies, body = [] := List.flatten_eq_nil_iff.mp hbodies
  have himplicit : ∀ body ∈ s.implicitBodies, body ∈ s.bodies := by
    cases s <;> simp [implicitBodies, bodies]
  refine deepNeat_iff.mpr ⟨⟨hs, directive_ne_marker s, ?_, ?_⟩, ?_⟩
  · intro body hbody
    simp [hempty body (himplicit body hbody)]
  · intro body hbody
    simp [Visible, hempty body hbody]
  · intro body hbody
    simp [hempty body hbody]

end Stmt

/-- A line without a directive that counts is a text or an assignment. -/
theorem Entry.Consistent.isText {e : Entry} (h : e.Consistent) (hd : e.directive = none)
    (hk : e.line.kind.isSkipped = false) : (Stmt.plain e.line).IsText := by
  have hdirective : e.line.kind.isDirective = false := by
    have hread := h.directive
    rw [WellRead, hd] at hread
    exact hread.symm
  refine ⟨rfl, ?_⟩
  change e.line.kind = .text ∨ e.line.kind = .assignment
  cases hkind : e.line.kind <;>
    simp [hkind, LineKind.isDirective, LineKind.isSkipped] at hdirective hk ⊢

/-! ## The grouping -/

namespace Grouping

/-- The lists that are still growing, without the one outside of everything. -/
def innerLists : List Stmt → List (Frame × List Stmt) → List (List Stmt)
  | _, [] => []
  | items, (_, outer) :: frames => items :: innerLists outer frames

/-- What is true of the statements that have been made and are being made. -/
structure Neat (g : Grouping) : Prop where
  stmts : ∀ s ∈ g.stmts, s.DeepNeat
  inner : ∀ ss ∈ innerLists g.items g.frames, Stmt.Visible ss
  functions : ∀ f ∈ g.functions, Stmt.Visible f.body

theorem start_neat : start.Neat where
  stmts := by simp [start, Grouping.stmts]
  inner := by simp [start, innerLists]
  functions := by simp [start]

variable {g g' : Grouping} {e : Entry}

/-- A line moves statements, and makes at most neat ones. -/
theorem Neat.restack (h : g.Neat) (hstmts : ∀ s ∈ g'.stmts, s ∈ g.stmts ∨ s.DeepNeat)
    (hinner : ∀ ss ∈ innerLists g'.items g'.frames, Stmt.Visible ss)
    (hfunctions : ∀ f ∈ g'.functions, Stmt.Visible f.body) : g'.Neat where
  stmts s hs := (hstmts s hs).elim (h.stmts s) id
  inner := hinner
  functions := hfunctions

theorem visible_innerLists_cons {s : Stmt} {items : List Stmt} {frames : List (Frame × List Stmt)}
    (h : ∀ ss ∈ innerLists items frames, Stmt.Visible ss)
    (hs : frames ≠ [] → s.line.kind.isSkipped = false) :
    ∀ ss ∈ innerLists (s :: items) frames, Stmt.Visible ss := by
  cases frames with
  | nil => simp [innerLists]
  | cons frame frames =>
    obtain ⟨hitems, hrest⟩ := List.forall_mem_cons.mp h
    refine List.forall_mem_cons.mpr ⟨?_, hrest⟩
    exact List.forall_mem_cons.mpr ⟨hs (List.cons_ne_nil _ _), hitems⟩

/-- What is inside of a body that has just begun, which holds nothing yet. -/
theorem visible_innerLists_nil {frame : Frame} {outer : List Stmt}
    {frames : List (Frame × List Stmt)} (h : ∀ ss ∈ innerLists outer frames, Stmt.Visible ss) :
    ∀ ss ∈ innerLists [] ((frame, outer) :: frames), Stmt.Visible ss :=
  List.forall_mem_cons.mpr ⟨by simp [Stmt.Visible], h⟩

theorem Neat.push {s : Stmt} (h : g.Neat) (hs : s.DeepNeat)
    (hvisible : g.frames ≠ [] → s.line.kind.isSkipped = false) : (g.push s).Neat := by
  refine h.restack (fun t ht => ?_) (visible_innerLists_cons h.inner hvisible) h.functions
  rcases List.mem_cons.mp ht with rfl | ht
  · exact .inr hs
  · exact .inl ht

theorem Neat.block (h : g.Neat) {b : OpenBlock} (hb : g.block = some b) : b.close.DeepNeat :=
  h.stmts _ (mem_stmts.mpr (.inr (.inl ⟨b, hb, rfl⟩)))

/-- The implicit body that is open may be any that is neat, or none. -/
theorem Neat.setBlock (h : g.Neat) {block : Option OpenBlock}
    (hblock : ∀ b, block = some b → b.close.DeepNeat) : Neat { g with block } := by
  refine h.restack (fun s hs => ?_) h.inner h.functions
  rcases mem_stmts.mp hs with hs | ⟨b, hb, rfl⟩ | hs
  · exact .inl (mem_stmts.mpr (.inl hs))
  · exact .inr (hblock b hb)
  · exact .inl (mem_stmts.mpr (.inr (.inr hs)))

theorem Neat.closeBlock (h : g.Neat) : g.closeBlock.Neat := by
  unfold Grouping.closeBlock
  split
  · exact h
  · next b hb =>
    have hdirective : b.close.directive.isSome = true := by cases b <;> rfl
    have hclose := (Stmt.deepNeat_iff.mp (h.block hb)).1
    exact (h.push (h.block hb) fun _ => hclose.visible_of_directive hdirective).setBlock (by simp)

/-! ## Placing a line -/

theorem endCase_neat {open_ : OpenSwitch} {pattern : Option String} {first : Nat}
    {outer : List Stmt} {frames : List (Frame × List Stmt)} (last : Nat)
    (stack : g.frames = (.case open_ pattern first, outer) :: frames) (h : g.Neat) :
    (endCase g open_ pattern first last outer frames).2.Neat := by
  have hinner := h.inner
  rw [stack] at hinner
  obtain ⟨hitems, hrest⟩ := List.forall_mem_cons.mp hinner
  have hopen : open_.close.DeepNeat :=
    h.stmts _ (mem_stmts_of_frame stack (by simp [Frame.stmts]))
  obtain ⟨hneat, hdeep⟩ := Stmt.deepNeat_iff.mp hopen
  have hclose : (endCase g open_ pattern first last outer frames).1.close.DeepNeat := by
    refine Stmt.deepNeat_iff.mpr ⟨⟨?_, Stmt.directive_ne_marker _, ?_, ?_⟩, ?_⟩
    · rw [endCase_entry]
      exact hneat.consistent
    · intro body hbody
      cases hbody
    · intro body hbody
      rcases mem_bodies_endCase hbody with hbody | rfl
      · exact hneat.visible body hbody
      · exact fun s hs => hitems s (List.mem_reverse.mp hs)
    · intro body hbody
      rcases mem_bodies_endCase hbody with hbody | rfl
      · exact hdeep body hbody
      · exact fun s hs => h.stmts s (mem_stmts.mpr (.inl (List.mem_reverse.mp hs)))
  refine h.restack (fun s hs => ?_) (visible_innerLists_nil hrest) h.functions
  rcases mem_stmts_endCase stack hs with rfl | hs
  · exact .inr hclose
  · exact .inl hs

/-- A line that is placed makes a neat statement, or none. -/
theorem Placed.neat (hp : Placed e g g') (he : e.Consistent) (h : g.Neat) : g'.Neat := by
  -- a statement that is made of the line alone
  have hnew : ∀ {s : Stmt}, s.entry = e → s.bodies.flatten = [] → s.DeepNeat := by
    intro s hentry hbodies
    exact Stmt.deepNeat_of_bodies (by rw [hentry]; exact he) hbodies
  have hvisible : ∀ {d : Directive}, e.directive = some d → e.line.kind.isSkipped = false := by
    intro d hd
    refine LineKind.isSkipped_of_isDirective ((Eq.symm he.directive).trans ?_)
    rw [hd]
    rfl
  induction hp with
  | skipped hd hk hf => exact h
  | plain hd hf takes =>
    refine h.push (hnew (Entry.mk_eq hd) rfl) fun hframes => ?_
    exact Bool.eq_false_iff.mpr fun hk => hframes (hf hk)
  | action hd takes => exact h.push (hnew (Entry.mk_eq hd) rfl) fun _ => hvisible hd
  | loop hd takes =>
    refine h.setBlock fun b hb => ?_
    cases hb
    exact hnew (Entry.mk_eq hd) rfl
  | condition hd takes =>
    refine h.setBlock fun b hb => ?_
    cases hb
    exact hnew (Entry.mk_eq hd) rfl
  | @switch g o hd takes =>
    have hswitch : (OpenSwitch.close ⟨e.line, o, [], none⟩).DeepNeat := hnew (Entry.mk_eq hd) rfl
    refine h.restack (fun s hs => ?_) (visible_innerLists_nil h.inner) h.functions
    simp only [mem_stmts, Frame.stmts, List.mem_cons, exists_eq_or_imp] at hs ⊢
    grind
  | function hd top fresh =>
    have hinner := h.inner
    rw [top] at hinner
    refine h.restack (fun s hs => ?_) (visible_innerLists_nil hinner) h.functions
    simp only [mem_stmts, Frame.stmts, top, List.mem_cons, exists_eq_or_imp] at hs ⊢
    grind
  | endFunction hd stack =>
    obtain ⟨hitems, hrest⟩ := List.forall_mem_cons.mp (stack ▸ h.inner)
    refine h.restack (fun s hs => ?_) hrest ?_
    · simp only [mem_stmts, Frame.stmts, stack, List.mem_cons, exists_eq_or_imp,
        List.mem_reverse] at hs ⊢
      grind
    · refine List.forall_mem_cons.mpr ⟨fun s hs => hitems s (List.mem_reverse.mp hs), h.functions⟩
  | case hd stack =>
    obtain ⟨-, hrest⟩ := List.forall_mem_cons.mp (stack ▸ h.inner)
    refine h.restack (fun s hs => ?_) (visible_innerLists_nil hrest) h.functions
    simp only [mem_stmts, Frame.stmts, stack, List.mem_cons, exists_eq_or_imp] at hs ⊢
    grind
  | default hd stack first =>
    obtain ⟨-, hrest⟩ := List.forall_mem_cons.mp (stack ▸ h.inner)
    refine h.restack (fun s hs => ?_) (visible_innerLists_nil hrest) h.functions
    simp only [mem_stmts, Frame.stmts, stack, List.mem_cons, exists_eq_or_imp] at hs ⊢
    grind
  | @endSwitch g open_ outer frames hd stack =>
    obtain ⟨-, hrest⟩ := List.forall_mem_cons.mp (stack ▸ h.inner)
    have hopen : open_.close.DeepNeat :=
      h.stmts _ (mem_stmts_of_frame stack (by simp [Frame.stmts]))
    have hclose := (Stmt.deepNeat_iff.mp hopen).1
    refine h.restack (fun s hs => ?_)
      (visible_innerLists_cons hrest fun _ => hclose.visible_of_directive rfl) h.functions
    simp only [mem_stmts, Frame.stmts, stack, List.mem_cons, exists_eq_or_imp] at hs ⊢
    grind
  | endCase hd stack => exact endCase_neat _ stack h
  | nextCase stack _ next ih => exact ih (endCase_neat _ stack h)

/-- A text that joins an implicit body. -/
theorem add_neat {b : OpenBlock} (he : e.Consistent) (hd : e.directive = none)
    (hk : e.line.kind.isSkipped = false) (h : b.close.DeepNeat) :
    (b.add (.plain e.line)).close.DeepNeat := by
  have htext : (Stmt.plain e.line).IsText ∧ (Stmt.plain e.line).DeepNeat := by
    refine ⟨he.isText hd hk, Stmt.deepNeat_of_bodies ?_ rfl⟩
    have hentry : (Stmt.plain e.line).entry = e := Entry.mk_eq hd
    rw [hentry]
    exact he
  cases b with
  | loop line l body =>
    rw [OpenBlock.close, Stmt.deepNeat_iff_of_implicit rfl] at h
    rw [OpenBlock.add, OpenBlock.close, Stmt.deepNeat_iff_of_implicit rfl]
    simp only [Stmt.bodies, List.forall_mem_cons, List.mem_reverse] at h ⊢
    exact ⟨h.1, ⟨htext, h.2.1⟩, h.2.2⟩
  | inThen line c yes =>
    rw [OpenBlock.close, Stmt.deepNeat_iff_of_implicit rfl] at h
    rw [OpenBlock.add, OpenBlock.close, Stmt.deepNeat_iff_of_implicit rfl]
    simp only [Stmt.bodies, List.forall_mem_cons, List.mem_reverse] at h ⊢
    exact ⟨h.1, ⟨htext, h.2.1⟩, h.2.2⟩
  | inElse line c yes no =>
    rw [OpenBlock.close, Stmt.deepNeat_iff_of_implicit rfl] at h
    rw [OpenBlock.add, OpenBlock.close, Stmt.deepNeat_iff_of_implicit rfl]
    simp only [Stmt.bodies, List.forall_mem_cons, List.mem_reverse] at h ⊢
    exact ⟨h.1, h.2.1, ⟨htext, h.2.2.1⟩, h.2.2.2⟩

/-- Taking the next line keeps what is true. -/
theorem Neat.step (h : g.Neat) (he : e.Consistent) (hstep : g.step e = .ok g') : g'.Neat := by
  cases step_stepped hstep with
  | added hd hk hb =>
    refine h.setBlock fun b hb' => ?_
    cases hb'
    exact add_neat he hd hk (h.block hb)
  | otherwise hd hb =>
    refine h.setBlock fun b hb' => ?_
    cases hb'
    simpa [OpenBlock.close] using h.block hb
  | endIf hd hin => exact h.closeBlock
  | placed _ _ hp => exact hp.neat he h.closeBlock

theorem Neat.steps {entries : List Entry} (h : g.Neat) (he : ∀ e ∈ entries, e.Consistent)
    (hsteps : g.steps entries = .ok g') : g'.Neat := by
  induction entries generalizing g with
  | nil => cases hsteps; exact h
  | cons e rest ih =>
    obtain ⟨g₁, hstep, hrest⟩ := steps_cons_eq_ok_iff.mp hsteps
    obtain ⟨hhead, htail⟩ := List.forall_mem_cons.mp he
    exact ih (h.step hhead hstep) htail hrest

theorem steps_names_nodup {entries : List Entry} (h : g.names.Nodup)
    (hsteps : g.steps entries = .ok g') : g'.names.Nodup := by
  induction entries generalizing g with
  | nil => cases hsteps; exact h
  | cons e rest ih =>
    obtain ⟨g₁, hstep, hrest⟩ := steps_cons_eq_ok_iff.mp hsteps
    exact ih (step_names_nodup hstep h) hrest

end Grouping

/-! ## Scripts -/

namespace Script

/-- What is true of a script that was parsed. -/
structure WellFormed (script : Script) : Prop where
  neat : ∀ s ∈ script.nodes, s.Neat
  visible : ∀ f ∈ script.functions, Stmt.Visible f.body
  named : ∀ f ∈ script.functions, script.function? f.name = some f

/-- The script of a grouping that leaves nothing open. -/
theorem ofGrouping_ok {g : Grouping} {entries : List Entry} {script : Script}
    (h : ofGrouping g entries = .ok script) :
    g.frames = [] ∧ script.body = g.closeBlock.items.reverse ∧
      script.functions = g.closeBlock.functions.reverse := by
  have hframes := ofGrouping_isOk_iff.mp ⟨script, h⟩
  simp only [ofGrouping, Grouping.finish, Grouping.closeBlock_frames, hframes] at h
  cases h
  exact ⟨hframes, rfl, rfl⟩

/-- Every node of a script is inside of a statement that the grouping made. -/
theorem ofGrouping_nodes {g : Grouping} {entries : List Entry} {script : Script}
    (h : ofGrouping g entries = .ok script) {s : Stmt} (hs : s ∈ script.nodes) :
    ∃ t ∈ g.closeBlock.stmts, s ∈ t.nodes := by
  obtain ⟨-, hbody, hfunctions⟩ := ofGrouping_ok h
  obtain ⟨t, ht, hs⟩ := Stmt.mem_nodesAll.mp ((nodes_perm script).mem_iff.mp hs)
  refine ⟨t, Grouping.mem_stmts.mpr ?_, hs⟩
  rw [hbody, hfunctions] at ht
  rcases List.mem_append.mp ht with ht | ht
  · exact .inl (List.mem_reverse.mp ht)
  · obtain ⟨f, hf, ht⟩ := List.mem_flatMap.mp ht
    exact .inr (.inr (.inr ⟨f, List.mem_reverse.mp hf, ht⟩))

theorem ofGrouping_summary {g : Grouping} {entries : List Entry} {script : Script}
    (h : ofGrouping g entries = .ok script) :
    script.summary = Summary.of entries.reverse (script.functions.map (·.name)) := by
  unfold ofGrouping at h
  split at h
  · cases h
  · cases h
    rfl

/-- Of functions with different names, each is the first of its name. -/
theorem find?_name {functions : List Function} {f : Function}
    (hnodup : (functions.map (·.name)).Nodup) (hf : f ∈ functions) :
    functions.find? (·.name == f.name) = some f := by
  induction functions with
  | nil => cases hf
  | cons head rest ih =>
    obtain ⟨hhead, hrest⟩ := List.nodup_cons.mp hnodup
    rcases List.mem_cons.mp hf with rfl | hf
    · simp
    · have hne : head.name ≠ f.name := by
        intro heq
        exact hhead (List.mem_map.mpr ⟨f, hf, heq.symm⟩)
      rw [List.find?_cons_of_neg (by simpa using hne), ih hrest hf]

theorem parse_wellFormed {now : Int} {scope scope' : Scope} {text : String} {script : Script}
    (h : parse now scope text = (.ok script, scope')) : script.WellFormed := by
  obtain ⟨entries, g, hread, hsteps, hmade⟩ := parseLines_eq_ok_iff.mp h
  obtain ⟨hframes, -, hfunctions⟩ := ofGrouping_ok hmade
  have hconsistent : ∀ e ∈ entries, e.Consistent := readLines_forall Line.read_consistent hread
  have hneat := (Grouping.start_neat.steps hconsistent hsteps).closeBlock
  have hstart : Grouping.start.names.Nodup := List.nodup_nil
  have hnames : (script.functions.map (·.name)).Nodup := by
    have hnodup := Grouping.steps_names_nodup hstart hsteps
    rw [← g.closeBlock_names, Grouping.names, Grouping.closeBlock_frames, hframes] at hnodup
    rw [hfunctions, List.map_reverse, (List.reverse_perm _).nodup_iff]
    exact hnodup
  refine ⟨fun s hs => ?_, ?_, fun f hf => find?_name hnames hf⟩
  · obtain ⟨t, ht, hs⟩ := ofGrouping_nodes hmade hs
    exact hneat.stmts t ht s hs
  · rw [hfunctions]
    intro f hf
    exact hneat.functions f (List.mem_reverse.mp hf)

end Script

end ConsoleScript
