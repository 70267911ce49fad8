-- SUMMARY: Parsing regroups the lines that were read in order, each in one place and in order.
import ConsoleScript.Proofs.Script.Accounting

/-!
# Parsing is a regrouping

The statements of a script are the lines that were read one after the other,
put into lists. Within each list the lines stand in their order. For the lists
that are still growing, which are kept in reverse, this is `Stmt.Descending`,
and `Grouping.Ordered` says it of all that is open.
-/

namespace ConsoleScript

/-! ## Lists in order -/

namespace Stmt

/-- The lines of a list stand in their order. -/
def Increasing (ss : List Stmt) : Prop :=
  ss.Pairwise fun s t => s.line.number < t.line.number

/-- A list that grows at its front, with all lines before line `n`. -/
def Descending (n : Nat) (ss : List Stmt) : Prop :=
  (∀ s ∈ ss, s.line.number < n) ∧ ss.Pairwise fun s t => t.line.number < s.line.number

/-- All lists inside of a statement stand in order. -/
def Tidy (s : Stmt) : Prop :=
  ∀ t ∈ s.nodes, ∀ body ∈ t.bodies, Increasing body

@[simp] theorem descending_nil (n : Nat) : Descending n [] := by
  simp [Descending]

theorem descending_cons {n : Nat} {s : Stmt} {ss : List Stmt} :
    Descending n (s :: ss) ↔ s.line.number < n ∧ Descending s.line.number ss := by
  simp only [Descending, List.forall_mem_cons, List.pairwise_cons]
  constructor
  · rintro ⟨⟨hs, -⟩, hlt, hpair⟩
    exact ⟨hs, hlt, hpair⟩
  · rintro ⟨hs, hlt, hpair⟩
    exact ⟨⟨hs, fun t ht => Nat.lt_trans (hlt t ht) hs⟩, hlt, hpair⟩

theorem Descending.mono {n m : Nat} {ss : List Stmt} (h : Descending n ss) (hle : n ≤ m) :
    Descending m ss :=
  ⟨fun s hs => Nat.lt_of_lt_of_le (h.1 s hs) hle, h.2⟩

theorem Descending.increasing_reverse {n : Nat} {ss : List Stmt} (h : Descending n ss) :
    Increasing ss.reverse :=
  List.pairwise_reverse.mpr h.2

theorem tidy_iff {s : Stmt} :
    s.Tidy ↔ ∀ body ∈ s.bodies, Increasing body ∧ ∀ t ∈ body, t.Tidy := by
  simp only [Tidy, nodes_eq_cons s, List.forall_mem_cons, List.mem_flatMap, mem_nodesAll]
  constructor
  · rintro ⟨hown, hin⟩ body hbody
    exact ⟨hown body hbody, fun t ht u hu => hin u ⟨body, hbody, t, ht, hu⟩⟩
  · intro h
    refine ⟨fun body hbody => (h body hbody).1, ?_⟩
    rintro u ⟨body, hbody, t, ht, hu⟩
    exact (h body hbody).2 t ht u hu

end Stmt

/-! ## Groupings in order -/

open Stmt (Descending Increasing)

/-- An implicit body after the statements `items`, before line `n`. -/
def OpenBlock.Ordered (n : Nat) (items : List Stmt) : OpenBlock → Prop
  | .loop line _ body => line.number < n ∧ Descending line.number items ∧ Descending n body
  | .inThen line _ yes => line.number < n ∧ Descending line.number items ∧ Descending n yes
  | .inElse line _ yes no =>
    line.number < n ∧ Descending line.number items ∧ Descending n yes ∧ Descending n no

/-- An explicit body after the statements `outer`, before line `n`. -/
def Frame.Ordered (n : Nat) (outer : List Stmt) : Frame → Prop
  | .function _ _ => Descending n outer
  | .switch open_ | .case open_ _ _ => open_.line.number < n ∧ Descending open_.line.number outer

theorem OpenBlock.Ordered.mono {n m : Nat} {items : List Stmt} {b : OpenBlock}
    (h : b.Ordered n items) (hle : n ≤ m) : b.Ordered m items := by
  cases b with
  | loop line l body => exact ⟨Nat.lt_of_lt_of_le h.1 hle, h.2.1, h.2.2.mono hle⟩
  | inThen line c yes => exact ⟨Nat.lt_of_lt_of_le h.1 hle, h.2.1, h.2.2.mono hle⟩
  | inElse line c yes no =>
    exact ⟨Nat.lt_of_lt_of_le h.1 hle, h.2.1, h.2.2.1.mono hle, h.2.2.2.mono hle⟩

theorem Frame.Ordered.mono {n m : Nat} {outer : List Stmt} {f : Frame} (h : f.Ordered n outer)
    (hle : n ≤ m) : f.Ordered m outer := by
  cases f with
  | function name first => exact Descending.mono h hle
  | switch open_ => exact ⟨Nat.lt_of_lt_of_le h.1 hle, h.2⟩
  | case open_ pattern first => exact ⟨Nat.lt_of_lt_of_le h.1 hle, h.2⟩

namespace Grouping

/-- All lists stand in order, and line `n` comes next. -/
structure Ordered (n : Nat) (g : Grouping) : Prop where
  items : Descending n g.items
  block : ∀ b, g.block = some b → b.Ordered n g.items
  frames : ∀ f ∈ g.frames, f.1.Ordered n f.2
  functions : ∀ f ∈ g.functions, Increasing f.body
  tidy : ∀ s ∈ g.stmts, s.Tidy

theorem start_ordered : start.Ordered 1 where
  items := by simp [start]
  block := by simp [start]
  frames := by simp [start]
  functions := by simp [start]
  tidy := by simp [start, stmts]

theorem mem_stmts {g : Grouping} {s : Stmt} :
    s ∈ g.stmts ↔ s ∈ g.items ∨ (∃ b, g.block = some b ∧ s = b.close) ∨
      (∃ f ∈ g.frames, s ∈ f.1.stmts ∨ s ∈ f.2) ∨ ∃ f ∈ g.functions, s ∈ f.body := by
  simp only [stmts, List.mem_append, List.mem_flatMap, Option.mem_toList, Option.map_eq_some_iff,
    or_assoc, @eq_comm _ s]

theorem Ordered.mono {n m : Nat} {g : Grouping} (h : g.Ordered n) (hle : n ≤ m) : g.Ordered m where
  items := h.items.mono hle
  block b hb := (h.block b hb).mono hle
  frames f hf := (h.frames f hf).mono hle
  functions := h.functions
  tidy := h.tidy

theorem closeBlock_ordered {n : Nat} {g : Grouping} (h : g.Ordered n) : g.closeBlock.Ordered n := by
  cases hb : g.block with
  | none => rw [closeBlock_of_none hb]; exact h
  | some b =>
    have hitems : Descending n (b.close :: g.items) := by
      have hord := h.block b hb
      cases b with
      | loop line l body => exact Stmt.descending_cons.mpr ⟨hord.1, hord.2.1⟩
      | inThen line c yes => exact Stmt.descending_cons.mpr ⟨hord.1, hord.2.1⟩
      | inElse line c yes no => exact Stmt.descending_cons.mpr ⟨hord.1, hord.2.1⟩
    have htidy := fun s hs => h.tidy s (g.closeBlock_stmts_perm.mem_iff.mp hs)
    simp only [closeBlock, hb] at htidy ⊢
    exact ⟨hitems, by simp, h.frames, h.functions, htidy⟩

theorem Ordered.push {n : Nat} {g : Grouping} {s : Stmt} (h : g.Ordered n) (hb : g.block = none)
    (hs : s.line.number = n) (ht : s.Tidy) : (g.push s).Ordered (n + 1) where
  items := Stmt.descending_cons.mpr ⟨by omega, hs ▸ h.items⟩
  block b hb' := by rw [Grouping.push, hb] at hb'; cases hb'
  frames f hf := (h.frames f hf).mono (by omega)
  functions := h.functions
  tidy t hst := by
    have hcons : (g.push s).stmts = s :: g.stmts := by simp [Grouping.push, stmts]
    rw [hcons] at hst
    rcases List.mem_cons.mp hst with rfl | hst
    · exact ht
    · exact h.tidy t hst

/-- A block that begins owns nothing yet. -/
theorem Ordered.openBlock {n : Nat} {g : Grouping} {b : OpenBlock} (h : g.Ordered n)
    (hord : b.Ordered (n + 1) g.items) (ht : b.close.Tidy) :
    Ordered (n + 1) { g with block := some b } where
  items := h.items.mono (by omega)
  block b' hb' := by cases hb'; exact hord
  frames f hf := (h.frames f hf).mono (by omega)
  functions := h.functions
  tidy s hs := by
    rcases mem_stmts.mp hs with hs | ⟨b', hb', rfl⟩ | hs | hs
    · exact h.tidy s (mem_stmts.mpr (.inl hs))
    · cases hb'; exact ht
    · exact h.tidy s (mem_stmts.mpr (.inr (.inr (.inl hs))))
    · exact h.tidy s (mem_stmts.mpr (.inr (.inr (.inr hs))))

/-- A line that opens or ends an explicit body moves statements, and makes at most
    tidy ones. -/
theorem Ordered.restack {n : Nat} {g g' : Grouping} (h : g.Ordered n) (hb : g'.block = none)
    (hitems : Descending (n + 1) g'.items) (hframes : ∀ f ∈ g'.frames, f.1.Ordered (n + 1) f.2)
    (hfunctions : ∀ f ∈ g'.functions, Increasing f.body)
    (hstmts : ∀ s ∈ g'.stmts, s ∈ g.stmts ∨ s.Tidy) : g'.Ordered (n + 1) where
  items := hitems
  block b hb' := by rw [hb] at hb'; cases hb'
  frames := hframes
  functions := hfunctions
  tidy s hs := (hstmts s hs).elim (h.tidy s) id

theorem mem_bodies_endCase {g : Grouping} {open_ : OpenSwitch} {pattern : Option String}
    {first last : Nat} {outer body : List Stmt} {frames : List (Frame × List Stmt)}
    (h : body ∈ (endCase g open_ pattern first last outer frames).1.close.bodies) :
    body ∈ open_.close.bodies ∨ body = g.items.reverse := by
  cases pattern with
  | none =>
    simp only [endCase, OpenSwitch.close, Stmt.bodies, List.mem_append, Option.mem_toList,
      Option.some.injEq] at h ⊢
    rcases h with h | rfl
    · exact .inl (.inl h)
    · exact .inr rfl
  | some pattern =>
    simp only [endCase, OpenSwitch.close, Stmt.bodies, List.reverse_cons, List.map_append,
      List.map_cons, List.map_nil, List.mem_append, List.mem_singleton] at h ⊢
    rcases h with (h | rfl) | h
    · exact .inl (.inl h)
    · exact .inr rfl
    · exact .inl (.inr h)

theorem mem_stmts_of_frame {g : Grouping} {frame : Frame} {outer : List Stmt}
    {frames : List (Frame × List Stmt)} (stack : g.frames = (frame, outer) :: frames) {s : Stmt}
    (hs : s ∈ frame.stmts) : s ∈ g.stmts :=
  mem_stmts.mpr (.inr (.inr (.inl ⟨_, by rw [stack]; exact List.mem_cons_self, .inl hs⟩)))

section EndCase

variable {g : Grouping} {open_ : OpenSwitch} {pattern : Option String} {first last : Nat}
  {outer : List Stmt} {frames : List (Frame × List Stmt)}

theorem endCase_line : (endCase g open_ pattern first last outer frames).1.line = open_.line := by
  cases pattern <;> rfl

theorem endCase_entry :
    (endCase g open_ pattern first last outer frames).1.close.entry = open_.close.entry := by
  cases pattern <;> rfl

/-- The end of a case changes no statement but its switch. -/
theorem mem_stmts_endCase (stack : g.frames = (.case open_ pattern first, outer) :: frames)
    {s : Stmt} (hs : s ∈ (endCase g open_ pattern first last outer frames).2.stmts) :
    s = (endCase g open_ pattern first last outer frames).1.close ∨ s ∈ g.stmts := by
  rcases mem_stmts.mp hs with hs | hs | ⟨f, hf, hs⟩ | hs
  · cases hs
  · exact .inr (mem_stmts.mpr (.inr (.inl hs)))
  · rcases List.mem_cons.mp hf with rfl | hf
    · refine hs.imp (fun hs => List.mem_singleton.mp hs) fun hs => ?_
      have htop : (.case open_ pattern first, outer) ∈ g.frames := by
        rw [stack]; exact List.mem_cons_self
      exact mem_stmts.mpr (.inr (.inr (.inl ⟨_, htop, .inr hs⟩)))
    · refine .inr (mem_stmts.mpr (.inr (.inr (.inl ⟨f, ?_, hs⟩))))
      rw [stack]
      exact List.mem_cons_of_mem _ hf
  · exact .inr (mem_stmts.mpr (.inr (.inr (.inr hs))))

end EndCase

theorem endCase_ordered {n : Nat} {g : Grouping} {open_ : OpenSwitch} {pattern : Option String}
    {first : Nat} {outer : List Stmt} {frames : List (Frame × List Stmt)} (last : Nat)
    (stack : g.frames = (.case open_ pattern first, outer) :: frames) (hb : g.block = none)
    (h : g.Ordered n) : (endCase g open_ pattern first last outer frames).2.Ordered n := by
  have htop : (.case open_ pattern first, outer) ∈ g.frames := by rw [stack]; exact List.mem_cons_self
  have hrest : ∀ f ∈ frames, f ∈ g.frames := fun f hf => by
    rw [stack]; exact List.mem_cons_of_mem _ hf
  have htidy : (endCase g open_ pattern first last outer frames).1.close.Tidy := by
    have hopen : open_.close.Tidy :=
      h.tidy _ (mem_stmts_of_frame stack (by simp [Frame.stmts]))
    refine Stmt.tidy_iff.mpr fun body hbody => ?_
    rcases mem_bodies_endCase hbody with hbody | rfl
    · exact Stmt.tidy_iff.mp hopen body hbody
    · exact ⟨h.items.increasing_reverse, fun t ht =>
        h.tidy t (mem_stmts.mpr (.inl (List.mem_reverse.mp ht)))⟩
  refine ⟨by simp [endCase], fun b hb' => by simp [endCase, hb] at hb', ?_, h.functions, ?_⟩
  · intro f hf
    rcases List.mem_cons.mp hf with rfl | hf
    · have hline : (endCase g open_ pattern first last outer frames).1.line = open_.line :=
        endCase_line
      have hopen : open_.line.number < n ∧ Descending open_.line.number outer := h.frames _ htop
      rw [← hline] at hopen
      exact hopen
    · exact h.frames f (hrest f hf)
  · intro s hs
    rcases mem_stmts_endCase stack hs with rfl | hs
    · exact htidy
    · exact h.tidy s hs

/-- A line that is placed comes after all that stand before it. -/
theorem Placed.ordered {n : Nat} {e : Entry} {g g' : Grouping} (h : Placed e g g')
    (hn : e.line.number = n) (hb : g.block = none) (ho : g.Ordered n) : g'.Ordered (n + 1) := by
  have hstep : n ≤ n + 1 := Nat.le_succ n
  induction h with
  | skipped hd hk hf => exact ho.mono hstep
  | plain hd hf takes => exact ho.push hb hn (Stmt.tidy_iff.mpr (by simp [Stmt.bodies]))
  | action hd takes => exact ho.push hb hn (Stmt.tidy_iff.mpr (by simp [Stmt.bodies]))
  | loop hd takes =>
    refine ho.openBlock ⟨by omega, hn ▸ ho.items, by simp⟩ ?_
    exact Stmt.tidy_iff.mpr (by simp [OpenBlock.close, Stmt.bodies, Increasing])
  | condition hd takes =>
    refine ho.openBlock ⟨by omega, hn ▸ ho.items, by simp⟩ ?_
    exact Stmt.tidy_iff.mpr (by simp [OpenBlock.close, Stmt.bodies, Increasing])
  | @switch g o hd takes =>
    refine ho.restack hb (by simp) ?_ ho.functions ?_
    · intro f hf
      rcases List.mem_cons.mp hf with rfl | hf
      · exact ⟨by simp [hn], hn ▸ ho.items⟩
      · exact (ho.frames f hf).mono hstep
    · intro s hs
      have hnew : (OpenSwitch.close ⟨e.line, o, [], none⟩).Tidy :=
        Stmt.tidy_iff.mpr (by simp [OpenSwitch.close, Stmt.bodies])
      simp only [mem_stmts, Frame.stmts, List.mem_cons, exists_eq_or_imp] at hs ⊢
      grind
  | @function g name hd top fresh =>
    refine ho.restack hb (by simp) ?_ ho.functions ?_
    · intro f hf
      rw [List.mem_singleton.mp hf]
      exact ho.items.mono hstep
    · intro s hs
      simp only [mem_stmts, Frame.stmts, top, List.mem_cons, exists_eq_or_imp] at hs ⊢
      grind
  | endFunction hd stack =>
    obtain ⟨htop, hrest⟩ := List.forall_mem_cons.mp (stack ▸ ho.frames)
    refine ho.restack hb (Descending.mono htop hstep) (fun f hf => (hrest f hf).mono hstep) ?_ ?_
    · exact List.forall_mem_cons.mpr ⟨ho.items.increasing_reverse, ho.functions⟩
    · intro s hs
      simp only [mem_stmts, Frame.stmts, stack, List.mem_cons, exists_eq_or_imp,
        List.mem_reverse] at hs ⊢
      grind
  | case hd stack =>
    obtain ⟨htop, hrest⟩ := List.forall_mem_cons.mp (stack ▸ ho.frames)
    refine ho.restack hb (by simp) ?_ ho.functions ?_
    · exact List.forall_mem_cons.mpr ⟨htop.mono hstep, fun f hf => (hrest f hf).mono hstep⟩
    · intro s hs
      simp only [mem_stmts, Frame.stmts, stack, List.mem_cons, exists_eq_or_imp] at hs ⊢
      grind
  | default hd stack first =>
    obtain ⟨htop, hrest⟩ := List.forall_mem_cons.mp (stack ▸ ho.frames)
    refine ho.restack hb (by simp) ?_ ho.functions ?_
    · exact List.forall_mem_cons.mpr ⟨htop.mono hstep, fun f hf => (hrest f hf).mono hstep⟩
    · intro s hs
      simp only [mem_stmts, Frame.stmts, stack, List.mem_cons, exists_eq_or_imp] at hs ⊢
      grind
  | endSwitch hd stack =>
    obtain ⟨htop, hrest⟩ := List.forall_mem_cons.mp (stack ▸ ho.frames)
    refine ho.restack hb ?_ (fun f hf => (hrest f hf).mono hstep) ho.functions ?_
    · exact Stmt.descending_cons.mpr (htop.mono hstep)
    · intro s hs
      simp only [mem_stmts, Frame.stmts, stack, List.mem_cons, exists_eq_or_imp] at hs ⊢
      grind
  | endCase hd stack => exact (endCase_ordered _ stack hb ho).mono hstep
  | nextCase stack _ next ih => exact ih hb (endCase_ordered _ stack hb ho)

/-- A text that joins an implicit body comes after all that is in it. -/
theorem add_ordered {n : Nat} {items : List Stmt} {b : OpenBlock} {line : Line}
    (hn : line.number = n) (h : b.Ordered n items) (ht : b.close.Tidy) :
    (b.add (.plain line)).Ordered (n + 1) items ∧ (b.add (.plain line)).close.Tidy := by
  have hplain : (Stmt.plain line).Tidy := Stmt.tidy_iff.mpr (by simp [Stmt.bodies])
  have hcons : ∀ {body : List Stmt}, Descending n body → Descending (n + 1) (.plain line :: body) :=
    fun hbody => Stmt.descending_cons.mpr ⟨by simp [Stmt.line, hn], by simpa [Stmt.line, hn] using hbody⟩
  rw [Stmt.tidy_iff] at ht ⊢
  cases b with
  | loop l c body =>
    obtain ⟨hline, hitems, hbody⟩ := h
    refine ⟨⟨Nat.lt_succ_of_lt hline, hitems, hcons hbody⟩, ?_⟩
    have hinc := (hcons hbody).increasing_reverse
    simp only [OpenBlock.add, OpenBlock.close, Stmt.bodies, List.forall_mem_cons,
      List.mem_reverse] at ht ⊢
    exact ⟨⟨hinc, hplain, ht.1.2⟩, ht.2⟩
  | inThen l c yes =>
    obtain ⟨hline, hitems, hyes⟩ := h
    refine ⟨⟨Nat.lt_succ_of_lt hline, hitems, hcons hyes⟩, ?_⟩
    have hinc := (hcons hyes).increasing_reverse
    simp only [OpenBlock.add, OpenBlock.close, Stmt.bodies, List.forall_mem_cons,
      List.mem_reverse] at ht ⊢
    exact ⟨⟨hinc, hplain, ht.1.2⟩, ht.2⟩
  | inElse l c yes no =>
    obtain ⟨hline, hitems, hyes, hno⟩ := h
    refine ⟨⟨Nat.lt_succ_of_lt hline, hitems, hyes.mono (Nat.le_succ n), hcons hno⟩, ?_⟩
    have hinc := (hcons hno).increasing_reverse
    simp only [OpenBlock.add, OpenBlock.close, Stmt.bodies, List.forall_mem_cons,
      List.mem_reverse] at ht ⊢
    exact ⟨ht.1, ⟨hinc, hplain, ht.2.1.2⟩, ht.2.2⟩

/-- Taking the next line keeps the order. -/
theorem Ordered.step {n : Nat} {g g' : Grouping} {e : Entry} (ho : g.Ordered n)
    (hn : e.line.number = n) (h : g.step e = .ok g') : g'.Ordered (n + 1) := by
  have htidy : ∀ b, g.block = some b → b.close.Tidy := fun b hb =>
    ho.tidy _ (mem_stmts.mpr (.inr (.inl ⟨b, hb, rfl⟩)))
  cases step_stepped h with
  | @added b hd hk hb =>
    obtain ⟨hord, ht⟩ := add_ordered hn (ho.block b hb) (htidy b hb)
    exact ho.openBlock hord ht
  | @otherwise line c yes hd hb =>
    obtain ⟨hline, hitems, hyes⟩ := ho.block _ hb
    refine ho.openBlock ⟨Nat.lt_succ_of_lt hline, hitems, hyes.mono (Nat.le_succ n), by simp⟩ ?_
    simpa [OpenBlock.close] using htidy _ hb
  | endIf hd hin => exact (closeBlock_ordered ho).mono (Nat.le_succ n)
  | placed hplain hend hp => exact hp.ordered hn (closeBlock_block g) (closeBlock_ordered ho)

theorem Ordered.steps {n : Nat} {g g' : Grouping} {entries : List Entry} (ho : g.Ordered n)
    (hn : entries.map (·.line.number) = List.range' n entries.length)
    (h : g.steps entries = .ok g') : g'.Ordered (n + entries.length) := by
  induction entries generalizing g n with
  | nil => cases h; exact ho
  | cons e rest ih =>
    obtain ⟨g₁, hstep, hrest⟩ := steps_cons_eq_ok_iff.mp h
    simp only [List.map_cons, List.length_cons, List.range'_succ, List.cons.injEq] at hn
    have ho' := ih (ho.step hn.1 hstep) hn.2 hrest
    rw [List.length_cons, Nat.add_comm rest.length, ← Nat.add_assoc]
    exact ho'

end Grouping

/-! ## Scripts -/

namespace Script

/-- Every list of a script stands in order. -/
theorem increasing_lists {now : Int} {scope scope' : Scope} {raws : List String}
    {entries : List Entry} {g : Grouping} {script : Script}
    (hread : readLines now scope 1 raws = (.ok entries, scope'))
    (hsteps : Grouping.start.steps entries = .ok g)
    (hscript : ofGrouping g entries.reverse = .ok script) :
    ∀ ss ∈ script.lists, Increasing ss := by
  have hnumbers := readLines_numbers hread
  have hlength : entries.length = raws.length := by simpa using congrArg List.length hnumbers
  rw [← hlength] at hnumbers
  have ho := Grouping.closeBlock_ordered (Grouping.start_ordered.steps hnumbers hsteps)
  unfold ofGrouping at hscript
  split at hscript
  case h_1 => cases hscript
  case h_2 body functions hfinish =>
    cases hscript
    have hstmts := Grouping.finish_stmts_perm hfinish
    have hnodes : ∀ t ∈ Stmt.nodesAll (body ++ functions.flatMap (·.body)),
        ∀ ss ∈ t.bodies, Increasing ss := by
      intro t ht
      obtain ⟨s, hs, ht⟩ := Stmt.mem_nodesAll.mp ht
      exact ho.tidy s (hstmts.mem_iff.mp hs) t ht
    have hlists : Increasing body ∧ ∀ f ∈ functions, Increasing f.body := by
      unfold Grouping.finish at hfinish
      simp only at hfinish
      split at hfinish
      case h_1 =>
        cases hfinish
        exact ⟨ho.items.increasing_reverse, fun f hf => ho.functions f (List.mem_reverse.mp hf)⟩
      case h_2 => cases hfinish
      case h_3 => cases hfinish
      case h_4 => cases hfinish
    intro ss hss
    simp only [lists, List.cons_append, List.mem_cons, List.mem_append, List.mem_map,
      List.mem_flatMap] at hss
    rcases hss with rfl | ⟨f, hf, rfl⟩ | ⟨t, ht, hss⟩
    · exact hlists.1
    · exact hlists.2 f hf
    · exact hnodes t ((nodes_perm _).mem_iff.mp ht) ss hss

/-- The statements of a script are lines that were read one after the other,
    put into lists. -/
structure Regroups (script : Script) (entries : List Entry) : Prop where
  /-- Walking the script visits the nodes one after the other. -/
  walk : script.walk.map Prod.fst = script.nodes.map Stmt.line
  /-- No line is visited twice. -/
  distinct : (script.walk.map (·.1.number)).Nodup
  /-- A node is the line that was read under its number, with its directive. -/
  faithful : ∀ s ∈ script.nodes,
    1 ≤ s.line.number ∧ s.line.number ≤ entries.length ∧
      entries[s.line.number - 1]? = some s.entry
  /-- Within every list the lines stand in their order. -/
  ordered : ∀ ss ∈ script.lists, Increasing ss
  /-- A line is not visited exactly if it is left out. -/
  visited : ∀ before e after, entries = before ++ e :: after →
    (e.line ∉ script.walk.map Prod.fst ↔ leftOut before.reverse e = true)
  /-- Texts and assignments are always visited. -/
  plain : ∀ e ∈ entries, e.line.kind = .text ∨ e.line.kind = .assignment →
    e.line ∈ script.walk.map Prod.fst

section Numbered

variable {script : Script} {entries : List Entry}
  (hnumbers : entries.map (·.line.number) = List.range' 1 entries.length)
include hnumbers

/-- Lines that are numbered without a gap are found by their numbers. -/
theorem getElem?_number {e : Entry} (he : e ∈ entries) :
    1 ≤ e.line.number ∧ e.line.number ≤ entries.length ∧
      entries[e.line.number - 1]? = some e := by
  obtain ⟨i, hi, rfl⟩ := List.getElem_of_mem he
  have hnumber : (entries.map (·.line.number))[i]? = some (1 + i) := by
    rw [hnumbers]
    simp [hi]
  simp only [List.getElem?_map, List.getElem?_eq_getElem hi, Option.map_some,
    Option.some.injEq] at hnumber
  rw [hnumber]
  exact ⟨by omega, by omega, by simp⟩

theorem nodup_numbers : (entries.map (·.line.number)).Nodup := by
  rw [hnumbers]
  exact List.nodup_range'

theorem nodup_entries : entries.Nodup :=
  List.Pairwise.of_map (·.line.number) (fun _ _ hne heq => hne (heq ▸ rfl)) (nodup_numbers hnumbers)

/-- A line is found among the nodes by its number, with its directive. -/
theorem line_mem_nodes_iff (hperm : (script.nodes.map Stmt.entry).Perm (kept entries.reverse))
    {e : Entry} (he : e ∈ entries) :
    e.line ∈ script.nodes.map Stmt.line ↔ e ∈ kept entries.reverse := by
  rw [← hperm.mem_iff]
  constructor
  · intro h
    obtain ⟨s, hs, hline⟩ := List.mem_map.mp h
    have hmem : s.entry ∈ script.nodes.map Stmt.entry := List.mem_map_of_mem hs
    have hkept := (kept_sublist _).mem (hperm.mem_iff.mp hmem)
    have hfound := (getElem?_number hnumbers (List.mem_reverse.mp hkept)).2.2
    have hnumber : s.entry.line.number = e.line.number := congrArg Line.number hline
    rw [hnumber, (getElem?_number hnumbers he).2.2] at hfound
    cases hfound
    exact hmem
  · intro h
    obtain ⟨s, hs, rfl⟩ := List.mem_map.mp h
    exact List.mem_map_of_mem hs

theorem nodup_node_numbers (hperm : (script.nodes.map Stmt.entry).Perm (kept entries.reverse)) :
    (script.nodes.map (·.line.number)).Nodup := by
  have hread : (entries.reverse.map (·.line.number)).Nodup :=
    ((List.reverse_perm entries).map _).nodup_iff.mpr (nodup_numbers hnumbers)
  have hkept := hread.sublist ((kept_sublist entries.reverse).map (·.line.number))
  have hnodes := (hperm.map (·.line.number)).nodup_iff.mpr hkept
  simpa [Function.comp_def, Stmt.entry] using hnodes

/-- A line is no node exactly if it is left out. -/
theorem line_not_mem_nodes_iff (hperm : (script.nodes.map Stmt.entry).Perm (kept entries.reverse))
    {before after : List Entry} {e : Entry} (hsplit : entries = before ++ e :: after) :
    e.line ∉ script.nodes.map Stmt.line ↔ leftOut before.reverse e = true := by
  have hnodup := nodup_entries hnumbers
  rw [hsplit, List.nodup_append] at hnodup
  obtain ⟨-, hnodup, hdisjoint⟩ := hnodup
  have hafter : e ∉ after.reverse := by
    simpa using (List.nodup_cons.mp hnodup).1
  have hbefore : e ∉ before.reverse := fun he =>
    hdisjoint e (List.mem_reverse.mp he) e List.mem_cons_self rfl
  rw [line_mem_nodes_iff hnumbers hperm (by simp [hsplit]), hsplit, List.reverse_append,
    List.reverse_cons, List.append_assoc, List.singleton_append, mem_kept_iff hafter hbefore]
  simp

end Numbered

theorem leftOut_of_plain (before : List Entry) {e : Entry} (he : e.WellRead)
    (hkind : e.line.kind = .text ∨ e.line.kind = .assignment) : leftOut before e = false := by
  have hd : e.directive = none := by
    rcases hkind with hkind | hkind <;>
      simpa [Entry.WellRead, hkind, LineKind.isDirective] using he
  rcases hkind with hkind | hkind <;>
    simp [leftOut, Entry.isLeftOut_of_none hd, hkind, LineKind.isSkipped]

/-- Parsing a text reads its lines in order, each once and in the scope that the
    ones before it leave, and regroups them. -/
theorem parse_regroups {now : Int} {scope scope' : Scope} {text : String} {script : Script}
    (h : parse now scope text = (.ok script, scope')) :
    ∃ entries, readLines now scope 1 (Text.lines text) = (.ok entries, scope') ∧
      entries.length = (Text.lines text).length ∧ script.Regroups entries := by
  obtain ⟨entries, g, hread, hsteps, hscript⟩ := parseLines_eq_ok_iff.mp h
  have hnumbers := readLines_numbers hread
  have hlength : entries.length = (Text.lines text).length := by
    simpa using congrArg List.length hnumbers
  rw [← hlength] at hnumbers
  have hperm := heads_perm_kept hread hsteps hscript
  have hwalk := map_walk_eq_map_nodes script
  refine ⟨entries, hread, hlength, hwalk, ?_, ?_, ?_, ?_, ?_⟩
  · have hmap : script.walk.map (·.1.number) = script.nodes.map (·.line.number) := by
      simpa [Function.comp_def] using congrArg (List.map Line.number) hwalk
    rw [hmap]
    exact nodup_node_numbers hnumbers hperm
  · intro s hs
    have hkept := hperm.mem_iff.mp (List.mem_map_of_mem hs)
    exact getElem?_number hnumbers (List.mem_reverse.mp ((kept_sublist _).mem hkept))
  · exact increasing_lists hread hsteps hscript
  · intro before e after hsplit
    rw [hwalk]
    exact line_not_mem_nodes_iff hnumbers hperm hsplit
  · intro e he hkind
    obtain ⟨before, after, hsplit⟩ := List.append_of_mem he
    have hwell : e.WellRead := readLines_forall (fun h => (Line.read_ok h).2) hread e he
    have hkeep := leftOut_of_plain before.reverse hwell hkind
    rw [hwalk]
    refine Decidable.byContradiction fun hnot => ?_
    rw [(line_not_mem_nodes_iff hnumbers hperm hsplit).mp hnot] at hkeep
    cases hkeep

/-- A function with a blank line in it, and a condition with both of its parts. -/
theorem parse_regroups_branch :
    let text := "<function f>\n\n$1\n<end-function>\n<if-found \"a\" 5s>\nb\n<else>\nN=1"
    ∃ script scope', parse 0 .empty text = (.ok script, scope') ∧
      script.walk.map (·.1.number) = [5, 6, 8, 3] ∧
      ∃ entries, readLines 0 .empty 1 (Text.lines text) = (.ok entries, scope') ∧
        entries.length = (Text.lines text).length ∧ script.Regroups entries := by
  intro text
  have hwalk : (parse 0 .empty text).1.toOption.map (·.walk.map (·.1.number)) =
      some [5, 6, 8, 3] := by
    decide +kernel
  rcases hparse : parse 0 .empty text with ⟨_ | script, scope'⟩
  · simp [hparse, Except.toOption] at hwalk
  · refine ⟨script, scope', rfl, ?_, parse_regroups hparse⟩
    simpa [hparse, Except.toOption] using hwalk

end Script

end ConsoleScript
