-- SUMMARY: Every function and every part of a switch that grouping makes has the range of its lines.
import ConsoleScript.Proofs.Script.Ranges

/-!
# Grouping keeps ranges

`Grouping.Ranged` says that the ranges of all that was made are right, and that the
frames are open. Each line keeps it (`Ranged.step`), and so do all lines
(`Ranged.steps`).

A part that has no `<end-case>` is ended by the marker that comes next, before that
line is taken. So the lines that ranges refer to may be one more than the lines that
the frames have seen.
-/

namespace ConsoleScript

/-! ## Groupings -/

namespace Grouping

/-- The ranges of all that a grouping made are right for the lines `lines`, and its frames are
    open after the lines `before`. -/
structure Ranged (lines before : List Entry) (g : Grouping) : Prop where
  stmts : ∀ s ∈ g.stmts, s.DeepLaid lines
  stack : Stacked before g.functions g.closeBlock.items g.frames
  functions : ∀ f ∈ g.functions, f.Laid before
  order : g.functions.Pairwise fun f f' => f'.last < f.first
  level : before.countP Entry.endsSwitch + switchFrames g.frames =
    before.countP Entry.opensSwitch

theorem start_ranged : start.Ranged [] [] where
  stmts := by simp [start, stmts]
  stack := by simp [start, closeBlock, Stacked]
  functions := by simp [start]
  order := by simp [start]
  level := rfl

variable {g g' : Grouping} {lines before : List Entry} {e : Entry}

theorem closeBlock_items_of_none (h : g.block = none) : g.closeBlock.items = g.items := by
  rw [closeBlock_of_none h]

theorem closeBlock_items_of_some {b : OpenBlock} (h : g.block = some b) :
    g.closeBlock.items = b.close :: g.items := by
  simp [Grouping.closeBlock, Grouping.push, h]

theorem mem_heads_of_items {x : Entry} (hx : x ∈ Stmt.headsAll g.items) : x ∈ g.heads := by
  simp [heads, stmts, hx]

@[simp] theorem closeBlock_functions (g : Grouping) : g.closeBlock.functions = g.functions := by
  unfold closeBlock
  split <;> rfl

theorem Ranged.closeBlock (h : g.Ranged lines before) : g.closeBlock.Ranged lines before where
  stmts s hs := h.stmts s (g.closeBlock_stmts_perm.mem_iff.mp hs)
  stack := by
    rw [closeBlock_items_of_none (closeBlock_block g), closeBlock_functions, closeBlock_frames]
    exact h.stack
  functions := by rw [closeBlock_functions]; exact h.functions
  order := by rw [closeBlock_functions]; exact h.order
  level := by rw [closeBlock_frames]; exact h.level

theorem Ranged.lastLine (h : g.Ranged lines before)
    (hnew : ∀ y ∈ before, y.line.number < e.line.number) :
    ∀ f ∈ g.functions, f.last < e.line.number := by
  intro f hf
  obtain ⟨ending, hmem, hlast, -⟩ := (h.functions f hf).ends
  exact hlast ▸ hnew ending hmem

/-- The level of the next line. -/
theorem Ranged.switchLevel_eq (h : g.Ranged lines before) {n : Nat}
    (hnew : ∀ y ∈ before, y.line.number < n) : switchLevel before n = switchFrames g.frames := by
  have hlevel := h.level
  rw [switchLevel, countBefore_eq_countP hnew, countBefore_eq_countP hnew]
  omega

/-! ## Lines that end nothing -/

/-- A line that neither opens nor marks a switch, and ends no function. -/
structure Quiet (e : Entry) : Prop where
  opens : e.opensSwitch = false
  marks : e.marksSwitch = false
  function : e.directive ≠ some (.marker .endFunction)

/-- All lines are quiet but those that open a switch, and the markers. -/
theorem Quiet.of_ne (hswitch : ∀ o, e.directive ≠ some (.switch o))
    (hmarker : ∀ m, e.directive ≠ some (.marker m)) : Quiet e := by
  cases hd : e.directive with
  | none => exact ⟨by simp [Entry.opensSwitch, hd], by simp [Entry.marksSwitch, hd], by simp [hd]⟩
  | some d =>
    cases d with
    | switch o => exact absurd hd (hswitch o)
    | marker m => exact absurd hd (hmarker m)
    | action a | loop l | condition c =>
      exact ⟨by simp [Entry.opensSwitch, hd], by simp [Entry.marksSwitch, hd, endsCase],
        by simp [hd]⟩

theorem Quiet.endsSwitch (h : Quiet e) : e.endsSwitch = false :=
  Bool.eq_false_iff.mpr fun hends =>
    Bool.eq_false_iff.mp h.marks (Entry.marksSwitch_of_endsSwitch hends)

/-- A line that joins the innermost body. -/
theorem Ranged.extend (h : g.Ranged (before ++ [e]) before)
    (hnew : ∀ y ∈ before, y.line.number < e.line.number) (hquiet : Quiet e)
    (hframes : g'.frames = g.frames) (hfunctions : g'.functions = g.functions)
    (hstmts : ∀ s ∈ g'.stmts, s ∈ g.stmts ∨ s.DeepLaid (before ++ [e]))
    (hitems : ∀ x ∈ Stmt.headsAll g'.closeBlock.items,
      x ∈ Stmt.headsAll g.closeBlock.items ∨ x.line.number = e.line.number) :
    g'.Ranged (before ++ [e]) (before ++ [e]) where
  stmts s hs := (hstmts s hs).elim (h.stmts s) id
  stack := by
    rw [hframes, hfunctions]
    refine (h.stack.grow fun x hx => ?_).append hnew hquiet.function (by simp [hquiet.marks])
    refine (hitems x hx).imp_right fun hnumber => ?_
    rw [hnumber]
    exact ⟨h.lastLine hnew, h.stack.first_lt hnew⟩
  functions f hf := (h.functions f (hfunctions ▸ hf)).append hnew
  order := hfunctions ▸ h.order
  level := by simpa [hframes, hquiet.opens, hquiet.endsSwitch] using h.level

/-! ## The end of a part -/

section EndCase

variable {open_ : OpenSwitch} {pattern : Option String} {first last : Nat} {outer : List Stmt}
  {frames : List (Frame × List Stmt)}

theorem mem_heads_endCase {x : Entry}
    (h : x ∈ (endCase g open_ pattern first last outer frames).1.close.heads) :
    x ∈ open_.close.heads ∨ x ∈ Stmt.headsAll g.items := by
  obtain ⟨t, ht, rfl⟩ := List.mem_map.mp h
  rw [Stmt.nodes_eq_cons] at ht
  rcases List.mem_cons.mp ht with rfl | ht
  · left
    rw [endCase_entry]
    exact List.mem_map_of_mem (Stmt.mem_nodes_self _)
  · obtain ⟨body, hbody, ht⟩ := List.mem_flatMap.mp ht
    rcases mem_bodies_endCase hbody with hbody | rfl
    · exact .inl (List.mem_map_of_mem (Stmt.mem_nodes_of_body hbody ht))
    · exact .inr ((Stmt.headsAll_reverse_perm g.items).mem_iff.mp (List.mem_map_of_mem ht))

/-- The switch of a part that has ended. -/
theorem endCase_deepLaid
    (hpart : PartOf lines open_.line.number pattern first last g.items.reverse)
    (horder : ∀ c ∈ open_.cases, c.first < first) (hopen : open_.close.DeepLaid lines)
    (hitems : ∀ s ∈ g.items, s.DeepLaid lines) :
    (endCase g open_ pattern first last outer frames).1.close.DeepLaid lines := by
  obtain ⟨hlaid, hbodies⟩ := Stmt.deepLaid_iff.mp hopen
  refine Stmt.deepLaid_iff.mpr ⟨?_, fun body hbody t ht => ?_⟩
  · obtain ⟨hopens, hlevel, hparts, hpairs, hdefault⟩ := hlaid
    cases pattern with
    | none =>
      refine ⟨hopens, hlevel, hparts, hpairs, fun body hbody => ?_⟩
      cases hbody
      exact ⟨first, last, hpart⟩
    | some pattern =>
      refine ⟨hopens, hlevel, fun c hc => ?_, ?_, hdefault⟩
      · rcases List.mem_cons.mp (List.mem_reverse.mp hc) with rfl | hc
        · exact hpart
        · exact hparts c (List.mem_reverse.mpr hc)
      · refine List.pairwise_reverse.mpr (List.pairwise_cons.mpr ⟨fun c hc => ?_, ?_⟩)
        · exact horder c hc
        · exact List.pairwise_reverse.mp hpairs
  · rcases mem_bodies_endCase hbody with hbody | rfl
    · exact hbodies body hbody t ht
    · exact hitems t (List.mem_reverse.mp ht)

/-- The next marker on the level of a part ends it. -/
theorem PartOpen.partOf {l : Nat} (hnew : ∀ y ∈ before, y.line.number < e.line.number)
    (hswitch : SwitchOpen before g.functions l open_.line.number)
    (hpart : PartOpen before l open_ pattern first) (hmarks : e.marksSwitch = true)
    (hlevel : switchLevel before e.line.number = l)
    (hinside : ∀ x ∈ Stmt.headsAll g.items,
      first < x.line.number ∧ x.line.number < e.line.number) :
    PartOf (before ++ [e]) open_.line.number pattern first e.lastOfPart g.items.reverse := by
  obtain ⟨opening, hopening, hline⟩ := hswitch.opens
  obtain ⟨marker, hmarker, rfl, hbegins⟩ := hpart.begins
  have hfirst := hnew marker hmarker
  have hl : switchLevel (before ++ [e]) open_.line.number + 1 = l := by
    rw [switchLevel_append (hline ▸ (hnew opening hopening).le), hswitch.level]
  refine ⟨⟨⟨marker, List.mem_append_left _ hmarker, rfl, hbegins⟩, ?_, e, ?_, rfl⟩, hpart.after,
    fun x hx hlt hxfirst hends => ?_, fun x hx => ?_⟩
  · rw [switchLevel_append hfirst.le, hpart.level, hl]
  · rw [hl]
    exact hpart.unended.nextAt hnew hfirst hmarks hlevel
  · have hx := mem_of_mem_append hx (by omega)
    rw [hl, switchLevel_append (hnew x hx).le]
    exact hswitch.unended x hx hlt hends
  · obtain ⟨hlt, hbefore⟩ := hinside x ((Stmt.headsAll_reverse_perm g.items).mem_iff.mp hx)
    exact ⟨hlt, Entry.le_lastOfPart hbefore⟩

/-- A marker ends the part that is open, whether or not it is taken already. -/
theorem endCase_ranged (stack : g.frames = (.case open_ pattern first, outer) :: frames)
    (hb : g.block = none) (hnew : ∀ y ∈ before, y.line.number < e.line.number)
    (hmarks : e.marksSwitch = true)
    (hheads : ∀ x ∈ Stmt.headsAll g.items, x.line.number < e.line.number)
    (h : g.Ranged (before ++ [e]) before) :
    (endCase g open_ pattern first e.lastOfPart outer frames).2.Ranged (before ++ [e]) before := by
  have hlevel := h.switchLevel_eq hnew
  have hstack := h.stack
  rw [stack, closeBlock_items_of_none hb] at hstack
  rw [stack, switchFrames_cons] at hlevel
  obtain ⟨⟨hswitch, hpart⟩, hinside, hrest⟩ := hstack
  have hitems : ∀ s ∈ g.items, s.DeepLaid (before ++ [e]) := fun s hs =>
    h.stmts s (mem_stmts.mpr (.inl hs))
  have hopen : open_.close.DeepLaid (before ++ [e]) :=
    h.stmts _ (mem_stmts_of_frame stack (by simp [Frame.stmts]))
  have hpartOf := PartOpen.partOf hnew hswitch hpart hmarks hlevel fun x hx =>
    ⟨hinside x hx, hheads x hx⟩
  have hclose : (endCase g open_ pattern first e.lastOfPart outer frames).1.close.DeepLaid
      (before ++ [e]) := endCase_deepLaid hpartOf hpart.order hopen hitems
  refine ⟨fun s hs => ?_, ?_, h.functions, h.order, ?_⟩
  · rcases mem_stmts_endCase stack hs with rfl | hs
    · exact hclose
    · exact h.stmts s hs
  · have hframes : (endCase g open_ pattern first e.lastOfPart outer frames).2.frames =
        (.switch (endCase g open_ pattern first e.lastOfPart outer frames).1, outer) :: frames :=
      rfl
    have hopens : SwitchOpen before g.functions (switchFrames frames + 1)
        (endCase g open_ pattern first e.lastOfPart outer frames).1.line.number := by
      rw [endCase_line]
      exact hswitch
    rw [closeBlock_items_of_none (by simpa [endCase] using hb), hframes]
    refine ⟨hopens, by simp [endCase], hrest.grow fun x hx => ?_⟩
    simp only [Frame.stmts, List.singleton_append, Stmt.headsAll_cons, List.mem_append] at hx ⊢
    rcases hx with hx | hx
    · refine (mem_heads_endCase hx).imp .inl fun hx => ?_
      -- what the part holds comes after the switch, and that after the beginnings around it
      have hfirst : first < x.line.number := hinside x hx
      have hafter := hpart.after
      have hhead : open_.close.entry ∈ Stmt.headsAll ([open_.close] ++ outer) :=
        List.mem_map_of_mem (Stmt.mem_nodesAll.mpr ⟨_, by simp, Stmt.mem_nodes_self _⟩)
      refine ⟨fun f hf => ?_, fun f hf => ?_⟩
      · have hlast := hswitch.later f hf
        omega
      · have hline : f.1.first < open_.line.number := hrest.inside hhead f hf
        omega
    · exact .inl (.inr hx)
  · have hcount := h.level
    rw [stack, switchFrames_cons] at hcount
    simpa [endCase, Frame.isSwitch] using hcount

end EndCase

/-! ## Placing a line -/

section Placing

variable (hnew : ∀ y ∈ before, y.line.number < e.line.number)
  (h : g.Ranged (before ++ [e]) before)
include hnew h

/-- A statement of a single line joins the innermost body. -/
theorem Ranged.push {s : Stmt} (hb : g.block = none) (hquiet : Quiet e)
    (hlaid : s.DeepLaid (before ++ [e])) (hheads : ∀ x ∈ s.heads, x.line.number = e.line.number) :
    (g.push s).Ranged (before ++ [e]) (before ++ [e]) := by
  refine h.extend hnew hquiet rfl rfl (fun t ht => ?_) fun x hx => ?_
  · rcases List.mem_cons.mp ht with rfl | ht
    · exact .inr hlaid
    · exact .inl ht
  · rw [closeBlock_items_of_none (g := g.push s) hb] at hx
    rw [closeBlock_items_of_none hb]
    rcases List.mem_append.mp ((Stmt.headsAll_cons s g.items) ▸ hx) with hx | hx
    · exact .inr (hheads x hx)
    · exact .inl hx

/-- An implicit body begins. -/
theorem Ranged.openBlock {b : OpenBlock} (hb : g.block = none) (hquiet : Quiet e)
    (hlaid : b.close.DeepLaid (before ++ [e]))
    (hheads : ∀ x ∈ b.close.heads, x.line.number = e.line.number) :
    Ranged (before ++ [e]) (before ++ [e]) { g with block := some b } := by
  refine h.extend hnew hquiet rfl rfl (fun t ht => ?_) fun x hx => ?_
  · rcases mem_stmts.mp ht with ht | ⟨b', hb', rfl⟩ | ht
    · exact .inl (mem_stmts.mpr (.inl ht))
    · cases hb'
      exact .inr hlaid
    · exact .inl (mem_stmts.mpr (.inr (.inr ht)))
  · rw [closeBlock_items_of_none hb]
    rw [closeBlock_items_of_some (g := { g with block := some b }) rfl] at hx
    rcases List.mem_append.mp ((Stmt.headsAll_cons b.close g.items) ▸ hx) with hx | hx
    · exact .inr (hheads x hx)
    · exact .inl hx

/-- A switch begins. -/
theorem Ranged.beginSwitch {o : SwitchOptions} (hb : g.block = none)
    (hd : e.directive = some (.switch o)) :
    Ranged (before ++ [e]) (before ++ [e]) { g with
      items := [], frames := (.switch ⟨e.line, o, [], none⟩, g.items) :: g.frames } := by
  have hopens : e.opensSwitch = true := by simp [Entry.opensSwitch, hd]
  have hends : e.endsSwitch = false := by simp [Entry.endsSwitch, hd]
  have hmarks : e.marksSwitch = false := by simp [Entry.marksSwitch, hd, endsCase]
  have hlevel : switchLevel (before ++ [e]) e.line.number = switchFrames g.frames := by
    rw [switchLevel_append (Nat.le_refl _), h.switchLevel_eq hnew]
  have hcount : (before ++ [e]).countP Entry.endsSwitch + (switchFrames g.frames + 1) =
      (before ++ [e]).countP Entry.opensSwitch := by
    have hlevel := h.level
    simp only [List.countP_append, List.countP_singleton, hopens, hends, if_true,
      Bool.false_eq_true, if_false]
    omega
  have hlast : ∀ y ∈ before ++ [e], y.line.number < e.line.number + 1 := fun y hy =>
    Nat.lt_succ_of_le (le_of_mem_append hnew hy)
  have hnext : switchLevel (before ++ [e]) (e.line.number + 1) = switchFrames g.frames + 1 := by
    rw [switchLevel, countBefore_eq_countP hlast, countBefore_eq_countP hlast]
    omega
  have hswitch : (OpenSwitch.close ⟨e.line, o, [], none⟩).DeepLaid (before ++ [e]) := by
    refine Stmt.deepLaid_of_bodies ⟨⟨e, by simp, rfl⟩, ?_, ?_, ?_, ?_⟩ rfl
    · rw [hlevel, hnext]
    · intro c hc
      cases hc
    · exact .nil
    · intro body hbody
      cases hbody
  refine ⟨fun s hs => ?_, ?_, fun f hf => (h.functions f hf).append hnew, h.order, ?_⟩
  · have hold : s ∈ g.stmts ∨ s = OpenSwitch.close ⟨e.line, o, [], none⟩ := by
      simp only [mem_stmts, Frame.stmts, List.mem_cons, exists_eq_or_imp] at hs ⊢
      grind
    rcases hold with hold | rfl
    · exact h.stmts s hold
    · exact hswitch
  · rw [closeBlock_items_of_none (g := { g with items := [], frames := _ }) hb]
    refine ⟨⟨⟨e, by simp, rfl⟩, by rw [hlevel],
      fun x hx hlt => absurd hlt (le_of_mem_append hnew hx).not_gt, h.lastLine hnew⟩, by simp, ?_⟩
    refine (h.stack.grow fun x hx => ?_).append hnew (by simp [hd]) (by simp [hmarks])
    rw [closeBlock_items_of_none hb]
    simp only [Frame.stmts, List.singleton_append, Stmt.headsAll_cons, List.mem_append] at hx
    rcases hx with hx | hx
    · right
      have hx : x = ⟨e.line, some (.switch o)⟩ := by
        simpa [OpenSwitch.close, Stmt.heads_switch] using hx
      rw [hx]
      exact ⟨h.lastLine hnew, h.stack.first_lt hnew⟩
    · exact .inl hx
  · simpa [Frame.isSwitch] using hcount

/-- A function begins. -/
theorem Ranged.beginFunction {name : String} (hb : g.block = none) (htop : g.frames = [])
    (hheads : ∀ x ∈ Stmt.headsAll g.items, x.line.number < e.line.number)
    (hd : e.directive = some (.marker (.function name))) :
    Ranged (before ++ [e]) (before ++ [e]) { g with
      items := [], frames := [(.function name e.line.number, g.items)] } := by
  have hlevel := h.switchLevel_eq hnew
  have hstack := h.stack
  rw [htop] at hlevel hstack
  rw [closeBlock_items_of_none hb] at hstack
  refine ⟨fun s hs => ?_, ?_, fun f hf => (h.functions f hf).append hnew, h.order, ?_⟩
  · refine h.stmts s ?_
    simp only [mem_stmts, Frame.stmts, htop, List.mem_cons, exists_eq_or_imp] at hs ⊢
    grind
  · rw [closeBlock_items_of_none (g := { g with items := [], frames := _ }) hb]
    refine ⟨⟨⟨e, by simp, rfl, hd⟩, ?_, fun x hx hlt => ?_, h.lastLine hnew, hheads, rfl⟩,
      by simp, hstack⟩
    · rw [switchLevel_append (Nat.le_refl _), hlevel, switchFrames_nil]
    · exact absurd hlt (le_of_mem_append hnew hx).not_gt
  · have hcount := h.level
    simpa [htop, Frame.isSwitch, Entry.opensSwitch, Entry.endsSwitch, hd] using hcount

/-- A function ends. -/
theorem Ranged.endFunction {name : String} {first : Nat} {outer : List Stmt}
    {frames : List (Frame × List Stmt)} (hb : g.block = none)
    (stack : g.frames = (.function name first, outer) :: frames)
    (hheads : ∀ x ∈ Stmt.headsAll g.items, x.line.number < e.line.number)
    (hd : e.directive = some (.marker .endFunction)) :
    Ranged (before ++ [e]) (before ++ [e]) { g with
      items := outer, frames := frames
      functions := ⟨name, first, e.line.number, g.items.reverse⟩ :: g.functions } := by
  have hlevel := h.switchLevel_eq hnew
  have hstack := h.stack
  have hcount := h.level
  rw [stack] at hlevel hstack hcount
  rw [closeBlock_items_of_none hb] at hstack
  obtain ⟨⟨⟨opening, hopening, rfl, hbegins⟩, hfirst, hunended, hlater, houtside, rfl⟩, hinside,
    hrest⟩ := hstack
  have hlt := hnew opening hopening
  have hfunction : Function.Laid (before ++ [e])
      ⟨name, opening.line.number, e.line.number, g.items.reverse⟩ := by
    refine ⟨⟨opening, List.mem_append_left _ hopening, rfl, hbegins⟩, ⟨e, by simp, rfl, hd⟩, hlt,
      fun x hx hxfirst hxlast => ?_, ?_, ?_, fun x hx => ?_⟩
    · exact hunended x (mem_of_mem_append hx hxlast) hxfirst
    · exact (switchLevel_append hlt.le).trans hfirst
    · exact (switchLevel_append (Nat.le_refl _)).trans hlevel
    · have hx := (Stmt.headsAll_reverse_perm g.items).mem_iff.mp hx
      exact ⟨hinside x hx, hheads x hx⟩
  refine ⟨fun s hs => ?_, ?_, ?_, List.pairwise_cons.mpr ⟨hlater, h.order⟩, ?_⟩
  · refine h.stmts s ?_
    simp only [mem_stmts, Frame.stmts, stack, List.mem_cons, exists_eq_or_imp,
      List.mem_reverse] at hs ⊢
    grind
  · rw [closeBlock_items_of_none (g := { g with items := outer, frames := [], functions := _ }) hb]
    intro f hf x hx
    rcases List.mem_cons.mp hf with rfl | hf
    · exact .inl (houtside x hx)
    · exact hrest f hf x hx
  · exact List.forall_mem_cons.mpr ⟨hfunction, fun f hf => (h.functions f hf).append hnew⟩
  · simpa [Frame.isSwitch, Entry.opensSwitch, Entry.endsSwitch, hd] using hcount

/-- What a marker that does not end its switch leaves open. -/
theorem Ranged.mark {open_ : OpenSwitch} {outer : List Stmt} {frames : List (Frame × List Stmt)}
    (stack : g.frames = (.switch open_, outer) :: frames) (hends : e.endsSwitch = false)
    (hfunction : e.directive ≠ some (.marker .endFunction)) :
    SwitchOpen (before ++ [e]) g.functions (switchFrames frames + 1) open_.line.number ∧
      Stacked (before ++ [e]) g.functions (open_.close :: outer) frames := by
  have hlevel := h.switchLevel_eq hnew
  have hstack := h.stack
  rw [stack] at hlevel hstack
  refine ⟨SwitchOpen.append hnew hstack.1 (by simp [hends]), hstack.2.2.append hnew hfunction ?_⟩
  intro _
  rw [hlevel, switchFrames_cons]
  simp [Frame.isSwitch]

/-- A part of a switch begins. -/
theorem Ranged.beginPart {open_ : OpenSwitch} {outer : List Stmt}
    {frames : List (Frame × List Stmt)} (pattern : Option String) (hb : g.block = none)
    (stack : g.frames = (.switch open_, outer) :: frames)
    (hd : e.directive = some (.marker (partMarker pattern))) :
    Ranged (before ++ [e]) (before ++ [e]) { g with
      items := [], frames := (.case open_ pattern e.line.number, outer) :: frames } := by
  obtain ⟨-, hends, -⟩ := Entry.of_partMarker hd
  have hopens : e.opensSwitch = false := by
    cases pattern <;> simp [Entry.opensSwitch, hd, partMarker]
  have hfunction : e.directive ≠ some (.marker .endFunction) := by
    cases pattern <;> simp [hd, partMarker]
  obtain ⟨hswitch, hrest⟩ := h.mark hnew stack hends hfunction
  have hlevel := h.switchLevel_eq hnew
  have hcount := h.level
  rw [stack] at hlevel hcount
  refine ⟨fun s hs => ?_, ?_, fun f hf => (h.functions f hf).append hnew, h.order, ?_⟩
  · refine h.stmts s ?_
    simp only [mem_stmts, Frame.stmts, stack, List.mem_cons, exists_eq_or_imp] at hs ⊢
    grind
  · rw [closeBlock_items_of_none (g := { g with items := [], frames := _ }) hb]
    refine ⟨⟨hswitch, ⟨e, by simp, rfl, hd⟩, ?_, fun x hx hlt => ?_, ?_, fun c hc => ?_⟩, by simp,
      hrest⟩
    · rw [switchLevel_append (Nat.le_refl _), hlevel, switchFrames_cons]
      rfl
    · exact absurd hlt (le_of_mem_append hnew hx).not_gt
    · have hstack := h.stack
      rw [stack] at hstack
      obtain ⟨opening, hopening, hline⟩ := SwitchOpen.opens hstack.1
      exact hline ▸ hnew opening hopening
    · have hopen : open_.close.DeepLaid (before ++ [e]) :=
        h.stmts _ (mem_stmts_of_frame stack (by simp [Frame.stmts]))
      obtain ⟨closer, hnext, -⟩ :=
        (SwitchLaid.parts (hopen _ (Stmt.mem_nodes_self _)) c (List.mem_reverse.mpr hc)).part.ends
      exact hnext.after.trans_le (le_of_mem_append hnew hnext.mem)
  · simpa [Frame.isSwitch, hopens, hends] using hcount

/-- The end of a part is taken. -/
theorem Ranged.endPart {open_ : OpenSwitch} {outer : List Stmt} {frames : List (Frame × List Stmt)}
    (hb : g.block = none) (stack : g.frames = (.switch open_, outer) :: frames)
    (hitems : g.items = []) (hd : e.directive = some (.marker .endCase)) :
    g.Ranged (before ++ [e]) (before ++ [e]) := by
  have hends : e.endsSwitch = false := by simp [Entry.endsSwitch, hd]
  obtain ⟨hswitch, hrest⟩ := h.mark hnew stack hends (by simp [hd])
  refine ⟨h.stmts, ?_, fun f hf => (h.functions f hf).append hnew, h.order, ?_⟩
  · rw [closeBlock_items_of_none hb, stack, hitems]
    exact ⟨hswitch, by simp, hrest⟩
  · simpa [Entry.opensSwitch, hd, hends] using h.level

/-- A switch ends. -/
theorem Ranged.endSwitch {open_ : OpenSwitch} {outer : List Stmt}
    {frames : List (Frame × List Stmt)} (hb : g.block = none)
    (stack : g.frames = (.switch open_, outer) :: frames)
    (hd : e.directive = some (.marker .endSwitch)) :
    Ranged (before ++ [e]) (before ++ [e])
      { g with items := open_.close :: outer, frames := frames } := by
  have hlevel := h.switchLevel_eq hnew
  have hstack := h.stack
  have hcount := h.level
  rw [stack] at hlevel hstack hcount
  refine ⟨fun s hs => ?_, ?_, fun f hf => (h.functions f hf).append hnew, h.order, ?_⟩
  · refine h.stmts s ?_
    simp only [mem_stmts, Frame.stmts, stack, List.mem_cons, exists_eq_or_imp] at hs ⊢
    grind
  · rw [closeBlock_items_of_none (g := { g with items := _, frames := frames }) hb]
    refine hstack.2.2.append hnew (by simp [hd]) fun _ => ?_
    rw [hlevel, switchFrames_cons]
    simp [Frame.isSwitch]
  · have hends : e.endsSwitch = true := by simp [Entry.endsSwitch, hd]
    have hopens : e.opensSwitch = false := by simp [Entry.opensSwitch, hd]
    simp only [switchFrames_cons, Frame.isSwitch, if_true] at hcount
    simp only [List.countP_append, List.countP_singleton, hends, hopens, if_true,
      Bool.false_eq_true, if_false]
    omega

end Placing

theorem Placed.ne_endCase {open_ : OpenSwitch} {outer : List Stmt}
    {frames : List (Frame × List Stmt)} (h : Placed e g g')
    (stack : g.frames = (.switch open_, outer) :: frames) :
    e.directive ≠ some (.marker .endCase) := by
  cases h with
  | endCase hd hstack => simp [stack] at hstack
  | nextCase hstack _ _ => simp [stack] at hstack
  | _ => simp_all

/-- Placing a line keeps the ranges. -/
theorem Placed.ranged (hp : Placed e g g') (hb : g.block = none)
    (hnew : ∀ y ∈ before, y.line.number < e.line.number)
    (hheads : ∀ x ∈ Stmt.headsAll g.items, x.line.number < e.line.number)
    (h : g.Ranged (before ++ [e]) before) : g'.Ranged (before ++ [e]) (before ++ [e]) := by
  induction hp with
  | skipped hd hk hf =>
    exact h.extend hnew (.of_ne (by simp [hd]) (by simp [hd])) rfl rfl (fun s hs => .inl hs)
      fun x hx => .inl hx
  | plain hd hf takes =>
    exact h.push hnew hb (.of_ne (by simp [hd]) (by simp [hd]))
      (Stmt.deepLaid_of_bodies trivial rfl) (by simp)
  | action hd takes =>
    exact h.push hnew hb (.of_ne (by simp [hd]) (by simp [hd]))
      (Stmt.deepLaid_of_bodies trivial rfl) (by simp)
  | loop hd takes =>
    exact h.openBlock hnew hb (.of_ne (by simp [hd]) (by simp [hd]))
      (Stmt.deepLaid_of_bodies trivial rfl) (by simp [OpenBlock.close])
  | condition hd takes =>
    exact h.openBlock hnew hb (.of_ne (by simp [hd]) (by simp [hd]))
      (Stmt.deepLaid_of_bodies trivial rfl) (by simp [OpenBlock.close])
  | switch hd takes => exact h.beginSwitch hnew hb hd
  | function hd top fresh => exact h.beginFunction hnew hb top hheads hd
  | endFunction hd stack => exact h.endFunction hnew hb stack hheads hd
  | case hd stack => exact h.beginPart hnew (some _) hb stack hd
  | default hd stack first => exact h.beginPart hnew none hb stack hd
  | endSwitch hd stack => exact h.endSwitch hnew hb stack hd
  | @endCase g open_ pattern first outer frames hd stack =>
    have hlast : e.lastOfPart = e.line.number := by simp [Entry.lastOfPart, hd]
    have hended := endCase_ranged stack hb hnew (by simp [Entry.marksSwitch, hd, endsCase]) hheads h
    rw [hlast] at hended
    exact hended.endPart hnew hb rfl rfl hd
  | @nextCase g g' open_ pattern first outer frames stack marker next ih =>
    have hlast : e.lastOfPart = e.line.number - 1 := by
      unfold Entry.lastOfPart
      split
      case h_1 hd => exact absurd hd (next.ne_endCase rfl)
      case h_2 => rfl
    have hended := endCase_ranged stack hb hnew marker hheads h
    rw [hlast] at hended
    have hnone : ∀ x ∈ Stmt.headsAll
        (g.endCase open_ pattern first (e.line.number - 1) outer frames).2.items,
        x.line.number < e.line.number := by
      simp [Grouping.endCase]
    exact ih hb hnone hended

/-! ## One line -/

/-- A text that joins an implicit body changes no range. -/
theorem add_deepLaid {b : OpenBlock} {line : Line} (h : b.close.DeepLaid lines) :
    (b.add (.plain line)).close.DeepLaid lines := by
  have hline : (Stmt.plain line).DeepLaid lines := Stmt.deepLaid_of_bodies trivial rfl
  obtain ⟨-, hbodies⟩ := Stmt.deepLaid_iff.mp h
  refine Stmt.deepLaid_iff.mpr ⟨by cases b <;> trivial, fun body hbody t ht => ?_⟩
  have hold : t = .plain line ∨ ∃ body ∈ b.close.bodies, t ∈ body := by
    cases b <;> simp [OpenBlock.add, OpenBlock.close, Stmt.bodies] at hbody ht ⊢ <;> grind
  rcases hold with rfl | ⟨body, hbody, ht⟩
  · exact hline
  · exact hbodies body hbody t ht

/-- Taking a line keeps the ranges. -/
theorem Ranged.step (h : g.Ranged before before)
    (hheads : ∀ x ∈ g.heads, x.line.number < e.line.number)
    (hnew : ∀ y ∈ before, y.line.number < e.line.number) (hstep : g.step e = .ok g') :
    g'.Ranged (before ++ [e]) (before ++ [e]) := by
  have h : g.Ranged (before ++ [e]) before :=
    ⟨fun s hs => (h.stmts s hs).append hnew, h.stack, h.functions, h.order, h.level⟩
  cases step_stepped hstep with
  | @added b hd hk hb =>
    have hquiet : Quiet e := .of_ne (by simp [hd]) (by simp [hd])
    have hclose : b.close.DeepLaid (before ++ [e]) :=
      h.stmts _ (mem_stmts.mpr (.inr (.inl ⟨b, hb, rfl⟩)))
    refine h.extend hnew hquiet rfl rfl (fun s hs => ?_) fun x hx => ?_
    · rcases mem_stmts.mp hs with hs | ⟨b', hb', rfl⟩ | hs
      · exact .inl (mem_stmts.mpr (.inl hs))
      · cases hb'
        exact .inr (add_deepLaid hclose)
      · exact .inl (mem_stmts.mpr (.inr (.inr hs)))
    · rw [closeBlock_items_of_some (g := { g with block := _ }) rfl] at hx
      rw [closeBlock_items_of_some hb]
      simp only [Stmt.headsAll_cons, List.mem_append] at hx ⊢
      rcases hx with hx | hx
      · rcases List.mem_cons.mp ((add_heads_perm b e.line).mem_iff.mp hx) with rfl | hx
        · exact .inr rfl
        · exact .inl (.inl hx)
      · exact .inl (.inr hx)
  | @otherwise line c yes hd hb =>
    have hquiet : Quiet e :=
      ⟨by simp [Entry.opensSwitch, hd], by simp [Entry.marksSwitch, hd, endsCase], by simp [hd]⟩
    have hsame : (OpenBlock.inElse line c yes []).close = (OpenBlock.inThen line c yes).close := rfl
    refine h.extend hnew hquiet rfl rfl (fun s hs => .inl ?_) fun x hx => .inl ?_
    · rcases mem_stmts.mp hs with hs | ⟨b', hb', rfl⟩ | hs
      · exact mem_stmts.mpr (.inl hs)
      · cases hb'
        exact mem_stmts.mpr (.inr (.inl ⟨_, hb, hsame⟩))
      · exact mem_stmts.mpr (.inr (.inr hs))
    · rw [closeBlock_items_of_some (g := { g with block := _ }) rfl, hsame] at hx
      rw [closeBlock_items_of_some hb]
      exact hx
  | endIf hd hin =>
    have hquiet : Quiet e := .of_ne (by simp [hd]) (by simp [hd])
    exact h.closeBlock.extend hnew hquiet rfl rfl (fun s hs => .inl hs) fun x hx => .inl hx
  | placed _ _ hp =>
    refine hp.ranged (closeBlock_block g) hnew (fun x hx => hheads x ?_) h.closeBlock
    exact g.closeBlock_heads_perm.mem_iff.mp (mem_heads_of_items hx)

/-! ## All lines -/

theorem Ranged.steps {entries : List Entry} (h : g.Ranged before before)
    (ha : g.Accounts before.reverse) (hwell : ∀ e ∈ entries, e.WellRead)
    (hnumbers : ((before ++ entries).map (·.line.number)).Pairwise (· < ·))
    (hsteps : g.steps entries = .ok g') : g'.Ranged (before ++ entries) (before ++ entries) := by
  induction entries generalizing g before with
  | nil =>
    cases hsteps
    simpa using h
  | cons e rest ih =>
    obtain ⟨g₁, hstep, hrest⟩ := steps_cons_eq_ok_iff.mp hsteps
    have hsplit : before ++ e :: rest = before ++ [e] ++ rest := by simp
    have hnew : ∀ y ∈ before, y.line.number < e.line.number := by
      intro y hy
      rw [List.map_append] at hnumbers
      exact (List.pairwise_append.mp hnumbers).2.2 _ (List.mem_map_of_mem hy) _ (by simp)
    have hheads : ∀ x ∈ g.heads, x.line.number < e.line.number := fun x hx =>
      hnew x (List.mem_reverse.mp ((kept_sublist _).mem (ha.heads.mem_iff.mp hx)))
    have ha₁ : g₁.Accounts (before ++ [e]).reverse := by
      simpa using ha.step (hwell e List.mem_cons_self) hstep
    rw [hsplit] at hnumbers ⊢
    exact ih (h.step hheads hnew hstep) ha₁ (fun x hx => hwell x (List.mem_cons_of_mem e hx))
      hnumbers hrest

end Grouping

end ConsoleScript
