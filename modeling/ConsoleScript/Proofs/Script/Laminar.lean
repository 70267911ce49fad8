-- SUMMARY: The ranges of functions and cases: each holds its own lines, and any two are apart or nested.
import ConsoleScript.Proofs.Script.Ranging
import ConsoleScript.Proofs.Script.WellFormed
import Mathlib.Data.List.Pairwise
import Mathlib.Order.Interval.Set.Basic

/-!
# Ranges are laminar

A function and a case say from which line to which they reach. In a script that
was parsed, these ranges begin and end at the right markers, hold the lines of
their bodies at every depth and no line of another body, and any two of them are
apart from each other, or one is inside of the other (`parse_laminar`).
-/

namespace ConsoleScript

/-- The lines of a function. -/
def Function.range (f : Function) : Set Nat := Set.Icc f.first f.last

/-- The lines of a case. -/
def Case.range (c : Case Stmt) : Set Nat := Set.Icc c.first c.last

/-- The cases of a switch. -/
def Stmt.cases : Stmt → List (Case Stmt)
  | .switch _ _ cases _ => cases
  | _ => []

namespace Script

/-- The cases of all switches of a script, at every depth. -/
def cases (script : Script) : List (Case Stmt) := script.nodes.flatMap Stmt.cases

/-- The ranges of all functions and of all cases. -/
def ranges (script : Script) : List (Set Nat) :=
  script.functions.map Function.range ++ script.cases.map Case.range

end Script

/-- Two ranges are apart from each other, or one is inside of the other. -/
def Laminar (r r' : Set Nat) : Prop := (∀ n ∈ r, n ∉ r') ∨ r ⊆ r' ∨ r' ⊆ r

theorem Laminar.symm {r r' : Set Nat} (h : Laminar r r') : Laminar r' r := by
  rcases h with h | h | h
  · exact .inl fun n hn' hn => h n hn hn'
  · exact .inr (.inr h)
  · exact .inr (.inl h)

theorem Laminar.of_lt {a b a' b' : Nat} (h : b < a') : Laminar (Set.Icc a b) (Set.Icc a' b') := by
  refine .inl fun n hn hn' => ?_
  have hle := hn.2
  have hge := hn'.1
  omega

/-! ## The statement -/

/-- The range of a function: its marker, the next end of a function, and the lines of its body
    between them. -/
structure Function.Ranged (lines : List Entry) (f : Function) : Prop where
  begins : ∃ e ∈ lines, e.line.number = f.first ∧ e.directive = some (.marker (.function f.name))
  ends : ∃ e ∈ lines, e.line.number = f.last ∧ e.directive = some (.marker .endFunction)
  first_lt_last : f.first < f.last
  next : ∀ x ∈ lines, f.first < x.line.number → x.line.number < f.last →
    x.directive ≠ some (.marker .endFunction)
  body : ∀ x ∈ Stmt.nodesAll f.body, x.line.number ∈ Set.Ioo f.first f.last

/-- The ranges of the cases of a switch that begins at line `line` and ends at `finish`. -/
structure SwitchRanged (lines : List Entry) (line : Nat) (cases : List (Case Stmt))
    (otherwise : Option (List Stmt)) (finish : Entry) : Prop where
  /-- The end of the switch is the first one on the level inside of it. -/
  finishes : NextAt lines Entry.endsSwitch (switchLevel lines line + 1) line finish
  begins : ∀ c ∈ cases, ∃ e ∈ lines, e.line.number = c.first ∧
    e.directive = some (.marker (.case c.pattern))
  /-- The next marker of the switch is the `<end-case>` at which the case ends, or it stands on
      the line after. -/
  ends : ∀ c ∈ cases, ∃ e, NextAt lines Entry.marksSwitch (switchLevel lines line + 1) c.first e ∧
    (e.directive = some (.marker .endCase) ∧ c.last = e.line.number ∨
      e.directive ≠ some (.marker .endCase) ∧ c.last + 1 = e.line.number)
  within : ∀ c ∈ cases, line < c.first ∧ c.first ≤ c.last ∧ c.last < finish.line.number
  order : cases.Pairwise fun c c' => c.last < c'.first
  body : ∀ c ∈ cases, ∀ x ∈ Stmt.nodesAll c.body, x.line.number ∈ c.range
  others : ∀ c ∈ cases, ∀ c' ∈ cases, c'.first ≠ c.first →
    ∀ x ∈ Stmt.nodesAll c'.body, x.line.number ∉ c.range
  default : ∀ c ∈ cases, ∀ body ∈ otherwise, ∀ x ∈ Stmt.nodesAll body, x.line.number ∉ c.range

/-- All ranges of a script among the lines that were read. -/
structure Script.RangesLaminar (script : Script) (lines : List Entry) : Prop where
  function : ∀ f ∈ script.functions, f.Ranged lines
  functions : script.functions.Pairwise fun f f' => f.last < f'.first
  top : ∀ f ∈ script.functions, ∀ x ∈ Stmt.nodesAll script.body, x.line.number ∉ f.range
  switch : ∀ {line options cases otherwise},
    .switch line options cases otherwise ∈ script.nodes →
      ∃ finish, SwitchRanged lines line.number cases otherwise finish
  laminar : ∀ r ∈ script.ranges, ∀ r' ∈ script.ranges, Laminar r r'

/-! ## Parts of switches -/

section Parts

variable {lines : List Entry} (hnodup : (lines.map (·.line.number)).Nodup)
include hnodup

namespace Part

variable {l l' : Nat} {pattern pattern' : Option String} {first last first' last' : Nat}

/-- Parts on the same level are apart. -/
theorem last_lt_first (h : Part lines l pattern first last)
    (h' : Part lines l pattern' first' last') (hlt : first < first') : last < first' := by
  obtain ⟨marker, hmem, rfl, hmarker⟩ := h'.begins
  obtain ⟨hmarks, -, hlast⟩ := Entry.of_partMarker hmarker
  exact h.last_lt hmem hlt hmarks h'.level (by omega) hnodup

theorem laminar (h : Part lines l pattern first last) (h' : Part lines l' pattern' first' last') :
    Laminar (Set.Icc first last) (Set.Icc first' last') := by
  rcases Nat.lt_trichotomy first first' with hlt | rfl | hlt
  · by_cases hle : first' ≤ last
    · exact .inr (.inr (Set.Icc_subset_Icc hlt.le (h.last_le hnodup h' hlt hle)))
    · exact .of_lt (by omega)
  · rcases Nat.le_total last last' with hle | hle
    · exact .inr (.inl (Set.Icc_subset_Icc_right hle))
    · exact .inr (.inr (Set.Icc_subset_Icc_right hle))
  · by_cases hle : first ≤ last'
    · exact .inr (.inl (Set.Icc_subset_Icc hlt.le (h'.last_le hnodup h hlt hle)))
    · exact (Laminar.of_lt (by omega)).symm

/-- The markers of functions are outside of all switches. -/
theorem laminar_function (h : Part lines l pattern first last) (hl : 0 < l) {f : Function}
    (hf : f.Laid lines) : Laminar f.range (Set.Icc first last) := by
  have horder := hf.first_lt_last
  have hfirst := h.outside hnodup (n := f.first) (by rw [hf.level_first]; exact hl)
  have hlast := h.outside hnodup (n := f.last) (by rw [hf.level_last]; exact hl)
  rcases hfirst with hfirst | hfirst
  · rcases hlast with hlast | hlast
    · exact .of_lt hlast
    · exact .inr (.inr (Set.Icc_subset_Icc hfirst.le hlast.le))
  · exact (Laminar.of_lt hfirst).symm

end Part

theorem SwitchLaid.exists_finish {line n : Nat} {cases : List (Case Stmt)}
    {otherwise : Option (List Stmt)} (h : SwitchLaid lines line cases otherwise)
    (hline : line < n) (hn : switchLevel lines n = 0) :
    ∃ finish, NextAt lines Entry.endsSwitch (switchLevel lines line + 1) line finish := by
  obtain ⟨finish, hmem, hle, -, hends, hlevel, hfirst⟩ :=
    exists_first_end hnodup hline h.level.ge (by omega)
  exact ⟨finish, hmem, hle, hends, hlevel, fun x hx hlt => hfirst x hx hlt⟩

theorem PartOf.last_lt {line first last : Nat} {pattern : Option String} {body : List Stmt}
    {finish : Entry} (h : PartOf lines line pattern first last body)
    (hfinish : NextAt lines Entry.endsSwitch (switchLevel lines line + 1) line finish) :
    last < finish.line.number := by
  have hmarks := Entry.marksSwitch_of_endsSwitch hfinish.holds
  have hlast : finish.lastOfPart < finish.line.number := by
    have hafter := hfinish.after
    have hends := hfinish.holds
    unfold Entry.endsSwitch at hends
    split at hends
    case h_1 hd =>
      simp only [Entry.lastOfPart, hd]
      omega
    case h_2 => cases hends
  have hne := h.part.first_ne_end hnodup hfinish.mem hfinish.holds
  have hfirst : first < finish.line.number := by
    by_contra hle
    exact h.unended finish hfinish.mem hfinish.after (by omega) hfinish.holds hfinish.level
  exact h.part.last_lt hfinish.mem hfirst hmarks hfinish.level hlast hnodup

theorem SwitchLaid.ranged {line : Nat} {cases : List (Case Stmt)}
    {otherwise : Option (List Stmt)} {finish : Entry}
    (h : SwitchLaid lines line cases otherwise)
    (hfinish : NextAt lines Entry.endsSwitch (switchLevel lines line + 1) line finish) :
    SwitchRanged lines line cases otherwise finish := by
  have hbody : ∀ c ∈ cases, ∀ x ∈ Stmt.nodesAll c.body, x.line.number ∈ c.range := by
    intro c hc x hx
    obtain ⟨hfirst, hlast⟩ := (h.parts c hc).inside x.entry (List.mem_map_of_mem hx)
    exact ⟨hfirst.le, hlast⟩
  refine ⟨hfinish, fun c hc => (h.parts c hc).part.begins, fun c hc => ?ends, fun c hc => ?within,
    ?order, hbody, fun c hc c' hc' hne x hx hin => ?others, fun c hc body hb x hx hin => ?default⟩
  case ends =>
    obtain ⟨e, hnext, hlast⟩ := (h.parts c hc).part.ends
    refine ⟨e, hnext, ?_⟩
    have hafter := hnext.after
    unfold Entry.lastOfPart at hlast
    split at hlast
    case h_1 hd => exact .inl ⟨hd, hlast⟩
    case h_2 hd => exact .inr ⟨hd, by omega⟩
  case within =>
    have hpart := h.parts c hc
    exact ⟨hpart.after, hpart.part.first_le_last, hpart.last_lt hnodup hfinish⟩
  case order =>
    refine h.order.imp_of_mem fun hc hc' hlt => ?_
    exact (h.parts _ hc).part.last_lt_first hnodup (h.parts _ hc').part hlt
  case others =>
    have hin' := hbody c' hc' x hx
    have hpart := (h.parts c hc).part
    have hpart' := (h.parts c' hc').part
    rcases Nat.lt_or_gt_of_ne hne with hlt | hlt
    · exact absurd (hin'.2.trans_lt (hpart'.last_lt_first hnodup hpart hlt)) hin.1.not_gt
    · exact absurd (hin.2.trans_lt (hpart.last_lt_first hnodup hpart' hlt)) hin'.1.not_gt
  case default =>
    obtain ⟨first, last, hpartOf⟩ := h.default body hb
    obtain ⟨hfirst, hlast⟩ := hpartOf.inside x.entry (List.mem_map_of_mem hx)
    have hpart := (h.parts c hc).part
    have hpart' := hpartOf.part
    rcases Nat.lt_trichotomy first c.first with hlt | heq | hlt
    · exact absurd (hlast.trans_lt (hpart'.last_lt_first hnodup hpart hlt)) hin.1.not_gt
    · obtain ⟨e, he, hnumber, hcase⟩ := hpart.begins
      obtain ⟨e', he', hnumber', hdefault⟩ := hpart'.begins
      obtain rfl := List.inj_on_of_nodup_map hnodup he he' (by omega)
      rw [hcase] at hdefault
      cases hdefault
    · exact absurd (hin.2.trans_lt (hpart.last_lt_first hnodup hpart' hlt)) hfirst.not_gt

end Parts

/-! ## Scripts -/

theorem Function.Laid.ranged {lines : List Entry} {f : Function} (h : f.Laid lines) :
    f.Ranged lines where
  begins := h.begins
  ends := h.ends
  first_lt_last := h.first_lt_last
  next := h.unended
  body x hx := h.inside x.entry (List.mem_map_of_mem hx)

namespace Script

/-- Every case of a script is a part of a switch. -/
theorem exists_part {script : Script} {lines : List Entry}
    (hstmts : ∀ s ∈ script.nodes, s.Laid lines) {c : Case Stmt} (hc : c ∈ script.cases) :
    ∃ l pattern, 0 < l ∧ Part lines l pattern c.first c.last := by
  obtain ⟨s, hs, hc⟩ := List.mem_flatMap.mp hc
  cases s with
  | switch line o cases otherwise =>
    exact ⟨_, _, Nat.succ_pos _, (SwitchLaid.parts (hstmts _ hs) c hc).part⟩
  | plain line => cases hc
  | action line a => cases hc
  | loop line l body => cases hc
  | branch line cond yes no => cases hc

theorem laminar_ranges {script : Script} {lines : List Entry}
    (hnodup : (lines.map (·.line.number)).Nodup) (hlaid : ∀ f ∈ script.functions, f.Laid lines)
    (horder : script.functions.Pairwise fun f f' => f.last < f'.first)
    (hstmts : ∀ s ∈ script.nodes, s.Laid lines) :
    ∀ r ∈ script.ranges, ∀ r' ∈ script.ranges, Laminar r r' := by
  have hfunctions : ∀ f ∈ script.functions, ∀ f' ∈ script.functions, Laminar f.range f'.range := by
    have hsymm : Std.Symm fun f f' : Function => Laminar f.range f'.range :=
      ⟨fun _ _ => Laminar.symm⟩
    have hpairs : script.functions.Pairwise fun f f' => Laminar f.range f'.range :=
      horder.imp fun hlt => .of_lt hlt
    exact fun f hf f' hf' => hpairs.forall_of_forall (fun f _ => .inr (.inl subset_rfl)) hf hf'
  have hmixed : ∀ f ∈ script.functions, ∀ c ∈ script.cases, Laminar f.range c.range := by
    intro f hf c hc
    obtain ⟨l, pattern, hl, hpart⟩ := exists_part hstmts hc
    exact hpart.laminar_function hnodup hl (hlaid f hf)
  intro r hr r' hr'
  rcases List.mem_append.mp hr with hr | hr <;> rcases List.mem_append.mp hr' with hr' | hr' <;>
    obtain ⟨a, ha, rfl⟩ := List.mem_map.mp hr <;> obtain ⟨b, hb, rfl⟩ := List.mem_map.mp hr'
  · exact hfunctions a ha b hb
  · exact hmixed a ha b hb
  · exact (hmixed b hb a ha).symm
  · obtain ⟨l, pattern, -, hpart⟩ := exists_part hstmts ha
    obtain ⟨l', pattern', -, hpart'⟩ := exists_part hstmts hb
    exact hpart.laminar hnodup hpart'

/-- Parsing a text gives ranges that are laminar among the lines that were read. -/
theorem parse_laminar {now : Int} {scope scope' : Scope} {text : String} {script : Script}
    (h : parse now scope text = (.ok script, scope')) :
    ∃ entries, readLines now scope 1 (Text.lines text) = (.ok entries, scope') ∧
      script.RangesLaminar entries := by
  obtain ⟨entries, g, hread, hsteps, hmade⟩ := parseLines_eq_ok_iff.mp h
  obtain ⟨hframes, hbody, hfunctions⟩ := ofGrouping_ok hmade
  have hnumbers := readLines_numbers hread
  have hincreasing : (entries.map (·.line.number)).Pairwise (· < ·) := by
    rw [hnumbers]
    exact List.pairwise_lt_range'
  have hnodup : (entries.map (·.line.number)).Nodup := hincreasing.imp fun hlt => hlt.ne
  have hwell : ∀ e ∈ entries, e.WellRead := readLines_forall (fun h => (Line.read_ok h).2) hread
  have hranged : g.Ranged entries entries :=
    Grouping.start_ranged.steps Grouping.start_accounts hwell hincreasing hsteps
  have hstmts : ∀ s ∈ script.nodes, s.Laid entries := fun s hs => by
    obtain ⟨t, ht, hs⟩ := ofGrouping_nodes hmade hs
    exact hranged.closeBlock.stmts t ht s hs
  have hbound : ∀ e ∈ entries, e.line.number < (Text.lines text).length + 1 := fun e he => by
    have hmem : e.line.number ∈ List.range' 1 (Text.lines text).length :=
      hnumbers ▸ List.mem_map_of_mem he
    have hlt := (List.mem_range'_1.mp hmem).2
    omega
  have hend : switchLevel entries ((Text.lines text).length + 1) = 0 := by
    rw [hranged.switchLevel_eq hbound, hframes]
    rfl
  rw [Grouping.closeBlock_functions] at hfunctions
  have hlaid : ∀ f ∈ script.functions, f.Laid entries := fun f hf =>
    hranged.functions f (List.mem_reverse.mp (hfunctions ▸ hf))
  have horder : script.functions.Pairwise fun f f' => f.last < f'.first := by
    rw [hfunctions]
    exact List.pairwise_reverse.mpr hranged.order
  refine ⟨entries, hread, fun f hf => (hlaid f hf).ranged, horder, fun f hf x hx hin => ?top,
    fun hmem => ?switch, laminar_ranges hnodup hlaid horder hstmts⟩
  case top =>
    have hstack := hranged.stack
    rw [hframes] at hstack
    rw [hbody] at hx
    have hhead := (Stmt.headsAll_reverse_perm _).mem_iff.mp (List.mem_map_of_mem hx)
    rcases hstack f (List.mem_reverse.mp (hfunctions ▸ hf)) x.entry hhead with hlt | hlt
    · exact hin.1.not_gt hlt
    · exact hin.2.not_gt hlt
  case switch =>
    have hswitch := hstmts _ hmem
    obtain ⟨opening, hopening, hline⟩ := SwitchLaid.opens hswitch
    obtain ⟨finish, hfinish⟩ :=
      SwitchLaid.exists_finish hnodup hswitch (hline ▸ hbound opening hopening) hend
    exact ⟨finish, SwitchLaid.ranged hnodup hswitch hfinish⟩

/-- A function with a switch in it, one of whose cases holds a switch and has no end. -/
theorem parse_laminar_nested :
    let text := "<function f>\n<switch>\n<case \"a\">\nx\n<switch>\n<case \"c\">\ny\n" ++
      "<end-switch>\n<case \"b\">\nz\n<end-case>\n<end-switch>\n<end-function>\nw"
    ∃ script scope', parse 0 .empty text = (.ok script, scope') ∧
      script.functions.map (fun f => (f.first, f.last)) = [(1, 13)] ∧
      script.cases.map (fun c => (c.first, c.last)) = [(3, 8), (9, 11), (6, 7)] ∧
      ∃ entries, readLines 0 .empty 1 (Text.lines text) = (.ok entries, scope') ∧
        script.RangesLaminar entries := by
  intro text
  have hranges : (parse 0 .empty text).1.toOption.map (fun script =>
      (script.functions.map fun f => (f.first, f.last),
        script.cases.map fun c => (c.first, c.last))) =
      some ([(1, 13)], [(3, 8), (9, 11), (6, 7)]) := by
    decide +kernel
  rcases hparse : parse 0 .empty text with ⟨_ | script, scope'⟩
  · simp [hparse, Except.toOption] at hranges
  · simp only [hparse, Except.toOption, Option.map_some, Option.some.injEq,
      Prod.mk.injEq] at hranges
    exact ⟨script, scope', rfl, hranges.1, hranges.2, parse_laminar hparse⟩

end Script

end ConsoleScript
