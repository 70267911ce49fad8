-- SUMMARY: Scripts one after the other: what the text of the two comes to.
import ConsoleScript.Proofs.Script.Extent
import ConsoleScript.Proofs.Script.Names
import ConsoleScript.Proofs.Script.Setting

/-!
# Scripts one after the other

A text may be cut before a blank line or a comment that stands outside of its functions
and switches. Such a line ends what implicit body is open, as the end of a text does. So
the lines after the cut are grouped in a setting that the lines before it have made
(`Grouping.steps_after`), and the script of the whole text is that of the first part,
followed by that of the second one with its lines renumbered.
-/

namespace ConsoleScript

/-! ## Lines further down -/

/-- The line as it is `k` lines further down. -/
def Line.shift (k : Nat) (l : Line) : Line := { l with number := l.number + k }

theorem Line.token?_of_skipped {raw : String} (h : (classify (Text.trim raw)).isSkipped = true) :
    token? raw = some .blank := by
  cases hkind : classify (Text.trim raw) with
  | blank | comment => simp only [token?, hkind]
  | _ =>
    rw [hkind] at h
    cases h

/-- All lines `k` lines further down. -/
def Relabelling.shift (k : Nat) : Relabelling where
  line := Line.shift k
  number := (· + k)
  number_line _ := rfl
  trimmed_line _ := rfl
  kind_line _ := rfl

/-- Where a line stands decides nothing but its number. -/
theorem Line.read_shift (now : Int) (scope : Scope) (n k : Nat) (raw : String) :
    read now scope (n + k) raw =
      ((read now scope n raw).1.map (Entry.relabel (.shift k)), (read now scope n raw).2) := by
  cases hkind : classify (Text.trim raw) with
  | blank | comment | text =>
    simp only [read, hkind, Except.map, Entry.relabel, Relabelling.shift, shift]
  | assignment =>
    simp only [read, hkind]
    cases scope.readAssignment? now (Text.trim raw) with
    | none => simp only [Except.map, Entry.relabel, Relabelling.shift, shift]
    | some bound => simp only [Except.map, Entry.relabel, Relabelling.shift, shift]
  | directive | conditional =>
    simp only [read, hkind]
    cases Directive.read (content (Text.trim raw)) with
    | error e => rfl
    | ok directive => simp only [Except.map, Entry.relabel, Relabelling.shift, shift]

namespace Entry

@[simp] theorem token_relabel (ρ : Relabelling) (e : Entry) : (e.relabel ρ).token = e.token := by
  simp only [token, relabel, ρ.kind_line]

theorem token_eq_blank_iff {e : Entry} :
    e.token = .blank ↔ e.directive = none ∧ e.line.kind.isSkipped = true := by
  obtain ⟨line, _ | d⟩ := e
  · simp [token]
  · cases d with
    | action a => cases a <;> simp [token, Directive.token]
    | marker m => cases m <;> simp [token, Directive.token]
    | _ => simp [token, Directive.token]

theorem boundName?_shift (k : Nat) (e : Entry) :
    (e.relabel (.shift k)).boundName? = e.boundName? := rfl

end Entry

/-- A summary does not tell where the lines stand. -/
theorem Summary.of_shift (k : Nat) (entries : List Entry) (functions : List String) :
    Summary.of (entries.map (Entry.relabel (.shift k))) functions =
      Summary.of entries functions := by
  simp only [of, List.length_map, List.countP_map, List.filterMap_map, Function.comp_def,
    Entry.boundName?_shift]
  rfl

namespace Script

variable {now : Int} {scope scope' : Scope} {n : Nat} {raws : List String} {entries : List Entry}

theorem readLines_shift_eq_ok_iff {k : Nat} :
    readLines now scope (n + k) raws = (.ok entries, scope') ↔
      ∃ before, readLines now scope n raws = (.ok before, scope') ∧
        entries = before.map (Entry.relabel (.shift k)) := by
  induction raws generalizing scope n entries with
  | nil =>
    simp only [readLines, Prod.mk.injEq, Except.ok.injEq]
    constructor
    · rintro ⟨rfl, rfl⟩
      exact ⟨[], ⟨rfl, rfl⟩, rfl⟩
    · rintro ⟨_, ⟨rfl, rfl⟩, rfl⟩
      exact ⟨rfl, rfl⟩
  | cons raw raws ih =>
    simp only [readLines_cons_eq_ok_iff, Line.read_shift, Nat.add_right_comm n k, ih]
    constructor
    · rintro ⟨e', scope₁, _, hread, ⟨rest, hrest, rfl⟩, rfl⟩
      rcases hfirst : Line.read now scope n raw with ⟨_ | e, scope₂⟩
      · rw [hfirst] at hread
        cases hread
      · rw [hfirst] at hread
        cases hread
        exact ⟨e :: rest, ⟨e, scope₂, rest, rfl, hrest, rfl⟩, rfl⟩
    · rintro ⟨_, ⟨e, scope₁, rest, hread, hrest, rfl⟩, rfl⟩
      rw [hread]
      exact ⟨e.relabel (.shift k), scope₁, _, rfl, ⟨rest, hrest, rfl⟩, rfl⟩

theorem readLines_append_eq_ok_iff {more : List String} :
    readLines now scope n (raws ++ more) = (.ok entries, scope') ↔
      ∃ before scope₁ after, readLines now scope n raws = (.ok before, scope₁) ∧
        readLines now scope₁ (n + raws.length) more = (.ok after, scope') ∧
        entries = before ++ after := by
  induction raws generalizing scope n entries with
  | nil =>
    simp only [List.nil_append, readLines, Prod.mk.injEq, Except.ok.injEq, List.length_nil,
      Nat.add_zero]
    constructor
    · exact fun h => ⟨[], scope, entries, ⟨rfl, rfl⟩, h, rfl⟩
    · rintro ⟨_, _, after, ⟨rfl, rfl⟩, h, rfl⟩
      exact h
  | cons raw raws ih =>
    have hlength : n + (raw :: raws).length = n + 1 + raws.length := by
      rw [List.length_cons]
      omega
    simp only [List.cons_append, readLines_cons_eq_ok_iff, ih, hlength]
    constructor
    · rintro ⟨e, scope₁, _, hread, ⟨before, scope₂, after, hbefore, hafter, rfl⟩, rfl⟩
      exact ⟨e :: before, scope₂, after, ⟨e, scope₁, before, hread, hbefore, rfl⟩, hafter, rfl⟩
    · rintro ⟨_, scope₂, after, ⟨e, scope₁, before, hread, hbefore, rfl⟩, hafter, rfl⟩
      exact ⟨e, scope₁, _, hread, ⟨before, scope₂, after, hbefore, hafter, rfl⟩, rfl⟩

end Script

/-! ## Lines after a script -/

namespace Grouping

variable {τ : Setting} {g g' : Grouping} {entries entries' : List Entry}

theorem steps_append_eq_ok_iff :
    g.steps (entries ++ entries') = .ok g' ↔
      ∃ g₁, g.steps entries = .ok g₁ ∧ g₁.steps entries' = .ok g' := by
  induction entries generalizing g with
  | nil => simp [steps]
  | cons e entries ih =>
    simp only [List.cons_append, steps_cons_eq_ok_iff, ih]
    grind

/-- In a setting, lines do to the grouping what they do without. -/
theorem steps_within (hfresh : ∀ e ∈ entries, FreshIn τ e) (hsteady : ∀ e ∈ entries, Steady τ e) :
    (g.within τ).steps (entries.map (Entry.relabel τ.toRelabelling)) =
      resultWithin τ (g.steps entries) := by
  induction entries generalizing g with
  | nil => rfl
  | cons e entries ih =>
    obtain ⟨hfresh, hfreshs⟩ := List.forall_mem_cons.mp hfresh
    obtain ⟨hsteady, hsteadys⟩ := List.forall_mem_cons.mp hsteady
    rw [List.map_cons, steps, steps, step_within hfresh hsteady]
    cases g.step e with
    | error err => rfl
    | ok g₁ => exact ih hfreshs hsteadys

/-- Lines are fresh in a setting if their functions have names that it does not have. -/
theorem freshIn_of_names (h : ∀ name ∈ (entries.map Entry.token).filterMap Token.functionName?,
    name ∉ τ.functions.map (·.name)) : ∀ e ∈ entries, FreshIn τ e := by
  intro e he name hd
  have htoken : e.token.functionName? = some name := by
    simp [Entry.token, hd, Directive.token, Token.functionName?]
  have hnew := h name (List.mem_filterMap.mpr ⟨e.token, List.mem_map_of_mem he, htoken⟩)
  rw [List.find?_eq_none]
  intro f hf hname
  exact hnew (List.mem_map.mpr ⟨f, hf, by simpa using hname⟩)

/-- A blank line or a comment ends the implicit body. -/
theorem step_skipped {e : Entry} (htoken : e.token = .blank) :
    g.step e = g.closeBlock.step e := by
  obtain ⟨hd, hskipped⟩ := Entry.token_eq_blank_iff.mp htoken
  cases hblock : g.block with
  | none => rw [closeBlock_of_none hblock]
  | some block =>
    refine step_of_after hblock ?_
    simp only [OpenBlock.absorb, hd, hskipped, if_true]

/-- After lines that leave nothing but an implicit body open, lines are grouped in a
    setting. -/
def setting (g : Grouping) (k : Nat) : Setting :=
  ⟨.shift k, g.closeBlock.items, g.closeBlock.functions⟩

theorem closeBlock_eq_within (h : g.frames = []) (k : Nat) :
    g.closeBlock = start.within (g.setting k) := by
  have hframes : g.closeBlock.frames = [] := by rwa [closeBlock_frames]
  have hblock := closeBlock_block g
  rcases hclosed : g.closeBlock with ⟨items, block, frames, functions⟩
  simp only [hclosed] at hframes hblock
  subst hframes hblock
  simp [within, start, setting, Setting.body, Setting.stack, hclosed]

end Grouping

namespace Script

variable {now : Int} {scope scope' scope'' : Scope} {n : Nat} {as bs : List String}
  {a script : Script}

/-- A script of `k` lines, and another one that follows it. -/
def followedBy (a : Script) (k : Nat) (b : Script) : Script where
  body := a.body ++ b.body.map (Stmt.relabel (.shift k))
  functions := a.functions ++ b.functions.map (Function.relabel (.shift k))
  summary := a.summary.add b.summary

/-- What is grouped after a script makes a script that follows it. -/
theorem ofGrouping_within {g g' : Grouping} {before entries : List Entry} {k : Nat}
    (ha : ofGrouping g before = .ok a) :
    ofGrouping (g'.within (g.setting k)) (entries.map (Entry.relabel (.shift k)) ++ before) =
      ((ofGrouping g' entries).map (a.followedBy k)).mapError (ParseError.renumber (· + k)) := by
  obtain ⟨-, hbody, hfunctions⟩ := ofGrouping_ok ha
  have hsummary := ofGrouping_summary ha
  unfold ofGrouping
  rw [Grouping.finish_within]
  cases g'.finish with
  | error e => rfl
  | ok parts =>
    obtain ⟨body, functions⟩ := parts
    have hnames : (functions.map (Function.relabel (.shift k))).map (·.name) =
        functions.map (·.name) := by
      simp [Function.relabel]
    simp only [Except.map, except_mapError_ok, followedBy, Grouping.setting, ← hbody, ← hfunctions,
      List.map_append, hnames, List.reverse_append, ← List.map_reverse, Summary.of_append,
      ← hsummary, Summary.of_shift]

theorem mem_functions_iff {g : Grouping} {entries before : List Entry}
    (hsteps : Grouping.start.steps entries = .ok g) (h : ofGrouping g before = .ok script)
    (name : String) : name ∈ script.functions.map (·.name) ↔
      name ∈ (entries.map Entry.token).filterMap Token.functionName? := by
  obtain ⟨hframes, -, hfunctions⟩ := ofGrouping_ok h
  have hnames : g.names = g.closeBlock.functions.map (·.name) := by
    rw [← g.closeBlock_names, Grouping.names, g.closeBlock_frames, hframes]
    rfl
  have hmem := Grouping.steps_mem_names hsteps name
  rw [hnames] at hmem
  simpa [hfunctions, Grouping.names, Grouping.start] using hmem

/-- What is open before a blank line or a comment does not matter after it. -/
theorem steps_closeBlock_iff (ρ : Relabelling) {g : Grouping} {entries all : List Entry}
    (h : ∀ e ∈ entries.head?, e.token = .blank) :
    (∃ g', g.steps (entries.map (Entry.relabel ρ)) = .ok g' ∧ ofGrouping g' all = .ok script) ↔
      ∃ g', g.closeBlock.steps (entries.map (Entry.relabel ρ)) = .ok g' ∧
        ofGrouping g' all = .ok script := by
  cases entries with
  | nil =>
    have hclosed := Grouping.closeBlock_of_none g.closeBlock_block
    have hmade : ofGrouping g.closeBlock all = ofGrouping g all := by
      unfold ofGrouping Grouping.finish
      rw [hclosed]
    simp only [List.map_nil, Grouping.steps, Except.ok.injEq, exists_eq_left', hmade]
  | cons e rest =>
    have hblank : (e.relabel ρ).token = .blank := (Entry.token_relabel ρ e).trans (h e rfl)
    simp only [List.map_cons, Grouping.steps_cons_eq_ok_iff]
    rw [Grouping.step_skipped hblank]

/-- Lines after a script make a script with it exactly if they are one whose functions have
    other names. -/
theorem within_setting_iff {g : Grouping} {before entries : List Entry} {k : Nat}
    (ha : ofGrouping g before = .ok a) (hnumbers : ∀ e ∈ entries, 0 < e.line.number) :
    (∃ g', g.closeBlock.steps (entries.map (Entry.relabel (.shift k))) = .ok g' ∧
        ofGrouping g' ((entries.map (Entry.relabel (.shift k))).reverse ++ before) = .ok script) ↔
      ∃ g' b, Grouping.start.steps entries = .ok g' ∧ ofGrouping g' entries.reverse = .ok b ∧
        (∀ f ∈ a.functions, ∀ f' ∈ b.functions, f.name ≠ f'.name) ∧
        script = a.followedBy k b := by
  obtain ⟨hframes, -, hfunctions⟩ := ofGrouping_ok ha
  have hsetting := Grouping.closeBlock_eq_within hframes k
  have hbefore : ∀ name, name ∈ (g.setting k).functions.map (·.name) ↔
      name ∈ a.functions.map (·.name) := by
    simp [hfunctions, Grouping.setting]
  have hsteady : ∀ e ∈ entries, Grouping.Steady (g.setting k) e := by
    intro e he
    have := hnumbers e he
    change e.line.number - 1 + k = e.line.number + k - 1
    omega
  have hwithin := fun hfresh => Grouping.steps_within (g := .start) hfresh hsteady
  rw [← hsetting] at hwithin
  constructor
  · rintro ⟨g', hsteps, hmade⟩
    have hnames : ∀ name ∈ (entries.map Entry.token).filterMap Token.functionName?,
        name ∉ (g.setting k).functions.map (·.name) := by
      obtain ⟨-, -, hnew⟩ := Grouping.steps_isOk_iff.mp ⟨g', hsteps, (ofGrouping_ok hmade).1⟩
      rw [hsetting] at hnew
      simpa [Grouping.names, Grouping.within, Grouping.start, Setting.stack, Function.comp_def]
        using hnew
    have hresult := hsteps.symm.trans (hwithin (Grouping.freshIn_of_names hnames))
    cases hb : Grouping.start.steps entries with
    | error e => rw [hb] at hresult; cases hresult
    | ok g₁ =>
      rw [hb] at hresult
      cases hresult
      rw [← List.map_reverse, ofGrouping_within ha] at hmade
      cases hmade₁ : ofGrouping g₁ entries.reverse with
      | error e => rw [hmade₁] at hmade; cases hmade
      | ok b =>
        rw [hmade₁] at hmade
        cases hmade
        refine ⟨g₁, b, rfl, hmade₁, fun f hf f' hf' heq => ?_, rfl⟩
        have hname := (mem_functions_iff hb hmade₁ f'.name).mp (List.mem_map_of_mem hf')
        apply hnames _ hname
        rw [hbefore, ← heq]
        exact List.mem_map_of_mem hf
  · rintro ⟨g', b, hsteps, hmade, hdiffer, rfl⟩
    have hnames : ∀ name ∈ (entries.map Entry.token).filterMap Token.functionName?,
        name ∉ (g.setting k).functions.map (·.name) := by
      intro name hname hold
      rw [hbefore] at hold
      obtain ⟨f, hf, rfl⟩ := List.mem_map.mp hold
      obtain ⟨f', hf', heq⟩ := List.mem_map.mp ((mem_functions_iff hsteps hmade _).mpr hname)
      exact hdiffer f hf f' hf' heq.symm
    refine ⟨g'.within (g.setting k), ?_, ?_⟩
    · refine (hwithin (Grouping.freshIn_of_names hnames)).trans ?_
      rw [hsteps]
      rfl
    · rw [← List.map_reverse, ofGrouping_within ha, hmade]
      rfl

theorem readLines_head_blank {entries : List Entry}
    (hb : ∀ raw ∈ bs.head?, (Line.classify (Text.trim raw)).isSkipped = true)
    (h : readLines now scope n bs = (.ok entries, scope')) :
    ∀ e ∈ entries.head?, e.token = .blank := by
  cases bs with
  | nil => cases h; simp
  | cons raw rest =>
    obtain ⟨e, scope₁, entries, he, -, rfl⟩ := readLines_cons_eq_ok_iff.mp h
    have htoken := Line.token?_eq now scope n raw
    simp only [Line.token?_of_skipped (hb raw rfl), he] at htoken
    simpa [Except.toOption] using htoken.symm

theorem readLines_number_pos {entries : List Entry}
    (h : readLines now scope 1 bs = (.ok entries, scope')) : ∀ e ∈ entries, 0 < e.line.number := by
  intro e he
  have hmem := List.mem_map_of_mem (f := fun e : Entry => e.line.number) he
  rw [readLines_numbers h, List.mem_range'_1] at hmem
  omega

/-- The lines of the second part are read in the scope that the first part leaves, and
    grouped after the first part. -/
theorem parseLines_append_iff_steps {g : Grouping} {before : List Entry}
    (hread : readLines now scope 1 as = (.ok before, scope'))
    (hsteps : Grouping.start.steps before = .ok g) :
    parseLines now scope (as ++ bs) = (.ok script, scope'') ↔
      ∃ entries, readLines now scope' 1 bs = (.ok entries, scope'') ∧
        ∃ g', g.steps (entries.map (Entry.relabel (.shift as.length))) = .ok g' ∧
          ofGrouping g' ((entries.map (Entry.relabel (.shift as.length))).reverse ++
            before.reverse) = .ok script := by
  simp only [parseLines_eq_ok_iff, readLines_append_eq_ok_iff, readLines_shift_eq_ok_iff]
  constructor
  · rintro ⟨_, g', ⟨before', _, _, hread', ⟨entries, hentries, rfl⟩, rfl⟩, hall, hmade⟩
    rw [hread] at hread'
    cases hread'
    obtain ⟨g₁, hg₁, hg'⟩ := Grouping.steps_append_eq_ok_iff.mp hall
    rw [hsteps] at hg₁
    cases hg₁
    exact ⟨entries, hentries, g', hg', by simpa using hmade⟩
  · rintro ⟨entries, hentries, g', hg', hmade⟩
    exact ⟨_, g', ⟨before, scope', _, hread, ⟨entries, hentries, rfl⟩, rfl⟩,
      Grouping.steps_append_eq_ok_iff.mpr ⟨g, hsteps, hg'⟩, by simpa using hmade⟩

/-- The text of two scripts is a script exactly if the second part is one, whose functions
    have other names. -/
theorem parseLines_append_eq_ok_iff (ha : parseLines now scope as = (.ok a, scope'))
    (hb : ∀ raw ∈ bs.head?, (Line.classify (Text.trim raw)).isSkipped = true) :
    parseLines now scope (as ++ bs) = (.ok script, scope'') ↔
      ∃ b, parseLines now scope' bs = (.ok b, scope'') ∧
        (∀ f ∈ a.functions, ∀ f' ∈ b.functions, f.name ≠ f'.name) ∧
        script = a.followedBy as.length b := by
  obtain ⟨before, g, hread, hsteps, hmade⟩ := parseLines_eq_ok_iff.mp ha
  rw [parseLines_append_iff_steps hread hsteps]
  constructor
  · rintro ⟨entries, hentries, hall⟩
    rw [steps_closeBlock_iff _ (readLines_head_blank hb hentries),
      within_setting_iff hmade (readLines_number_pos hentries)] at hall
    obtain ⟨g', b, hg', hb', hdiffer, rfl⟩ := hall
    exact ⟨b, parseLines_eq_ok_iff.mpr ⟨entries, g', hentries, hg', hb'⟩, hdiffer, rfl⟩
  · rintro ⟨b, hparse, hdiffer, rfl⟩
    obtain ⟨entries, g', hentries, hg', hb'⟩ := parseLines_eq_ok_iff.mp hparse
    refine ⟨entries, hentries, ?_⟩
    rw [steps_closeBlock_iff _ (readLines_head_blank hb hentries),
      within_setting_iff hmade (readLines_number_pos hentries)]
    exact ⟨g', b, hg', hb', hdiffer, rfl⟩

/-- The text of two scripts, of which the second begins with a blank line or a comment, is
    the first script followed by the second one, with its lines renumbered. If the second
    part is no script, then neither is the whole. -/
theorem parse_append (ha : parseLines now scope as = (.ok a, scope'))
    (hb : ∀ raw ∈ bs.head?, (Line.classify (Text.trim raw)).isSkipped = true) :
    (∀ b scope'', parseLines now scope' bs = (.ok b, scope'') →
      (∀ f ∈ a.functions, ∀ f' ∈ b.functions, f.name ≠ f'.name) →
        parseLines now scope (as ++ bs) = (.ok (a.followedBy as.length b), scope'')) ∧
      ∀ e scope'', parseLines now scope' bs = (.error e, scope'') →
        ∃ e' scope₁, parseLines now scope (as ++ bs) = (.error e', scope₁) := by
  constructor
  · intro b scope'' hparse hdiffer
    exact (parseLines_append_eq_ok_iff ha hb).mpr ⟨b, hparse, hdiffer, rfl⟩
  · intro e scope'' hparse
    rcases hwhole : parseLines now scope (as ++ bs) with ⟨e' | script, scope₁⟩
    · exact ⟨e', scope₁, rfl⟩
    · obtain ⟨b, hb', -, -⟩ := (parseLines_append_eq_ok_iff ha hb).mp hwhole
      rw [hparse] at hb'
      cases hb'

/-- A function and a loop, and a comment with another function. -/
theorem parse_append_comment :
    let as := ["<function f>", "<end-function>", "<repeat 2>", "ls"]
    let bs := ["# more", "<function g>", "pwd", "<end-function>"]
    ∃ a b, parseLines 0 .empty as = (.ok a, .empty) ∧ parseLines 0 .empty bs = (.ok b, .empty) ∧
      a.functions.map (·.name) = ["f"] ∧ b.functions.map (·.name) = ["g"] ∧
      parseLines 0 .empty (as ++ bs) = (.ok (a.followedBy 4 b), .empty) := by
  intro as bs
  refine ⟨_, _, rfl, rfl, rfl, rfl, (parse_append rfl ?_).1 _ _ rfl ?_⟩
  · decide
  · decide

end Script

end ConsoleScript
