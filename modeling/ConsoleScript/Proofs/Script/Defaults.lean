-- SUMMARY: What a parse leaves set, and what validation finds in the scope after it.
import ConsoleScript.Proofs.Scope.Storing
import ConsoleScript.Proofs.Script.Flags
import ConsoleScript.Proofs.Script.Names
import ConsoleScript.Proofs.Script.WellFormed

/-!
# Validation before and after a parse

A script may be checked in the scope that its parse leaves, or in the one that the parse
began with. The parse sets the names that the lines bind, which validation counts as set
in both scopes, and those of the defaults that the lines store while they are expanded
(`isSet_parse`). So the two checks differ just in what they say of the latter: in the
scope after the parse these are not reported as unset (`validate_parsed`).
-/

namespace ConsoleScript

/-! ## What reading sets -/

theorem Entry.boundName?_eq_some_iff {e : Entry} (h : e.line.binding = none) {name : String} :
    e.boundName? = some name ↔ ∃ value, e.directive = some (.action (.bind name value)) := by
  unfold boundName?
  split
  case h_1 hbinding =>
    rw [h] at hbinding
    cases hbinding
  case h_2 hdirective =>
    simp [hdirective, eq_comm]
  case h_3 hnone =>
    simp only [reduceCtorEq, false_iff]
    rintro ⟨value, hdirective⟩
    exact hnone name value h hdirective

namespace Line

/-- The names of the defaults that a directive stores when it binds a variable. -/
def valueDefaults (scope : Scope) : Directive → List String
  | .action (.bind _ value) => scope.defaultNames value
  | _ => []

/-- The names of the defaults that a line stores when it is read. The line of a directive
    is expanded as a whole too, after the directive has had its effect. -/
def defaultNames (now : Int) (scope : Scope) (raw : String) : List String :=
  let trimmed := Text.trim raw
  match classify trimmed with
  | .blank | .comment => []
  | .text => scope.defaultNames (unescape trimmed)
  | .assignment =>
    match Scope.splitAssignment? trimmed with
    | none => []
    | some (_, value) => scope.defaultNames (Scope.stripQuotes value)
  | .directive | .conditional =>
    match Directive.read (content trimmed) with
    | .error _ => []
    | .ok directive =>
      valueDefaults scope directive ++ (bindDirective now scope directive).defaultNames trimmed

variable {now : Int} {scope scope' : Scope} {n : Nat} {raw : String} {e : Entry}

theorem isSet_bindDirective (directive : Directive) (name : String) :
    (bindDirective now scope directive).isSet name = true ↔ name ∈ valueDefaults scope directive ∨
      (∃ value, directive = .action (.bind name value)) ∨ scope.isSet name = true := by
  by_cases hbind : ∃ bound value, directive = .action (.bind bound value)
  · obtain ⟨bound, value, rfl⟩ := hbind
    simp only [bindDirective, valueDefaults, Scope.isSet_set, Bool.or_eq_true, beq_iff_eq,
      Scope.isSet_expand, Directive.action.injEq, Action.bind.injEq, exists_and_left,
      exists_eq', and_true]
    grind
  · have hnone : ∀ value, directive ≠ .action (.bind name value) := by
      rintro value rfl
      exact hbind ⟨name, value, rfl⟩
    have hscope : bindDirective now scope directive = scope := by
      unfold bindDirective
      split
      · exact absurd ⟨_, _, rfl⟩ hbind
      · rfl
    have hdefaults : valueDefaults scope directive = [] := by
      unfold valueDefaults
      split
      · exact absurd ⟨_, _, rfl⟩ hbind
      · rfl
    simp [hscope, hdefaults, hnone]

/-- The names that are set after a line is read. -/
theorem isSet_read (h : read now scope n raw = (.ok e, scope')) (name : String) :
    scope'.isSet name = true ↔ name ∈ defaultNames now scope raw ∨ e.boundName? = some name ∨
      scope.isSet name = true := by
  cases hkind : classify (Text.trim raw) with
  | blank | comment =>
    simp only [read, hkind] at h
    cases h
    simp [defaultNames, hkind, Entry.boundName?]
  | text =>
    simp only [read, hkind] at h
    cases h
    simp [defaultNames, hkind, Entry.boundName?, Scope.isSet_expand]
  | assignment =>
    simp only [read, hkind, Scope.readAssignment?] at h
    simp only [defaultNames, hkind]
    cases hsplit : Scope.splitAssignment? (Text.trim raw) with
    | none =>
      simp only [hsplit] at h
      cases h
      simp [Entry.boundName?]
    | some parts =>
      obtain ⟨bound, value⟩ := parts
      simp only [hsplit] at h
      cases h
      simp only [Entry.boundName?, Scope.isSet_set, Bool.or_eq_true, beq_iff_eq,
        Scope.isSet_expand, Option.some.injEq]
      grind
  | directive | conditional =>
    simp only [read, hkind] at h
    simp only [defaultNames, hkind]
    cases hread : Directive.read (content (Text.trim raw)) with
    | error err => simp only [hread] at h; cases h
    | ok directive =>
      simp only [hread] at h
      cases h
      rw [Entry.boundName?_eq_some_iff rfl]
      simp only [Scope.isSet_expand, List.mem_append, isSet_bindDirective, Option.some.injEq]
      grind

end Line

namespace Script

/-! ## What a parse sets -/

/-- The names of the defaults that lines store when they are read one after the other. -/
def defaultNames (now : Int) (scope : Scope) (n : Nat) : List String → List String
  | [] => []
  | raw :: rest =>
    Line.defaultNames now scope raw ++ defaultNames now (Line.read now scope n raw).2 (n + 1) rest

variable {now : Int} {scope scope' : Scope} {n : Nat} {raws : List String}
  {entries : List Entry} {script : Script}

theorem isSet_readLines (h : readLines now scope n raws = (.ok entries, scope')) (name : String) :
    scope'.isSet name = true ↔ name ∈ defaultNames now scope n raws ∨
      name ∈ entries.filterMap Entry.boundName? ∨ scope.isSet name = true := by
  induction raws generalizing scope n entries with
  | nil => cases h; simp [defaultNames]
  | cons raw raws ih =>
    obtain ⟨e, scope₁, rest, hread, hrest, rfl⟩ := readLines_cons_eq_ok_iff.mp h
    rw [ih hrest, Line.isSet_read hread, defaultNames, hread]
    simp only [List.mem_append, List.mem_filterMap, List.exists_mem_cons_iff]
    grind

/-- The names that are set after a parse. -/
theorem isSet_parse (h : parseLines now scope raws = (.ok script, scope')) (name : String) :
    scope'.isSet name = true ↔ name ∈ defaultNames now scope 1 raws ∨
      name ∈ script.summary.boundNames ∨ scope.isSet name = true := by
  obtain ⟨entries, g, hread, -, hmade⟩ := parseLines_eq_ok_iff.mp h
  rw [isSet_readLines hread, ofGrouping_summary hmade, Summary.of, mem_sortedNames,
    List.reverse_reverse]

/-! ## Validation in two scopes -/

end Script

theorem Issue.le_trans (a b c : Issue) (hab : a.le b = true) (hbc : b.le c = true) :
    a.le c = true := by
  simp only [le, Bool.or_eq_true, Bool.and_eq_true, decide_eq_true_eq, beq_iff_eq,
    Bool.not_eq_true'] at *
  grind

theorem Issue.le_total (a b : Issue) : a.le b = true ∨ b.le a = true := by
  simp only [le, Bool.or_eq_true, Bool.and_eq_true, decide_eq_true_eq, beq_iff_eq,
    Bool.not_eq_true']
  grind

/-- Whether the issue does not say that one of the names is unset. -/
def Issue.spares (names : List String) (issue : Issue) : Bool :=
  match issue.finding with
  | .unsetVariable name => !names.contains name
  | _ => true

namespace Script

namespace Check

variable {check : Check} {scope' : Scope} {names : List String}

theorem spares_of_actionFinding {inLoop : Bool} {a : Action} {finding : Finding}
    (h : check.actionFinding? inLoop a = some finding) (line : Nat) :
    Issue.spares names ⟨line, finding⟩ = true := by
  unfold actionFinding? at h
  split at h
  case h_4 => cases h
  all_goals
    split at h
    · cases h
    · cases h
      rfl

section

variable (hset : ∀ name, scope'.isSet name = true ↔
  name ∈ names ∨ name ∈ check.boundNames ∨ check.scope.isSet name = true) (inFunction : Bool)
include hset

theorem references_spares (line : Nat) (text : String) :
    ({ check with scope := scope' } : Check).references inFunction line text =
      (check.references inFunction line text).filter (Issue.spares names) := by
  unfold references
  rw [List.filter_filterMap]
  refine List.filterMap_congr fun name _ => ?_
  have hname := hset name
  by_cases hnames : name ∈ names
  · -- the default has set the name, and what was said of it before is left out
    simp only [hname.mpr (.inl hnames), Bool.true_or, if_true]
    split
    · rfl
    · simp [Option.filter, Issue.spares, hnames]
  · have hknown : (scope'.isSet name || check.boundNames.contains name) =
        (check.scope.isSet name || check.boundNames.contains name) := by
      rw [Bool.eq_iff_iff]
      simp only [Bool.or_eq_true, hname, List.contains_iff_mem]
      grind
    simp only [hknown]
    split
    · rfl
    · simp [Option.filter, Issue.spares, hnames]

theorem flatMap_references_spares (line : Nat) (texts : List String) :
    texts.flatMap (({ check with scope := scope' } : Check).references inFunction line) =
      (texts.flatMap (check.references inFunction line)).filter (Issue.spares names) := by
  rw [List.filter_flatMap]
  exact List.flatMap_congr fun text _ => references_spares hset inFunction line text

/-- What a statement itself is found to lack is the same, up to the names of the defaults. -/
theorem own_spares (inLoop : Bool) (s : Stmt) :
    ({ check with scope := scope' } : Check).own inFunction inLoop s =
      (check.own inFunction inLoop s).filter (Issue.spares names) := by
  cases s with
  | plain line =>
    simp only [own, stmt]
    split
    · rfl
    · split
      · rfl
      · exact references_spares hset inFunction line.number line.trimmed
  | action line a =>
    have hfinding : ((check.actionFinding? inLoop a).toList.map (Issue.mk line.number)).filter
          (Issue.spares names) =
        (check.actionFinding? inLoop a).toList.map (Issue.mk line.number) := by
      rw [List.filter_eq_self]
      intro issue hissue
      obtain ⟨finding, hfinding, rfl⟩ := List.mem_map.mp hissue
      exact spares_of_actionFinding (Option.mem_toList.mp hfinding) line.number
    simp only [own, stmt, List.filter_append, hfinding, flatMap_references_spares hset inFunction]
    rfl
  | loop line l body => exact flatMap_references_spares hset inFunction line.number (loopTexts l)
  | branch line c yes no => exact references_spares hset inFunction line.number c.text
  | switch line o cases otherwise =>
    have hpatterns := flatMap_references_spares hset inFunction line.number
      (cases.map (·.pattern))
    simp only [List.flatMap_map] at hpatterns
    exact hpatterns

theorem stmts_spares (inLoop : Bool) (ss : List Stmt) :
    ({ check with scope := scope' } : Check).stmts inFunction inLoop ss =
      (check.stmts inFunction inLoop ss).filter (Issue.spares names) := by
  simp only [stmts_eq_flatMap_flagged, own_spares hset inFunction, List.filter_flatMap]

end

end Check

theorem reportOnce_filter {p : Issue → Bool} {seen seen' : List Issue}
    (hseen : ∀ issue, p issue = true → (issue ∈ seen' ↔ issue ∈ seen)) (issues : List Issue) :
    reportOnce seen' (issues.filter p) = (reportOnce seen issues).filter p := by
  induction issues generalizing seen seen' with
  | nil => rfl
  | cons issue rest ih =>
    by_cases hp : p issue = true
    · have hagain : seen'.contains issue = seen.contains issue := by
        rw [Bool.eq_iff_iff, List.contains_iff_mem, List.contains_iff_mem]
        exact hseen issue hp
      have hcons : ∀ other, p other = true → (other ∈ issue :: seen' ↔ other ∈ issue :: seen) := by
        intro other hother
        rw [List.mem_cons, List.mem_cons, hseen other hother]
      rw [List.filter_cons_of_pos hp, reportOnce, reportOnce, hagain]
      split
      · split
        · exact ih hseen
        · rw [List.filter_cons_of_pos hp, ih hcons]
      · rw [List.filter_cons_of_pos hp, ih hseen]
    · have hcons : ∀ other, p other = true → (other ∈ seen' ↔ other ∈ issue :: seen) := by
        intro other hother
        have hne : other ≠ issue := fun heq => hp (heq ▸ hother)
        rw [List.mem_cons, hseen other hother, or_iff_right hne]
      rw [List.filter_cons_of_neg hp, reportOnce]
      split
      · split
        · exact ih hseen
        · rw [List.filter_cons_of_neg hp, ih hcons]
      · rw [List.filter_cons_of_neg hp, ih hseen]

/-- In the scope after a parse, validation finds what it finds in the one before, but for
    names of defaults that the parse has stored. -/
theorem validate_parsed {now : Int} {scope scope' : Scope} {raws : List String} {script : Script}
    (h : parseLines now scope raws = (.ok script, scope')) :
    script.validate scope' =
      (script.validate scope).filter (Issue.spares (defaultNames now scope 1 raws)) := by
  have hset : ∀ name, scope'.isSet name = true ↔ name ∈ defaultNames now scope 1 raws ∨
      name ∈ (script.checkIn scope).boundNames ∨ (script.checkIn scope).scope.isSet name = true :=
    isSet_parse h
  have hstmts := fun inFunction => Check.stmts_spares hset inFunction false
  simp only [checkIn] at hstmts
  simp only [validate, hstmts]
  rw [← sortBy_filter Issue.le_trans Issue.le_total, ← reportOnce_filter (fun _ _ => Iff.rfl),
    List.filter_append, List.filter_flatMap]

/-- The check of a script finds the same before and after its parse exactly if no name of a
    default that the parse stores is reported as unset. -/
theorem validate_parsed_eq_iff {now : Int} {scope scope' : Scope} {text : String}
    {script : Script} (h : parse now scope text = (.ok script, scope')) :
    script.validate scope' = script.validate scope ↔
      ∀ n name, ⟨n, .unsetVariable name⟩ ∈ script.validate scope →
        name ∉ defaultNames now scope 1 (Text.lines text) := by
  rw [validate_parsed h, List.filter_eq_self]
  constructor
  · intro hspared n name hissue
    have := hspared _ hissue
    simpa [Issue.spares] using this
  · rintro hnames ⟨n, finding⟩ hissue
    cases finding with
    | unsetVariable name => simpa [Issue.spares] using hnames n name hissue
    | _ => rfl

/-- A variable that nothing sets is reported in both scopes. -/
theorem validate_parsed_eq_iff_unset :
    let text := "$\x7bX:=a\x7d\n$Y"
    ∃ script scope', parse 0 .empty text = (.ok script, scope') ∧
      script.validate .empty = [⟨2, .unsetVariable "Y"⟩] ∧
      (script.validate scope' = script.validate .empty ↔
        ∀ n name, ⟨n, .unsetVariable name⟩ ∈ script.validate .empty →
          name ∉ defaultNames 0 .empty 1 (Text.lines text)) ∧
      script.validate scope' = [⟨2, .unsetVariable "Y"⟩] := by
  intro text
  have hlines : Text.lines text = ["$\x7bX:=a\x7d", "$Y"] := by decide +kernel
  have hparse : parse 0 .empty text = parseLines 0 .empty ["$\x7bX:=a\x7d", "$Y"] :=
    congrArg _ hlines
  refine ⟨_, _, hparse.trans rfl, ?_, validate_parsed_eq_iff (hparse.trans rfl), ?_⟩
  · decide +kernel
  · decide +kernel

/-- A variable that only a default sets is reported before the parse, and not after it. -/
theorem default_reported_before_only :
    let text := "$\x7bX:=a\x7d\n$X"
    ∃ script scope', parse 0 .empty text = (.ok script, scope') ∧
      script.validate .empty = [⟨2, .unsetVariable "X"⟩] ∧ script.validate scope' = [] := by
  intro text
  have hlines : Text.lines text = ["$\x7bX:=a\x7d", "$X"] := by decide +kernel
  have hparse : parse 0 .empty text = parseLines 0 .empty ["$\x7bX:=a\x7d", "$X"] :=
    congrArg _ hlines
  refine ⟨_, _, hparse.trans rfl, ?_, ?_⟩
  · decide +kernel
  · decide +kernel

end Script

end ConsoleScript
