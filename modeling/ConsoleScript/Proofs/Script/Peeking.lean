-- SUMMARY: What a raw line shows before it is read, and that reading it finds nothing else.
import ConsoleScript.Proofs.Script.Placing
import ConsoleScript.Proofs.Text.Words

/-!
# Looking ahead

Whether a body ends before a line can be seen on the raw line: it is blank or a
comment, or it has the shape of a directive, and then its kind can be told as well.
Reading a line classifies it by tests of its own, in another order. The two never
disagree: `looksBlank_eq` and `looksDirective_eq` compare the tests with the class
of the line, and `peek?_eq_some_iff` compares the directive that is seen with the one
that is read.
-/

namespace ConsoleScript

/-! ## Kinds of directives -/

namespace Directive

/-- The kinds of directives. -/
inductive Kind where
  | key
  | watch
  | console
  | wait
  | exit
  | ifFound
  | ifNotFound
  | retry
  | repeatTimes
  | whileFound
  | whileNotFound
  | otherwise
  | endIf
  | doReturn
  | switch
  | case
  | default
  | endCase
  | endSwitch
  | includeFile
  | screenshot
  | function
  | endFunction
  | call
  | doBreak
  | bind
  deriving DecidableEq, Repr

/-- The kind of a directive. -/
def kind : Directive → Kind
  | .action (.key _) => .key
  | .action (.watch _ _) => .watch
  | .action (.console _) => .console
  | .action (.wait _) => .wait
  | .action (.exit _) => .exit
  | .action .endIf => .endIf
  | .action .doReturn => .doReturn
  | .action .doBreak => .doBreak
  | .action (.includeFile _) => .includeFile
  | .action (.screenshot _ _) => .screenshot
  | .action (.call _ _) => .call
  | .action (.bind _ _) => .bind
  | .loop (.retry _) => .retry
  | .loop (.repeatTimes _) => .repeatTimes
  | .loop (.whileScreen .found _ _ _) => .whileFound
  | .loop (.whileScreen .notFound _ _ _) => .whileNotFound
  | .condition ⟨.found, _, _⟩ => .ifFound
  | .condition ⟨.notFound, _, _⟩ => .ifNotFound
  | .switch _ => .switch
  | .marker .otherwise => .otherwise
  | .marker (.case _) => .case
  | .marker .default => .default
  | .marker .endCase => .endCase
  | .marker .endSwitch => .endSwitch
  | .marker (.function _) => .function
  | .marker .endFunction => .endFunction

/-- The directives that take no arguments. -/
def bare : List Directive :=
  [.marker .otherwise, .action .endIf, .action .doReturn, .action .doBreak, .marker .default,
    .marker .endCase, .marker .endSwitch, .marker .endFunction]

/-- Where there are no arguments, the kind leaves nothing open. -/
theorem eq_of_kind_eq {d d' : Directive} (hbare : d' ∈ bare) (h : d.kind = d'.kind) :
    d = d' := by
  simp only [bare, List.mem_cons, List.not_mem_nil, or_false] at hbare
  revert h
  rcases hbare with rfl | rfl | rfl | rfl | rfl | rfl | rfl | rfl
  all_goals
    unfold kind
    split <;> simp

end Directive

namespace LineKind

theorem isDirective_eq_true_iff {kind : LineKind} :
    kind.isDirective = true ↔ kind = .directive ∨ kind = .conditional := by
  cases kind <;> decide

theorem isSkipped_eq_true_iff {kind : LineKind} :
    kind.isSkipped = true ↔ kind = .blank ∨ kind = .comment := by
  cases kind <;> decide

end LineKind

/-! ## Looking at a line -/

namespace Line

/-- A line that ends every implicit body: nothing, or a comment. -/
def looksBlank (trimmed : String) : Bool :=
  trimmed.isEmpty || Text.beginsWith trimmed "#"

/-- A line with the shape of a directive. -/
def looksDirective (trimmed : String) : Bool :=
  isBracketed trimmed.toList && !Scope.isAssignment trimmed

/-- The directive of a raw line, if it is a directive line whose content can be read. -/
def peek? (raw : String) : Option Directive :=
  let trimmed := Text.trim raw
  if looksDirective trimmed then (Directive.read (content trimmed)).toOption else none

/-- The kind of directive that a raw line holds, if it holds one. -/
def peekKind? (raw : String) : Option Directive.Kind :=
  (peek? raw).map Directive.kind

variable {trimmed raw : String}

/-- What stands between brackets starts with one, so that no test before the one for
    brackets can take it for a blank line, a comment or an escaped text. -/
theorem exists_eq_bracket_cons {cs : List Char} (h : isBracketed cs = true) :
    ∃ rest, cs = '<' :: rest := by
  simp only [isBracketed, Bool.and_eq_true, beq_iff_eq] at h
  exact List.head?_eq_some_iff.mp h.1.2

theorem looksBlank_of_isBracketed (h : isBracketed trimmed.toList = true) :
    looksBlank trimmed = false := by
  obtain ⟨rest, hcs⟩ := exists_eq_bracket_cons h
  have hne : trimmed ≠ "" := by
    rintro rfl
    cases hcs
  have hcomment : Text.beginsWith trimmed "#" = false := by
    rw [Text.beginsWith, hcs]
    rfl
  simp [looksBlank, hne, hcomment]

/-- The class of a line that stands between brackets. -/
theorem classify_of_isBracketed (h : isBracketed trimmed.toList = true) :
    (classify trimmed).isDirective = !Scope.isAssignment trimmed := by
  obtain ⟨rest, hcs⟩ := exists_eq_bracket_cons h
  have hblank := looksBlank_of_isBracketed h
  simp only [looksBlank, Bool.or_eq_false_iff] at hblank
  have hescape : Text.beginsWith trimmed "\\<" = false := by
    rw [Text.beginsWith, hcs]
    rfl
  unfold classify
  rw [hblank.1, hblank.2, hescape, h]
  cases Scope.isAssignment trimmed with
  | true => rfl
  | false =>
    simp only [Bool.false_eq_true, ↓reduceIte]
    split <;> rfl

/-- A line looks blank exactly if it is classified as one that is skipped. -/
theorem looksBlank_eq (trimmed : String) : looksBlank trimmed = (classify trimmed).isSkipped := by
  unfold looksBlank classify
  cases trimmed.isEmpty with
  | true => rfl
  | false =>
    cases Text.beginsWith trimmed "#" with
    | true => rfl
    | false =>
      simp only [Bool.or_self, Bool.false_eq_true, ↓reduceIte]
      repeat' split
      all_goals rfl

/-- A line looks like a directive exactly if it is classified as one. -/
theorem looksDirective_eq (trimmed : String) :
    looksDirective trimmed = (classify trimmed).isDirective := by
  cases h : isBracketed trimmed.toList with
  | true => rw [classify_of_isBracketed h, looksDirective, h, Bool.true_and]
  | false =>
    simp only [looksDirective, h, Bool.false_and, classify, Bool.false_eq_true, ↓reduceIte]
    repeat' split
    all_goals rfl

theorem looksDirective_of_looksBlank (h : looksBlank trimmed = true) :
    looksDirective trimmed = false := by
  rw [looksBlank_eq] at h
  rw [looksDirective_eq]
  cases hkind : classify trimmed with
  | blank | comment => rfl
  | _ => simp [hkind, LineKind.isSkipped] at h

/-- The directive that is seen on a raw line is the one that the line is read with, whatever
    the line's number and in every scope. -/
theorem peek?_eq_some_iff {d : Directive} (now : Int) (scope : Scope) (n : Nat) :
    peek? raw = some d ↔
      ∃ e scope', read now scope n raw = (.ok e, scope') ∧ e.directive = some d := by
  simp only [peek?, looksDirective_eq]
  cases hkind : classify (Text.trim raw) with
  | blank | comment | text => simp [read, hkind, LineKind.isDirective]
  | assignment =>
    simp only [read, hkind, LineKind.isDirective]
    cases scope.readAssignment? now (Text.trim raw) <;> simp
  | directive | conditional =>
    simp only [read, hkind, LineKind.isDirective]
    cases Directive.read (content (Text.trim raw)) <;> simp [Except.toOption]

/-- The kind that is seen on a raw line is that of the directive which the line is read with. -/
theorem peekKind?_eq_some_iff {kind : Directive.Kind} (now : Int) (scope : Scope) (n : Nat) :
    peekKind? raw = some kind ↔
      ∃ e d scope', read now scope n raw = (.ok e, scope') ∧ e.directive = some d ∧
        d.kind = kind := by
  simp only [peekKind?, Option.map_eq_some_iff, peek?_eq_some_iff now scope n]
  constructor
  · rintro ⟨d, ⟨e, scope', hread, hd⟩, hkind⟩
    exact ⟨e, d, scope', hread, hd, hkind⟩
  · rintro ⟨e, d, scope', hread, hd, hkind⟩
    exact ⟨d, ⟨e, scope', hread, hd⟩, hkind⟩

theorem peekKind?_trim (raw : String) : peekKind? (Text.trim raw) = peekKind? raw := by
  rw [peekKind?, peekKind?, peek?, peek?, Text.trim_trim]

/-! ## Lines that are read -/

section Read

variable {now : Int} {scope scope' : Scope} {n : Nat} {e : Entry}

theorem kind_of_read (h : read now scope n raw = (.ok e, scope')) :
    e.line.kind = classify (Text.trim raw) := by
  cases hkind : classify (Text.trim raw) with
  | blank | comment | text =>
    simp only [read, hkind] at h
    cases h
    rfl
  | assignment =>
    simp only [read, hkind] at h
    split at h <;> cases h <;> rfl
  | directive | conditional =>
    simp only [read, hkind] at h
    split at h <;> cases h
    rfl

theorem isSkipped_of_read (h : read now scope n raw = (.ok e, scope')) :
    e.line.kind.isSkipped = looksBlank (Text.trim raw) := by
  rw [looksBlank_eq, kind_of_read h]

theorem isSome_directive_of_read (h : read now scope n raw = (.ok e, scope')) :
    e.directive.isSome = looksDirective (Text.trim raw) := by
  rw [looksDirective_eq, (read_ok h).2, kind_of_read h]

/-- The directive of a line is what was seen on it. -/
theorem directive_of_read (h : read now scope n raw = (.ok e, scope')) :
    e.directive = peek? raw := by
  refine Option.ext fun d => ?_
  rw [peek?_eq_some_iff now scope n, h]
  constructor
  · exact fun hd => ⟨e, scope', rfl, hd⟩
  · rintro ⟨_, _, heq, hd⟩
    cases heq
    exact hd

theorem kind_directive_of_read (h : read now scope n raw = (.ok e, scope')) :
    e.directive.map Directive.kind = peekKind? raw := by
  rw [peekKind?, directive_of_read h]

end Read

end Line

end ConsoleScript
