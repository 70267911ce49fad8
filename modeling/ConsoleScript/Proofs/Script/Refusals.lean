-- SUMMARY: Where a text is refused: at one of its lines, and whatever lines come after that one.
import ConsoleScript.Proofs.Script.Placing

/-!
# Refusals

A parse ends at the first line that cannot be read or placed, and never looks at the
lines after it: `parseFrom_append_of_error`. Only what is still open at the end of the
text is refused for what does not come. Such an error names the line at which the open
body begins, which is a line of the text, as each opening is (`Grouping.Opened`).
-/

namespace ConsoleScript

/-- Whether the text ends where something is open. -/
def ParseError.isUnterminated : ParseError → Bool
  | unterminatedFunction .. | unterminatedSwitch _ => true
  | _ => false

/-- The line at which what the body belongs to begins. -/
def Frame.opening : Frame → Nat
  | .function _ first => first
  | .switch open_ | .case open_ _ _ => open_.line.number

namespace Grouping

variable {g g' : Grouping} {e : Entry} {err : ParseError} {n : Nat}

/-! ## Lines that are refused -/

/-- The error is at the line, and not that something is open. -/
def RefusedAt (line : Nat) (err : ParseError) : Prop :=
  err.line = line ∧ err.isUnterminated = false

theorem item_refused (h : g.item e = .error err) : RefusedAt e.line.number err := by
  simp only [item] at h
  split at h
  case h_1 => split at h <;> cases h
  case h_2 => cases h
  case h_3 => cases h
  case h_4 => cases h
  case h_5 => cases h
  case h_6 =>
    split at h
    · split at h
      · cases h; exact ⟨rfl, rfl⟩
      · cases h
    · cases h; exact ⟨rfl, rfl⟩
  case h_7 => cases h; exact ⟨rfl, rfl⟩

theorem betweenCases_refused {open_ : OpenSwitch} {outer : List Stmt}
    {frames : List (Frame × List Stmt)} (h : g.betweenCases open_ outer frames e = .error err) :
    RefusedAt e.line.number err := by
  simp only [betweenCases] at h
  split at h
  case h_1 =>
    split at h
    · cases h
    · cases h; exact ⟨rfl, rfl⟩
  case h_2 => cases h
  case h_3 => cases h
  case h_4 =>
    split at h
    · cases h; exact ⟨rfl, rfl⟩
    · cases h
  case h_5 => cases h; exact ⟨rfl, rfl⟩

theorem place_refused (h : g.place e = .error err) : RefusedAt e.line.number err := by
  unfold place at h
  split at h
  case h_1 => exact item_refused h
  case h_2 =>
    unfold inFunction at h
    split at h
    · cases h
    · exact item_refused h
  case h_3 => exact betweenCases_refused h
  case h_4 =>
    unfold inCase at h
    split at h
    · cases h
    · split at h
      · exact betweenCases_refused h
      · exact item_refused h
    · exact item_refused h

/-- A line is refused for what it is, where it stands. -/
theorem step_refused (h : g.step e = .error err) : RefusedAt e.line.number err := by
  unfold step at h
  split at h
  · exact place_refused h
  · split at h
    · cases h
    · cases h
    · exact place_refused h

/-! ## What is open -/

/-- The lines at which the bodies that are open begin. -/
def openings (g : Grouping) : List Nat := g.frames.map (·.1.opening)

theorem openings_endCase {open_ : OpenSwitch} {pattern : Option String} {first last : Nat}
    {outer : List Stmt} {frames : List (Frame × List Stmt)}
    (stack : g.frames = (.case open_ pattern first, outer) :: frames) :
    (endCase g open_ pattern first last outer frames).2.openings = g.openings := by
  cases pattern <;> simp [endCase, openings, stack, Frame.opening]

/-- A body that is open was so before, or begins at the line that is placed. -/
theorem Placed.openings_subset (h : Placed e g g') :
    g'.openings ⊆ e.line.number :: g.openings := by
  induction h with
  | skipped | plain | action | loop | condition => exact List.subset_cons_self _ _
  | switch => exact List.Subset.refl _
  | function directive top fresh => simp [openings, top, Frame.opening]
  | endFunction directive stack => simp [openings, stack]
  | case directive stack => simp [openings, stack, Frame.opening]
  | default directive stack => simp [openings, stack, Frame.opening]
  | endSwitch directive stack => simp [openings, stack]
  | endCase directive stack =>
    rw [openings_endCase stack]
    exact List.subset_cons_self _ _
  | nextCase stack _ next ih =>
    rw [openings_endCase stack] at ih
    exact ih

theorem openings_closeBlock (g : Grouping) : g.closeBlock.openings = g.openings := by
  simp [openings]

theorem step_openings_subset (h : g.step e = .ok g') :
    g'.openings ⊆ e.line.number :: g.openings := by
  cases step_stepped h with
  | added | otherwise => exact List.subset_cons_self _ _
  | endIf =>
    rw [openings_closeBlock]
    exact List.subset_cons_self _ _
  | placed hplain hend hp =>
    have hsub := hp.openings_subset
    rwa [openings_closeBlock] at hsub

theorem mem_openings {frame : Frame} {outer : List Stmt} {frames : List (Frame × List Stmt)}
    (stack : g.frames = (frame, outer) :: frames) : frame.opening ∈ g.openings := by
  simp [openings, stack]

/-- The end of the lines is refused for a body that is open. -/
theorem finish_refused (h : g.finish = .error err) :
    err.isUnterminated = true ∧ err.line ∈ g.openings := by
  rw [← openings_closeBlock]
  unfold finish at h
  simp only at h
  split at h
  case h_1 => cases h
  case h_2 stack => cases h; exact ⟨rfl, mem_openings stack⟩
  case h_3 stack => cases h; exact ⟨rfl, mem_openings stack⟩
  case h_4 stack => cases h; exact ⟨rfl, mem_openings stack⟩

end Grouping

/-! ## Parses that fail -/

namespace Script

variable {now : Int} {scope scope' : Scope} {n : Nat} {g g' : Grouping} {err : ParseError}
  {before all : List Entry} {raws : List String}

/-- The lines after the one at which a parse fails are not looked at. -/
theorem parseFrom_append_of_error (h : parseFrom now scope n g before raws = (.error err, scope'))
    (more : List String) :
    parseFrom now scope n g before (raws ++ more) = (.error err, scope') := by
  induction raws generalizing scope n g before with
  | nil => cases h
  | cons raw rest ih =>
    rw [List.cons_append, parseFrom]
    rw [parseFrom] at h
    split
    case h_1 hread => rw [hread] at h; exact h
    case h_2 entry scope₁ hread =>
      simp only [hread] at h
      cases hstep : g.step entry with
      | error e => simpa only [hstep] using h
      | ok g₁ =>
        simp only [hstep] at h ⊢
        exact ih h

/-- A parse fails at one of the lines that it is given, before the end of the text. -/
theorem parseFrom_refused (h : parseFrom now scope n g before raws = (.error err, scope')) :
    n ≤ err.line ∧ err.line < n + raws.length ∧ err.isUnterminated = false := by
  induction raws generalizing scope n g before with
  | nil => cases h
  | cons raw rest ih =>
    rw [parseFrom] at h
    split at h
    case h_1 e scope₁ hread =>
      cases h
      cases e <;> simp [ParseError.ofDirective, ParseError.line, ParseError.isUnterminated]
    case h_2 entry scope₁ hread =>
      have hnumber := (Line.read_ok hread).1
      cases hstep : g.step entry with
      | error e =>
        simp only [hstep] at h
        cases h
        obtain ⟨hline, hopen⟩ := Grouping.step_refused hstep
        rw [hline, hnumber, List.length_cons]
        exact ⟨by omega, by omega, hopen⟩
      | ok g₁ =>
        simp only [hstep] at h
        obtain ⟨hfirst, hlast, hopen⟩ := ih h
        rw [List.length_cons]
        exact ⟨by omega, by omega, hopen⟩

/-- What is open after some lines was open before them, or begins at one of them. -/
theorem parseFrom_openings (h : parseFrom now scope n g before raws = (.ok (g', all), scope')) :
    ∀ m ∈ g'.openings, m ∈ g.openings ∨ n ≤ m ∧ m < n + raws.length := by
  induction raws generalizing scope n g before with
  | nil => cases h; exact fun m hm => .inl hm
  | cons raw rest ih =>
    rw [parseFrom] at h
    split at h
    case h_1 => cases h
    case h_2 entry scope₁ hread =>
      have hnumber := (Line.read_ok hread).1
      cases hstep : g.step entry with
      | error e => simp only [hstep] at h; cases h
      | ok g₁ =>
        simp only [hstep] at h
        intro m hm
        rw [List.length_cons]
        rcases ih h m hm with hm | hm
        · rcases List.mem_cons.mp (Grouping.step_openings_subset hstep hm) with rfl | hm
          · exact .inr (by omega)
          · exact .inl hm
        · exact .inr (by omega)

theorem ofGrouping_refused {entries : List Entry} (h : ofGrouping g entries = .error err) :
    err.isUnterminated = true ∧ err.line ∈ g.openings := by
  unfold ofGrouping at h
  split at h
  case h_1 e hfinish => cases h; exact Grouping.finish_refused hfinish
  case h_2 => cases h

/-- A text that is refused is refused at one of its lines. Unless the reason is that it
    ends where something is open, it is refused for the same reason whatever lines come
    after it, and leaves the same scope. -/
theorem refusal_stable (h : parseLines now scope raws = (.error err, scope')) :
    1 ≤ err.line ∧ err.line ≤ raws.length ∧
      (err.isUnterminated = false →
        ∀ more, parseLines now scope (raws ++ more) = (.error err, scope')) := by
  unfold parseLines at h
  split at h
  case h_1 e scope₁ hparse =>
    cases h
    obtain ⟨hfirst, hlast, -⟩ := parseFrom_refused hparse
    refine ⟨hfirst, by omega, fun _ more => ?_⟩
    rw [parseLines, parseFrom_append_of_error hparse more]
  case h_2 g entries scope₁ hparse =>
    obtain ⟨hmade, rfl⟩ := Prod.mk.inj h
    obtain ⟨hopen, hline⟩ := ofGrouping_refused hmade
    rcases parseFrom_openings hparse err.line hline with hstart | hline
    · cases hstart
    · refine ⟨hline.1, by omega, fun hclosed => ?_⟩
      rw [hopen] at hclosed
      cases hclosed

/-- Two switches, of which the second has two defaults. It is refused where the second
    default stands. -/
theorem refusal_stable_secondDefault :
    let raws := ["<switch>", "<end-switch>", "<switch>", "<default>", "ls", "<default>"]
    parseLines 0 .empty raws = (.error (.secondDefault 6 3), .empty) ∧
      1 ≤ (ParseError.secondDefault 6 3).line ∧ (ParseError.secondDefault 6 3).line ≤ raws.length ∧
      ((ParseError.secondDefault 6 3).isUnterminated = false →
        ∀ more, parseLines 0 .empty (raws ++ more) = (.error (.secondDefault 6 3), .empty)) := by
  intro raws
  have hparse : parseLines 0 .empty raws = (.error (.secondDefault 6 3), .empty) := by
    rfl
  exact ⟨hparse, refusal_stable hparse⟩

end Script

end ConsoleScript
