-- SUMMARY: Where functions and the parts of switches begin and end, and what is known of open ones.
import ConsoleScript.Proofs.Script.Levels
import ConsoleScript.Proofs.Script.Regrouping

/-!
# Ranges

`Function.Laid` and `SwitchLaid` say where a function and the parts of a switch
begin and end among the lines that were taken, and that they hold the lines of
their bodies. `Frame.Open` says of an open body what its range will need when it
ends: no line so far would have ended it. One more line keeps all of this, as long
as it ends nothing that is open.
-/

namespace ConsoleScript

/-! ## What is made -/

/-- The statements `body` are those of a part of the switch at line `line`. -/
structure PartOf (lines : List Entry) (line : Nat) (pattern : Option String) (first last : Nat)
    (body : List Stmt) : Prop where
  part : Part lines (switchLevel lines line + 1) pattern first last
  after : line < first
  /-- The switch does not end before the part. -/
  unended : ∀ x ∈ lines, line < x.line.number → x.line.number < first →
    x.endsSwitch = true → switchLevel lines x.line.number ≠ switchLevel lines line + 1
  inside : ∀ x ∈ Stmt.headsAll body, first < x.line.number ∧ x.line.number ≤ last

/-- The parts of a switch at line `line` that have ended. -/
structure SwitchLaid (lines : List Entry) (line : Nat) (cases : List (Case Stmt))
    (otherwise : Option (List Stmt)) : Prop where
  opens : ∃ e ∈ lines, e.line.number = line
  level : switchLevel lines (line + 1) = switchLevel lines line + 1
  parts : ∀ c ∈ cases, PartOf lines line (some c.pattern) c.first c.last c.body
  order : cases.Pairwise fun c c' => c.first < c'.first
  default : ∀ body, otherwise = some body → ∃ first last, PartOf lines line none first last body

/-- A function that has ended. -/
structure Function.Laid (lines : List Entry) (f : Function) : Prop where
  begins : ∃ e ∈ lines, e.line.number = f.first ∧ e.directive = some (.marker (.function f.name))
  ends : ∃ e ∈ lines, e.line.number = f.last ∧ e.directive = some (.marker .endFunction)
  first_lt_last : f.first < f.last
  unended : ∀ x ∈ lines, f.first < x.line.number → x.line.number < f.last →
    x.directive ≠ some (.marker .endFunction)
  level_first : switchLevel lines f.first = 0
  level_last : switchLevel lines f.last = 0
  inside : ∀ x ∈ Stmt.headsAll f.body, f.first < x.line.number ∧ x.line.number < f.last

namespace Stmt

/-- What is known of the parts of a statement, if it is a switch. -/
def Laid (lines : List Entry) : Stmt → Prop
  | .switch line _ cases otherwise => SwitchLaid lines line.number cases otherwise
  | _ => True

/-- The same of a statement and all inside of it. -/
def DeepLaid (lines : List Entry) (s : Stmt) : Prop := ∀ t ∈ s.nodes, t.Laid lines

theorem deepLaid_iff {lines : List Entry} {s : Stmt} :
    s.DeepLaid lines ↔ s.Laid lines ∧ ∀ body ∈ s.bodies, ∀ t ∈ body, t.DeepLaid lines :=
  forall_mem_nodes

theorem deepLaid_of_bodies {lines : List Entry} {s : Stmt} (hs : s.Laid lines)
    (hbodies : s.bodies.flatten = []) : s.DeepLaid lines := by
  refine deepLaid_iff.mpr ⟨hs, fun body hbody t ht => ?_⟩
  have hmem : t ∈ s.bodies.flatten := List.mem_flatten.mpr ⟨body, hbody, ht⟩
  rw [hbodies] at hmem
  cases hmem

end Stmt

/-! ## One more line -/

section Append

variable {lines : List Entry} {e : Entry} (hnew : ∀ y ∈ lines, y.line.number < e.line.number)
include hnew

theorem PartOf.append {line first last : Nat} {pattern : Option String} {body : List Stmt}
    (h : PartOf lines line pattern first last body) :
    PartOf (lines ++ [e]) line pattern first last body := by
  obtain ⟨marker, hmem, hfirst, -⟩ := h.part.begins
  have hmarker := hnew marker hmem
  have hafter := h.after
  have hline : switchLevel (lines ++ [e]) line = switchLevel lines line :=
    switchLevel_append (by omega)
  refine ⟨by rw [hline]; exact h.part.append hnew, hafter, fun x hx hlt hxfirst hends => ?_,
    h.inside⟩
  have hx := mem_of_mem_append hx (by omega)
  rw [hline, switchLevel_append (hnew x hx).le]
  exact h.unended x hx hlt hxfirst hends

theorem SwitchLaid.append {line : Nat} {cases : List (Case Stmt)} {otherwise : Option (List Stmt)}
    (h : SwitchLaid lines line cases otherwise) :
    SwitchLaid (lines ++ [e]) line cases otherwise where
  opens := by
    obtain ⟨opening, hmem, hnumber⟩ := h.opens
    exact ⟨opening, List.mem_append_left _ hmem, hnumber⟩
  level := by
    obtain ⟨opening, hmem, rfl⟩ := h.opens
    rw [switchLevel_append (hnew opening hmem), switchLevel_append (hnew opening hmem).le, h.level]
  parts c hc := (h.parts c hc).append hnew
  order := h.order
  default body hbody := by
    obtain ⟨first, last, hpart⟩ := h.default body hbody
    exact ⟨first, last, hpart.append hnew⟩

theorem Stmt.DeepLaid.append {s : Stmt} (h : s.DeepLaid lines) : s.DeepLaid (lines ++ [e]) := by
  intro t ht
  have hlaid := h t ht
  cases t with
  | switch line o cases otherwise => exact SwitchLaid.append hnew hlaid
  | plain line => trivial
  | action line a => trivial
  | loop line l body => trivial
  | branch line c yes no => trivial

theorem Function.Laid.append {f : Function} (h : f.Laid lines) : f.Laid (lines ++ [e]) := by
  obtain ⟨opening, hopening, hfirst, hbegins⟩ := h.begins
  obtain ⟨ending, hending, hlast, hends⟩ := h.ends
  have hlt := hnew ending hending
  have horder := h.first_lt_last
  refine ⟨⟨opening, List.mem_append_left _ hopening, hfirst, hbegins⟩,
    ⟨ending, List.mem_append_left _ hending, hlast, hends⟩, horder, ?_, ?_, ?_, h.inside⟩
  · exact fun x hx hxfirst hxlast =>
      h.unended x (mem_of_mem_append hx (by omega)) hxfirst hxlast
  · rw [switchLevel_append (by omega), h.level_first]
  · rw [switchLevel_append (by omega), h.level_last]

end Append

/-! ## What is open -/

/-- A switch at line `line` has not ended, and no function ended after it began. -/
structure SwitchOpen (lines : List Entry) (functions : List Function) (l line : Nat) : Prop where
  opens : ∃ e ∈ lines, e.line.number = line
  level : switchLevel lines line + 1 = l
  unended : NoneAt lines Entry.endsSwitch l line
  later : ∀ f ∈ functions, f.last < line

/-- A part of a switch has not ended since line `first`. -/
structure PartOpen (lines : List Entry) (l : Nat) (open_ : OpenSwitch) (pattern : Option String)
    (first : Nat) : Prop where
  begins : ∃ e ∈ lines, e.line.number = first ∧ e.directive = some (.marker (partMarker pattern))
  level : switchLevel lines first = l
  unended : NoneAt lines Entry.marksSwitch l first
  after : open_.line.number < first
  order : ∀ c ∈ open_.cases, c.first < first

/-- A function has not ended since line `first`. It stands at the top. -/
structure FunctionOpen (lines : List Entry) (functions : List Function) (name : String)
    (first : Nat) (outer : List Stmt) (frames : List (Frame × List Stmt)) : Prop where
  begins : ∃ e ∈ lines, e.line.number = first ∧ e.directive = some (.marker (.function name))
  level : switchLevel lines first = 0
  unended : ∀ x ∈ lines, first < x.line.number → x.directive ≠ some (.marker .endFunction)
  later : ∀ f ∈ functions, f.last < first
  outside : ∀ x ∈ Stmt.headsAll outer, x.line.number < first
  top : frames = []

namespace Frame

/-- Whether an open body belongs to a switch. -/
def isSwitch : Frame → Bool
  | .function _ _ => false
  | .switch _ | .case _ _ _ => true

/-- The line at which an open body begins. -/
def first : Frame → Nat
  | .function _ first | .case _ _ first => first
  | .switch open_ => open_.line.number

end Frame

/-- How many of the open bodies belong to switches. -/
def switchFrames (frames : List (Frame × List Stmt)) : Nat := frames.countP (·.1.isSwitch)

@[simp] theorem switchFrames_nil : switchFrames [] = 0 := rfl

@[simp] theorem switchFrames_cons (frame : Frame) (outer : List Stmt)
    (frames : List (Frame × List Stmt)) : switchFrames ((frame, outer) :: frames) =
      switchFrames frames + if frame.isSwitch then 1 else 0 := by
  simp [switchFrames, List.countP_cons]

namespace Frame

/-- What is known of an open body, with the statements and the frames around it. -/
def Open (lines : List Entry) (functions : List Function) (outer : List Stmt)
    (frames : List (Frame × List Stmt)) : Frame → Prop
  | .function name first => FunctionOpen lines functions name first outer frames
  | .switch open_ => SwitchOpen lines functions (switchFrames frames + 1) open_.line.number
  | .case open_ pattern first =>
    SwitchOpen lines functions (switchFrames frames + 1) open_.line.number ∧
      PartOpen lines (switchFrames frames + 1) open_ pattern first

end Frame

/-- Every open body is open, and what it holds comes after the line at which it begins. What
    is outside of all frames is outside of the functions that have ended. -/
def Stacked (lines : List Entry) (functions : List Function) :
    List Stmt → List (Frame × List Stmt) → Prop
  | items, [] => ∀ f ∈ functions, ∀ x ∈ Stmt.headsAll items,
      x.line.number < f.first ∨ f.last < x.line.number
  | items, (frame, outer) :: frames =>
    frame.Open lines functions outer frames ∧
      (∀ x ∈ Stmt.headsAll items, frame.first < x.line.number) ∧
      Stacked lines functions (frame.stmts ++ outer) frames

section Stack

variable {lines : List Entry} {functions : List Function} {items items' outer : List Stmt}
  {frames : List (Frame × List Stmt)} {frame : Frame} {e : Entry}

theorem Frame.Open.exists_first (h : frame.Open lines functions outer frames) :
    ∃ e ∈ lines, e.line.number = frame.first := by
  cases frame with
  | function name first =>
    obtain ⟨e, he, hnumber, -⟩ := FunctionOpen.begins h
    exact ⟨e, he, hnumber⟩
  | switch open_ => exact SwitchOpen.opens h
  | case open_ pattern first =>
    obtain ⟨e, he, hnumber, -⟩ := h.2.begins
    exact ⟨e, he, hnumber⟩

theorem Stacked.inside (h : Stacked lines functions items frames) {x : Entry}
    (hx : x ∈ Stmt.headsAll items) : ∀ f ∈ frames.head?, f.1.first < x.line.number := by
  cases frames with
  | nil => simp
  | cons top frames =>
    obtain ⟨frame, outer⟩ := top
    simpa using h.2.1 x hx

/-- The innermost body may hold other statements, as long as they come late enough. -/
theorem Stacked.grow (h : Stacked lines functions items frames)
    (hitems : ∀ x ∈ Stmt.headsAll items', x ∈ Stmt.headsAll items ∨
      (∀ f ∈ functions, f.last < x.line.number) ∧
        ∀ f ∈ frames.head?, f.1.first < x.line.number) :
    Stacked lines functions items' frames := by
  cases frames with
  | nil =>
    intro f hf x hx
    rcases hitems x hx with hx | ⟨hlate, -⟩
    · exact h f hf x hx
    · exact .inr (hlate f hf)
  | cons top frames =>
    obtain ⟨frame, outer⟩ := top
    refine ⟨h.1, fun x hx => ?_, h.2.2⟩
    rcases hitems x hx with hx | ⟨-, hlate⟩
    · exact h.2.1 x hx
    · exact hlate (frame, outer) (by simp)

variable (hnew : ∀ y ∈ lines, y.line.number < e.line.number)
include hnew

/-- The next line comes after the beginning of the innermost body. -/
theorem Stacked.first_lt (h : Stacked lines functions items frames) :
    ∀ f ∈ frames.head?, f.1.first < e.line.number := by
  cases frames with
  | nil => simp
  | cons top frames =>
    obtain ⟨opening, hmem, hfirst⟩ := Frame.Open.exists_first h.1
    simpa [← hfirst] using hnew opening hmem

theorem SwitchOpen.append {l line : Nat} (h : SwitchOpen lines functions l line)
    (he : e.endsSwitch = true → switchLevel lines e.line.number ≠ l) :
    SwitchOpen (lines ++ [e]) functions l line := by
  obtain ⟨opening, hmem, rfl⟩ := h.opens
  refine ⟨⟨opening, List.mem_append_left _ hmem, rfl⟩, ?_, h.unended.append hnew he, h.later⟩
  rw [switchLevel_append (hnew opening hmem).le, h.level]

theorem PartOpen.append {l first : Nat} {open_ : OpenSwitch} {pattern : Option String}
    (h : PartOpen lines l open_ pattern first)
    (he : e.marksSwitch = true → switchLevel lines e.line.number ≠ l) :
    PartOpen (lines ++ [e]) l open_ pattern first := by
  obtain ⟨marker, hmem, rfl, hmarker⟩ := h.begins
  refine ⟨⟨marker, List.mem_append_left _ hmem, rfl, hmarker⟩, ?_, h.unended.append hnew he,
    h.after, h.order⟩
  rw [switchLevel_append (hnew marker hmem).le, h.level]

theorem FunctionOpen.append {name : String} {first : Nat}
    (h : FunctionOpen lines functions name first outer frames)
    (he : e.directive ≠ some (.marker .endFunction)) :
    FunctionOpen (lines ++ [e]) functions name first outer frames := by
  obtain ⟨opening, hmem, rfl, hopening⟩ := h.begins
  refine ⟨⟨opening, List.mem_append_left _ hmem, rfl, hopening⟩, ?_, fun x hx hlt => ?_, h.later,
    h.outside, h.top⟩
  · rw [switchLevel_append (hnew opening hmem).le, h.level]
  · rcases List.mem_append.mp hx with hx | hx
    · exact h.unended x hx hlt
    · obtain rfl := List.mem_singleton.mp hx
      exact he

/-- A line that ends none of the open bodies keeps them open. -/
theorem Stacked.append (h : Stacked lines functions items frames)
    (hfunction : e.directive ≠ some (.marker .endFunction))
    (hmark : e.marksSwitch = true → switchFrames frames < switchLevel lines e.line.number) :
    Stacked (lines ++ [e]) functions items frames := by
  induction frames generalizing items with
  | nil => exact h
  | cons top frames ih =>
    obtain ⟨frame, outer⟩ := top
    obtain ⟨hopen, hinside, hrest⟩ := h
    have hlevel : frame.isSwitch = true → e.marksSwitch = true →
        switchLevel lines e.line.number ≠ switchFrames frames + 1 := by
      intro hswitch hmarks
      have hlt := hmark hmarks
      simp only [switchFrames_cons, hswitch, if_true] at hlt
      omega
    have hrest := ih hrest fun hmarks => by
      have hlt := hmark hmarks
      rw [switchFrames_cons] at hlt
      omega
    refine ⟨?_, hinside, hrest⟩
    cases frame with
    | function name first => exact FunctionOpen.append hnew hopen hfunction
    | switch open_ =>
      exact SwitchOpen.append hnew hopen fun hends =>
        hlevel rfl (Entry.marksSwitch_of_endsSwitch hends)
    | case open_ pattern first =>
      have hswitch := SwitchOpen.append hnew hopen.1 fun hends =>
        hlevel rfl (Entry.marksSwitch_of_endsSwitch hends)
      exact ⟨hswitch, PartOpen.append hnew hopen.2 (hlevel rfl)⟩

end Stack

end ConsoleScript
