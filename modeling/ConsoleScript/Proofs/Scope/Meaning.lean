-- SUMMARY: What a text of literals and references stands for, and that expanding it gives just that.
import ConsoleScript.Proofs.Scope.Pieces

/-!
# The meaning of references

`Scope.meaning` says piece by piece what a text of literals and references stands
for, without regard to passes: only what the pieces to the left have stored, and
the scope before and after all of them, counts. As each pass takes a text of
pieces to a text of pieces, all of them together give the meaning:
`expand_render`.
-/

namespace ConsoleScript.Scope

open Text (Segment)

/-! ## Meaning -/

/-- The value of a name, or else the text. -/
def valueOr (scope : Scope) (name : String) (text : List Char) : List Char :=
  match scope.nonempty? name with
  | some value => value.toList
  | none => text

/-- The scope in which a name without a value has got the text. -/
def assignDefault (scope : Scope) (name : String) (text : List Char) : Scope :=
  match scope.nonempty? name with
  | some _ => scope
  | none => scope.set name (String.ofList text)

/-- The scope after the pieces: those that assign do so from left to right. -/
def stores (scope : Scope) : List Piece → Scope
  | [] => scope
  | .guarded .assign name text :: rest => stores (scope.assignDefault name text) rest
  | _ :: rest => stores scope rest

/-- What pieces stand for in a scope, given the scope before all pieces, in which
    alternates are chosen, and the one after them, which all other references
    but those that assign see. -/
def meaning (first last : Scope) : Scope → List Piece → List Char
  | _, [] => []
  | scope, .literal cs :: rest => cs ++ meaning first last scope rest
  | scope, .escape :: rest => '$' :: meaning first last scope rest
  | scope, .braced name :: rest | scope, .bare name :: rest =>
    ((last.get? name).getD "").toList ++ meaning first last scope rest
  | scope, .guarded .alternate name text :: rest =>
    (if (first.nonempty? name).isSome then text else []) ++ meaning first last scope rest
  | scope, .guarded .assign name text :: rest =>
    scope.valueOr name text ++ meaning first last (scope.assignDefault name text) rest
  | scope, .guarded .default name text :: rest =>
    last.valueOr name text ++ meaning first last scope rest

/-! ## What takes the place of a reference -/

/-- What takes the place of an alternate. -/
def alternateText (scope : Scope) (g : Guarded) : List Char :=
  if (scope.nonempty? g.name).isSome then g.text else []

/-- What takes the place of a reference with a default. -/
def defaultText (scope : Scope) (g : Guarded) : List Char :=
  match scope.nonempty? g.name with
  | some value => setAside value.toList
  | none => g.text

/-- What takes the place of a plain reference. -/
def plainText (scope : Scope) (name : String) : List Char := ((scope.get? name).getD "").toList

/-- The pieces after the pass that assigns, from a scope on. -/
def settleAssign (scope : Scope) : List Piece → List Piece
  | [] => []
  | .guarded .assign name text :: rest =>
    .literal (defaultText scope ⟨name, text⟩) ::
      settleAssign (scope.assignDefault name text) rest
  | p :: rest => p :: settleAssign scope rest

theorem storedDefault_literal (now : Int) (scope : Scope) {text : List Char} (h : IsLiteral text) :
    storedDefault now scope text = text := by
  have hplain : plainPass scope text = text := replaceForms_of_not_mem _ plain_startsWith h.1
  rw [storedDefault, hplain]
  exact replaceForms_of_not_mem _ braced_startsWith h.2.1

theorem assignSegments_chars_append (now : Int) (scope : Scope) (cs : List Char)
    (segments : List (Segment Guarded)) :
    assignSegments now scope (cs.map .char ++ segments) =
      (cs ++ (assignSegments now scope segments).1, (assignSegments now scope segments).2) := by
  induction cs with
  | nil => rfl
  | cons c cs ih => simp only [List.map_cons, List.cons_append, assignSegments, ih]

theorem assignPass_render (now : Int) {scope : Scope} {ps : List Piece} (hps : ∀ p ∈ ps, p.Clear) :
    assignPass now scope (render ps) = (render (settleAssign scope ps), stores scope ps) := by
  rw [assignPass, segments_guarded_render '=' fun p hp => (hps p hp).lone]
  induction ps generalizing scope with
  | nil => rfl
  | cons p ps ih =>
    obtain ⟨hp, hrest⟩ := List.forall_mem_cons.mp hps
    rw [List.flatMap_cons]
    have hother : p.guardedForm? '=' = none →
        settleAssign scope (p :: ps) = p :: settleAssign scope ps →
        stores scope (p :: ps) = stores scope ps →
        assignSegments now scope (p.segments (Piece.guardedForm? '=') ++
            ps.flatMap (Piece.segments (Piece.guardedForm? '='))) =
          (render (settleAssign scope (p :: ps)), stores scope (p :: ps)) := by
      intro hform hsettle hstores
      simp only [Piece.segments, hform, hsettle, hstores]
      rw [assignSegments_chars_append]
      exact congrArg (fun r => (p.chars ++ r.1, r.2)) (ih hrest)
    cases p with
    | literal cs => exact hother rfl rfl rfl
    | escape => exact hother rfl rfl rfl
    | braced name => exact hother rfl rfl rfl
    | bare name => exact hother rfl rfl rfl
    | guarded g name text =>
      cases g with
      | alternate => exact hother rfl rfl rfl
      | default => exact hother rfl rfl rfl
      | assign =>
        obtain ⟨-, hliteral⟩ := hp
        have hseg : (Piece.guarded .assign name text).segments (Piece.guardedForm? '=') =
            [.form ⟨name, text⟩] := rfl
        rw [hseg, List.singleton_append, assignSegments, settleAssign, stores, assignDefault,
          defaultText]
        cases hvalue : scope.nonempty? name with
        | some value =>
          simp only [ih hrest]
          rfl
        | none =>
          simp only [storedDefault_literal now scope hliteral, bringBack_of_not_mem hliteral.2.2.2,
            ih hrest]
          rfl

/-! ## Values -/

/-- No value holds an opening brace, or the character that dollars are set aside
    as. -/
def Unbraced (scope : Scope) : Prop :=
  ∀ name value, scope.get? name = some value →
    '\x7b' ∉ value.toList ∧ asideDollar ∉ value.toList

theorem get?_set_cases {scope : Scope} {name value other found : String}
    (h : (scope.set name value).get? other = some found) :
    found = value ∨ scope.get? other = some found := by
  simp only [get?, set, Variables.get?_set] at h ⊢
  cases hover : scope.overrides.get? other with
  | some v => simp_all
  | none =>
    by_cases heq : other == name <;> simp_all

theorem Unbraced.assignDefault {scope : Scope} (h : scope.Unbraced) {name : String}
    {text : List Char} (htext : IsLiteral text) : (scope.assignDefault name text).Unbraced := by
  unfold Scope.assignDefault
  split
  · exact h
  · intro other value hvalue
    rcases get?_set_cases hvalue with rfl | hvalue
    · simpa using ⟨htext.2.1, htext.2.2.2⟩
    · exact h other value hvalue

theorem Unbraced.stores {scope : Scope} (h : scope.Unbraced) {ps : List Piece}
    (hps : ∀ p ∈ ps, p.WellFormed) : (scope.stores ps).Unbraced := by
  fun_induction Scope.stores scope ps with
  | case1 scope => exact h
  | case2 scope name text rest ih =>
    obtain ⟨hp, hrest⟩ := List.forall_mem_cons.mp hps
    exact ih (h.assignDefault hp.2.1) hrest
  | case3 scope p rest hp ih => exact ih h (List.forall_mem_cons.mp hps).2

theorem get?_of_nonempty? {scope : Scope} {name value : String}
    (h : scope.nonempty? name = some value) : scope.get? name = some value :=
  (Option.filter_eq_some_iff.mp h).1

theorem dollar_not_mem_setAside (cs : List Char) : '$' ∉ setAside cs := by
  simp only [setAside, List.mem_map, not_exists, not_and]
  intro c _
  split
  · decide
  · assumption

theorem brace_not_mem_setAside {cs : List Char} (h : '\x7b' ∉ cs) : '\x7b' ∉ setAside cs := by
  simp only [setAside, List.mem_map, not_exists, not_and]
  intro c hc
  split
  · decide
  · exact ne_of_mem_of_not_mem hc h

theorem bringBack_setAside {cs : List Char} (h : asideDollar ∉ cs) :
    bringBack (setAside cs) = cs := by
  simp only [bringBack, setAside, List.map_map]
  refine (List.map_congr_left fun c hc => ?_).trans cs.map_id
  have hne := ne_of_mem_of_not_mem hc h
  by_cases hd : c = '$' <;> simp [hd, hne]

namespace Unbraced

variable {scope : Scope} {name : String} {text : List Char}

theorem defaultText_clear (h : scope.Unbraced) (htext : IsLiteral text) :
    (Piece.literal (scope.defaultText ⟨name, text⟩)).Clear := by
  unfold defaultText
  split
  · next value hvalue =>
    have hopen := (h name value (get?_of_nonempty? hvalue)).1
    exact ⟨dollar_not_mem_setAside _, brace_not_mem_setAside hopen⟩
  · exact ⟨htext.1, htext.2.1⟩

theorem bringBack_defaultText (h : scope.Unbraced) (htext : IsLiteral text) :
    bringBack (scope.defaultText ⟨name, text⟩) = scope.valueOr name text := by
  cases hvalue : scope.nonempty? name with
  | some value =>
    simp only [defaultText, valueOr, hvalue]
    exact bringBack_setAside (h name value (get?_of_nonempty? hvalue)).2
  | none =>
    simp only [defaultText, valueOr, hvalue]
    exact bringBack_of_not_mem htext.2.2.2

theorem brace_not_mem_plainText (h : scope.Unbraced) (name : String) :
    '\x7b' ∉ scope.plainText name := by
  unfold plainText
  cases hvalue : scope.get? name with
  | none => simp
  | some value => exact (h name value hvalue).1

theorem bringBack_plainText (h : scope.Unbraced) (name : String) :
    bringBack (scope.plainText name) = ((scope.get? name).getD "").toList := by
  refine bringBack_of_not_mem ?_
  unfold plainText
  cases hvalue : scope.get? name with
  | none => simp
  | some value => exact (h name value hvalue).2

end Unbraced

/-! ## All passes -/

theorem Piece.Separated.settleAssign {scope : Scope} {ps : List Piece} (h : Separated ps) :
    Separated (scope.settleAssign ps) := by
  fun_induction Scope.settleAssign scope ps with
  | case1 => trivial
  | case2 scope name text rest ih => exact ih h
  | case3 scope p rest hp ih =>
    obtain ⟨hend, hsep⟩ := separated_cons.mp h
    refine separated_cons.mpr ⟨fun name hname => ?_, ih hsep⟩
    have hend := hend name hname
    unfold EndsName at hend
    split at hend
    · trivial
    · exact hend
    · cases hend

theorem settleAssign_clear {scope : Scope} (hscope : scope.Unbraced) {ps : List Piece}
    (hps : ∀ p ∈ ps, p.Clear) : ∀ p ∈ scope.settleAssign ps, p.Clear := by
  fun_induction Scope.settleAssign scope ps with
  | case1 => simp
  | case2 scope name text rest ih =>
    obtain ⟨⟨-, hliteral⟩, hrest⟩ := List.forall_mem_cons.mp hps
    refine List.forall_mem_cons.mpr ⟨?_, ih (hscope.assignDefault hliteral) hrest⟩
    exact hscope.defaultText_clear hliteral
  | case3 scope p rest hp ih =>
    obtain ⟨hp, hrest⟩ := List.forall_mem_cons.mp hps
    exact List.forall_mem_cons.mpr ⟨hp, ih hscope hrest⟩

/-- The pieces after the passes for escapes and alternates. -/
def settleFirst (first : Scope) (ps : List Piece) : List Piece :=
  (ps.map Piece.protect).map (Piece.settle (Piece.guardedForm? '+') (alternateText first))

/-- The pieces after the passes for defaults and plain references. -/
def settleLast (last : Scope) (ps : List Piece) : List Piece :=
  (ps.map (Piece.settle (Piece.guardedForm? '-') (defaultText last))).map
    (Piece.settle Piece.plainForm? (plainText last))

theorem settleFirst_clear (first : Scope) {ps : List Piece} (hps : ∀ p ∈ ps, p.WellFormed) :
    ∀ p ∈ settleFirst first ps, p.Clear := by
  simp only [settleFirst, List.map_map, List.mem_map, forall_exists_index, and_imp]
  rintro _ p hp rfl
  have hclear := (hps p hp).protect_clear
  refine hclear.settle fun g hg => ?_
  have htext := hclear.isLiteral_text hg
  unfold alternateText
  split
  · exact ⟨htext.1, htext.2.1⟩
  · simp

theorem stores_settleFirst (first scope : Scope) (ps : List Piece) :
    stores scope (settleFirst first ps) = stores scope ps := by
  induction ps generalizing scope with
  | nil => rfl
  | cons p ps ih =>
    cases p with
    | guarded g name text => cases g <;> exact ih _
    | _ => exact ih _

/-- The passes give the meaning, and leave no braced name behind. -/
theorem bringBack_settled (first : Scope) {last scope : Scope} {ps : List Piece}
    (hps : ∀ p ∈ ps, p.WellFormed) (hscope : scope.Unbraced) (hlast : last.Unbraced) :
    '\x7b' ∉ render (settleLast last (scope.settleAssign (settleFirst first ps))) ∧
      bringBack (render (settleLast last (scope.settleAssign (settleFirst first ps)))) =
        meaning first last scope ps := by
  induction ps generalizing scope with
  | nil => exact ⟨by simp [settleFirst, settleAssign, settleLast, render], rfl⟩
  | cons p ps ih =>
    obtain ⟨hp, hrest⟩ := List.forall_mem_cons.mp hps
    -- every piece has become a literal, after which the rest goes on in some scope
    have hliteral : ∀ (cs : List Char) (scope' : Scope),
        settleLast last (scope.settleAssign (settleFirst first (p :: ps))) =
          .literal cs :: settleLast last (scope'.settleAssign (settleFirst first ps)) →
        scope'.Unbraced → '\x7b' ∉ cs →
        meaning first last scope (p :: ps) = bringBack cs ++ meaning first last scope' ps →
        '\x7b' ∉ render (settleLast last (scope.settleAssign (settleFirst first (p :: ps)))) ∧
          bringBack (render (settleLast last (scope.settleAssign (settleFirst first (p :: ps))))) =
            meaning first last scope (p :: ps) := by
      intro cs scope' hsettled hscope' hopen hmeaning
      obtain ⟨hno, hback⟩ := ih hrest hscope'
      rw [hsettled, hmeaning, ← hback]
      simp only [render, List.flatMap_cons, Piece.chars, List.mem_append, not_or]
      exact ⟨⟨hopen, hno⟩, List.map_append⟩
    cases p with
    | literal cs =>
      refine hliteral cs scope rfl hscope hp.1.2.1 ?_
      rw [meaning, bringBack_of_not_mem hp.1.2.2.2]
    | escape => exact hliteral [asideDollar] scope rfl hscope (by decide) rfl
    | braced name =>
      refine hliteral (last.plainText name) scope rfl hscope (hlast.brace_not_mem_plainText name) ?_
      rw [meaning, hlast.bringBack_plainText]
    | bare name =>
      refine hliteral (last.plainText name) scope rfl hscope (hlast.brace_not_mem_plainText name) ?_
      rw [meaning, hlast.bringBack_plainText]
    | guarded g name text =>
      obtain ⟨-, htext, -⟩ := hp
      cases g with
      | alternate =>
        refine hliteral (first.alternateText ⟨name, text⟩) scope rfl hscope ?_ ?_
        · unfold alternateText
          split
          · exact htext.2.1
          · simp
        · rw [meaning, alternateText]
          split
          · rw [bringBack_of_not_mem htext.2.2.2]
          · rfl
      | assign =>
        refine hliteral (scope.defaultText ⟨name, text⟩) (scope.assignDefault name text) rfl
          (hscope.assignDefault htext) (hscope.defaultText_clear htext).2 ?_
        rw [meaning, hscope.bringBack_defaultText htext]
      | default =>
        refine hliteral (last.defaultText ⟨name, text⟩) scope rfl hscope
          (hlast.defaultText_clear htext).2 ?_
        rw [meaning, hlast.bringBack_defaultText htext]

/-- Expanding a text without the character that dollars are set aside as runs all
    passes, also where there is nothing to expand. -/
theorem expand_eq_expandChars (now : Int) (scope : Scope) {cs : List Char}
    (hcs : asideDollar ∉ cs) :
    scope.expand now (String.ofList cs) =
      (String.ofList (expandChars now scope cs).1, (expandChars now scope cs).2) := by
  simp only [expand, String.toList_ofList]
  split
  · rfl
  · next hnone =>
    obtain ⟨hdollar, hopen⟩ : '$' ∉ cs ∧ '\x7b' ∉ cs := by simpa using hnone
    have halternate : alternatePass scope cs = cs :=
      replaceForms_of_not_mem _ (guarded_startsWith '+') hdollar
    have hassign : assignPass now scope cs = (cs, scope) := by
      rw [assignPass, Text.segments, segmentsFrom_of_not_mem (guarded_startsWith '=') hdollar,
        assignSegments_chars]
    have hdefault : defaultPass scope cs = cs :=
      replaceForms_of_not_mem _ (guarded_startsWith '-') hdollar
    have hplain : plainPass scope cs = cs := replaceForms_of_not_mem _ plain_startsWith hdollar
    have hbraced : bracedPass now scope cs = cs :=
      replaceForms_of_not_mem _ braced_startsWith hopen
    simp only [expandChars, replaceEscapes_of_not_mem hdollar, substitute, halternate, hassign,
      hdefault, hplain, hbraced, bringBack_of_not_mem hcs]

theorem replaceEscapes_alternatePass {scope : Scope} {ps : List Piece}
    (hps : ∀ p ∈ ps, p.WellFormed) :
    alternatePass scope (replaceEscapes [asideDollar] (render ps)) =
      render (settleFirst scope ps) := by
  rw [replaceEscapes_render hps]
  refine replaceForms_render (segments_guarded_render '+' ?_) (alternateText scope)
  simp only [List.mem_map, forall_exists_index, and_imp]
  rintro _ p hp rfl
  exact (hps p hp).protect_clear.lone

theorem plainPass_defaultPass {scope : Scope} {ps : List Piece} (hps : ∀ p ∈ ps, p.Clear)
    (hsep : Piece.Separated ps) (hscope : scope.Unbraced) :
    plainPass scope (defaultPass scope (render ps)) = render (settleLast scope ps) := by
  have hdefault : defaultPass scope (render ps) =
      render (ps.map (Piece.settle (Piece.guardedForm? '-') scope.defaultText)) :=
    replaceForms_render (segments_guarded_render '-' fun p hp => (hps p hp).lone) scope.defaultText
  rw [hdefault]
  refine replaceForms_render (segments_plain_render ?_ (hsep.settle fun cs => rfl)) scope.plainText
  simp only [List.mem_map, forall_exists_index, and_imp]
  rintro _ p hp rfl
  refine Piece.Clear.lone ((hps p hp).settle fun g hg => ?_)
  exact hscope.defaultText_clear ((hps p hp).isLiteral_text hg)

theorem expandChars_render (now : Int) {scope : Scope} {ps : List Piece}
    (hps : ∀ p ∈ ps, p.WellFormed) (hsep : Piece.Separated ps) (hscope : scope.Unbraced) :
    expandChars now scope (render ps) =
      (meaning scope (scope.stores ps) scope ps, scope.stores ps) := by
  have hfirst := settleFirst_clear scope hps
  have hlast := hscope.stores hps
  have hsettled : Piece.Separated (scope.settleAssign (settleFirst scope ps)) :=
    (hsep.protect.settle fun cs => rfl).settleAssign
  obtain ⟨hopen, hmeaning⟩ := bringBack_settled scope hps hscope hlast
  have hbraced : ∀ cs, '\x7b' ∉ cs → bracedPass now (scope.stores ps) cs = cs := fun cs hcs =>
    replaceForms_of_not_mem _ braced_startsWith hcs
  simp only [expandChars, replaceEscapes_alternatePass hps, substitute, assignPass_render now hfirst,
    stores_settleFirst, plainPass_defaultPass (settleAssign_clear hscope hfirst) hsettled hlast,
    hbraced _ hopen, hmeaning]

theorem asideDollar_not_mem_render {ps : List Piece} (hps : ∀ p ∈ ps, p.WellFormed) :
    asideDollar ∉ render ps := by
  simp only [render, List.mem_flatMap, not_exists, not_and]
  intro p hp
  have hp := hps p hp
  have hname : ∀ {name : List Char}, isName name = true → asideDollar ∉ name := fun h =>
    not_mem_of_isName h (by decide)
  cases p with
  | literal cs => exact hp.1.2.2.2
  | escape => decide
  | braced name => simpa [Piece.chars, asideDollar] using hname hp
  | bare name => simpa [Piece.chars, asideDollar] using hname hp
  | guarded g name text =>
    have hmark : asideDollar ≠ g.mark := by cases g <;> decide
    have hbrace : asideDollar ≠ '$' ∧ asideDollar ≠ '\x7b' ∧ asideDollar ≠ ':' ∧
        asideDollar ≠ '\x7d' := by decide
    simp [Piece.chars, hname hp.1, hmark, hp.2.1.2.2.2, hbrace]

/-- Expanding a text of pieces gives what they stand for, and stores what those
    among them store that assign. -/
theorem expand_render (now : Int) {scope : Scope} {ps : List Piece}
    (hps : ∀ p ∈ ps, p.WellFormed) (hsep : Piece.Separated ps) (hscope : scope.Unbraced) :
    scope.expand now (String.ofList (render ps)) =
      (String.ofList (meaning scope (scope.stores ps) scope ps), scope.stores ps) := by
  rw [expand_eq_expandChars now scope (asideDollar_not_mem_render hps),
    expandChars_render now hps hsep hscope]

/-- Values with a dollar, and a reference to what another one stores. -/
theorem expand_render_dollars :
    let scope : Scope := ⟨.empty, ⟨[("A", "$B")]⟩, ⟨[("1", "x")]⟩⟩
    let ps : List Piece :=
      [.literal "a=".toList, .bare "A", .literal " ".toList, .escape,
        .guarded .alternate "A" "yes".toList, .guarded .assign "N" "d".toList,
        .guarded .default "N" "q".toList, .braced "1", .bare "A"]
    String.ofList (render ps) =
        "a=$A \\$$\x7bA:+yes\x7d$\x7bN:=d\x7d$\x7bN:-q\x7d$\x7b1\x7d$A" ∧
      (∀ p ∈ ps, p.WellFormed) ∧ Piece.Separated ps ∧ scope.Unbraced ∧
      scope.expand 0 (String.ofList (render ps)) = ("a=$B $yesddx$B", scope.set "N" "d") := by
  intro scope ps
  have hps : ∀ p ∈ ps, p.WellFormed := by
    simp [ps, Piece.WellFormed, IsLiteral, asideDollar]
    decide
  have hsep : Piece.Separated ps := by
    simp [ps, Piece.Separated, Piece.EndsName]
    decide
  have hscope : scope.Unbraced := by
    intro name value h
    have hvalue : value = "x" ∨ value = "$B" := by
      simp only [scope, get?, Variables.get?, Variables.empty, List.lookup_cons, List.lookup_nil] at h
      split at h <;> split at h <;> simp_all
    rcases hvalue with rfl | rfl <;> decide
  refine ⟨by decide +kernel, hps, hsep, hscope, (expand_render 0 hps hsep hscope).trans ?_⟩
  decide +kernel

end ConsoleScript.Scope
