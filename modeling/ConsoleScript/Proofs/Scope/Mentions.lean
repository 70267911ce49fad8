-- SUMMARY: The plain references of a text: the names that are listed, and the names that an expansion looks up.
import Mathlib.Data.List.Forall2
import ConsoleScript.Proofs.Scope.Meaning
import ConsoleScript.Proofs.Scope.Occurrences

/-!
# Mentioned names

The plain references of a text are found in two ways. An expansion puts something into the
place of each escaped dollar and each guarded reference before it looks up the names that are
left. Listing them instead takes the escaped dollars and the guarded references out. If every
name without braces is stopped by what follows it, an expansion looks up just the names that
are written. The list has the same names only if they are also stopped by what is left then:
`plainReferences_eq_names_iff`. An escaped dollar stops a name, but nothing is left of it, so
the name may run on into what follows (`plainReferences_runs_on`).
-/

namespace ConsoleScript.Scope

open Text (Recogniser Segment)

/-! ## Names that are read -/

/-- The names of the plain references. -/
def names (ps : List Piece) : List String := ps.filterMap Piece.plainForm?

/-- The names that are read: one without braces goes on into what follows it. -/
def readNames : List Piece → List String
  | [] => []
  | .bare name :: rest =>
    String.ofList (name.toList ++ (render rest).takeWhile (goesOn name.toList)) :: readNames rest
  | p :: rest => p.plainForm?.toList ++ readNames rest

/-- No name without braces goes on into what follows it. -/
def Apart : List Piece → Prop
  | [] => True
  | .bare name :: rest => (∀ c ∈ (render rest).head?, goesOn name.toList c = false) ∧ Apart rest
  | _ :: rest => Apart rest

theorem names_cons (p : Piece) (ps : List Piece) :
    names (p :: ps) = p.plainForm?.toList ++ names ps := by
  rw [names, List.filterMap_cons]
  cases p.plainForm? <;> rfl

theorem takeWhile_eq_nil_iff_head? {p : Char → Bool} {cs : List Char} :
    cs.takeWhile p = [] ↔ ∀ c ∈ cs.head?, p c = false := by
  cases cs with
  | nil => simp
  | cons c cs => cases hc : p c <;> simp [hc]

theorem readNames_eq_names_iff {ps : List Piece} : readNames ps = names ps ↔ Apart ps := by
  fun_induction readNames ps with
  | case1 => simp [names, Apart]
  | case2 name rest ih =>
    have hname : String.ofList (name.toList ++ (render rest).takeWhile (goesOn name.toList)) = name ↔
        (render rest).takeWhile (goesOn name.toList) = [] := by
      rw [← String.toList_inj, String.toList_ofList, List.append_right_eq_self]
    rw [names_cons, Apart, ← ih, ← takeWhile_eq_nil_iff_head?, ← hname]
    exact List.cons_eq_cons
  | case3 p rest hbare ih =>
    have hapart : Apart (p :: rest) ↔ Apart rest := by
      cases p with
      | bare name => exact absurd rfl (hbare name)
      | _ => exact Iff.rfl
    rw [names_cons, hapart, ← ih, List.append_cancel_left_eq]

/-! ## The forms of a text of pieces -/

theorem forms_append_of_not_mem {α : Type} {mark : Char} {recognise : Recogniser α}
    {cs rest : List Char} (hr : StartsWith mark recognise) (hcs : mark ∉ cs) :
    Text.forms recognise (cs ++ rest) = Text.forms recognise rest := by
  rw [Text.forms, Text.segments, segmentsFrom_append_of_not_mem rest hr hcs, List.filterMap_append,
    List.filterMap_map]
  simp [Text.forms, Text.segments]

theorem forms_plain_chars_append {p : Piece} (rest : List Char) (hp : p.Lone)
    (hbare : ∀ name, p ≠ .bare name) :
    Text.forms plain (p.chars ++ rest) = p.plainForm?.toList ++ Text.forms plain rest := by
  have hsegments := segmentsFrom_chars_append rest plain_startsWith hp (fun cs => rfl)
    fun hread => Piece.plain_chars hread fun name hname => absurd hname (hbare name)
  rw [Text.forms, Text.segments, hsegments, List.filterMap_append, Piece.segments]
  cases p.plainForm? <;> simp [Text.forms, Text.segments]

/-- A name without braces is read as far as the text goes on with it. What is read so holds
    no dollar, so no reference is lost. -/
theorem forms_plain_bare_append {name : String} (rest : List Char)
    (hname : isName name.toList = true) :
    Text.forms plain ((Piece.bare name).chars ++ rest) =
      String.ofList (name.toList ++ rest.takeWhile (goesOn name.toList)) ::
        Text.forms plain rest := by
  obtain ⟨more, hmore⟩ : ∃ more, more = rest.takeWhile (goesOn name.toList) := ⟨_, rfl⟩
  obtain ⟨left, hleft⟩ : ∃ left, left = rest.dropWhile (goesOn name.toList) := ⟨_, rfl⟩
  have hrest : rest = more ++ left := by rw [hmore, hleft, List.takeWhile_append_dropWhile]
  have hdollar : '$' ∉ more := fun hmem => by
    have hgoes := List.mem_takeWhile_imp (hmore ▸ hmem)
    rw [goesOn_eq_false (by decide)] at hgoes
    cases hgoes
  have hseen : plain ('$' :: (name.toList ++ rest)) =
      some (String.ofList (name.toList ++ more), (name.toList ++ more).length + 1) := by
    rw [plain_bare fun _ => append_ne_of_isName hname, splitName?_name_append hname, ← hmore]
    rfl
  have hskip := Text.segmentsFrom_append plain (name.toList ++ more) left
  rw [List.append_assoc, ← hrest] at hskip
  have hforms : Text.forms plain rest = Text.forms plain left := by
    rw [hrest]
    exact forms_append_of_not_mem plain_startsWith hdollar
  rw [← hmore, hforms, Piece.chars, List.cons_append, Text.forms, Text.segments, Text.segmentsFrom,
    hseen]
  simp only [Nat.add_sub_cancel, hskip, List.filterMap_cons]
  rfl

theorem forms_plain_render {ps : List Piece} (hps : ∀ p ∈ ps, p.Lone) :
    Text.forms plain (render ps) = readNames ps := by
  fun_induction readNames ps with
  | case1 => rfl
  | case2 name rest ih =>
    obtain ⟨hp, hrest⟩ := List.forall_mem_cons.mp hps
    rw [← ih hrest]
    exact forms_plain_bare_append (render rest) hp
  | case3 p rest hbare ih =>
    obtain ⟨hp, hrest⟩ := List.forall_mem_cons.mp hps
    rw [← ih hrest]
    exact forms_plain_chars_append (render rest) hp hbare

/-! ## Names that are stopped -/

namespace Piece

/-- These pieces stop a name before them: there are none, or the first one is neither a
    guarded reference nor a literal that starts with a character of names. -/
def StopsName : List Piece → Prop
  | literal [] :: rest => StopsName rest
  | literal (c :: _) :: _ => isWordChar c = false
  | guarded _ _ _ :: _ => False
  | _ => True

/-- Every name without braces is stopped. -/
def Stopped : List Piece → Prop
  | [] => True
  | bare _ :: rest => StopsName rest ∧ Stopped rest
  | _ :: rest => Stopped rest

theorem stopped_cons {p : Piece} {ps : List Piece} :
    Stopped (p :: ps) ↔ (∀ name, p = bare name → StopsName ps) ∧ Stopped ps := by
  cases p <;> simp [Stopped]

theorem StopsName.head?_render {ps : List Piece} (h : StopsName ps) :
    ∀ c ∈ (render ps).head?, isWordChar c = false := by
  fun_induction StopsName ps with
  | case1 rest ih => exact ih h
  | case2 c cs rest => simpa [render, chars] using h
  | case3 => cases h
  | case4 ps hnil hliteral hguarded =>
    cases ps with
    | nil => simp [render]
    | cons p rest =>
      cases p with
      | literal cs =>
        cases cs with
        | nil => exact absurd rfl (hnil rest)
        | cons c cs => exact absurd rfl (hliteral c cs rest)
      | escape => simp [render, chars]; decide
      | braced name => simp [render, chars]; decide
      | bare name => simp [render, chars]; decide
      | guarded g name text => exact absurd rfl (hguarded g name text rest)

theorem Stopped.apart {ps : List Piece} (h : Stopped ps) : Apart ps := by
  fun_induction Apart ps with
  | case1 => trivial
  | case2 name rest ih =>
    exact ⟨fun c hc => goesOn_eq_false (h.1.head?_render c hc), ih h.2⟩
  | case3 p rest hp ih => exact ih (stopped_cons.mp h).2

/-- What the passes before the one for plain references make of a piece: a dollar set aside
    for an escape, and something without dollars for a guarded reference. -/
inductive Becomes : Piece → Piece → Prop
  | same (p : Piece) : Becomes p p
  | aside : Becomes escape (literal [asideDollar])
  | value {g : Guard} {name : String} {text cs : List Char} (h : '$' ∉ cs) :
    Becomes (guarded g name text) (literal cs)

variable {p q : Piece} {ps qs : List Piece}

theorem Becomes.fill (p : Piece) : Becomes p (p.fill [asideDollar]) := by
  cases p with
  | escape => exact .aside
  | _ => exact .same _

theorem Regular.fill_lone {value : List Char} (hp : p.Regular) (hvalue : '$' ∉ value) :
    (p.fill value).Lone := by
  cases p with
  | literal cs => exact hp.1
  | escape => exact hvalue
  | braced name => exact hp
  | bare name => exact hp
  | guarded g name text => exact ⟨hp.1, hp.2.1, hp.2.2.2.1⟩

theorem Becomes.lone (h : Becomes p q) (hp : p.Lone) : q.Lone := by
  cases h with
  | same => exact hp
  | aside => cases hp
  | value hcs => exact hcs

theorem Lone.of_guardedForm? {mark : Char} {g : Guarded} (hp : p.Lone)
    (hg : p.guardedForm? mark = some g) : '$' ∉ g.text ∧ '\x7d' ∉ g.text := by
  obtain ⟨guard, rfl⟩ := exists_eq_guarded hg
  exact hp.2

theorem Becomes.plainForm?_eq (h : Becomes p q) : q.plainForm? = p.plainForm? := by
  cases h <;> rfl

theorem Becomes.of_guardedForm? {mark : Char} {g : Guarded} {cs : List Char}
    (hg : p.guardedForm? mark = some g) (hcs : '$' ∉ cs) : Becomes p (literal cs) := by
  obtain ⟨guard, rfl⟩ := exists_eq_guarded hg
  exact .value hcs

theorem Becomes.settle {mark : Char} {value : Guarded → List Char}
    (hvalue : ∀ g, p.guardedForm? mark = some g → '$' ∉ value g) :
    Becomes p (p.settle (guardedForm? mark) value) := by
  unfold Piece.settle
  split
  · next g hg => exact .of_guardedForm? hg (hvalue g hg)
  · exact .same p

theorem StopsName.becomes (hbecomes : List.Forall₂ Becomes ps qs) (h : StopsName ps) :
    StopsName qs := by
  induction hbecomes with
  | nil => trivial
  | @cons p q ps qs hpq _ ih =>
    cases hpq with
    | aside => exact (by decide : isWordChar asideDollar = false)
    | value => cases h
    | same =>
      cases p with
      | literal cs =>
        cases cs with
        | nil => exact ih h
        | cons c cs => exact h
      | guarded => cases h
      | _ => trivial

theorem Stopped.becomes (hbecomes : List.Forall₂ Becomes ps qs) (h : Stopped ps) : Stopped qs := by
  induction hbecomes with
  | nil => trivial
  | @cons p q ps qs hpq hrest ih =>
    obtain ⟨hstops, hstopped⟩ := stopped_cons.mp h
    refine stopped_cons.mpr ⟨fun name hname => ?_, ih hstopped⟩
    subst hname
    cases hpq
    exact (hstops name rfl).becomes hrest

end Piece

theorem names_becomes {ps qs : List Piece} (h : List.Forall₂ Piece.Becomes ps qs) :
    names qs = names ps := by
  induction h with
  | nil => rfl
  | cons hpq _ ih => rw [names_cons, names_cons, hpq.plainForm?_eq, ih]

theorem lone_becomes {ps qs : List Piece} (h : List.Forall₂ Piece.Becomes ps qs)
    (hps : ∀ p ∈ ps, p.Lone) : ∀ q ∈ qs, q.Lone := by
  induction h with
  | nil => exact hps
  | cons hpq _ ih =>
    obtain ⟨hp, hps⟩ := List.forall_mem_cons.mp hps
    exact List.forall_mem_cons.mpr ⟨hpq.lone hp, ih hps⟩

/-! ## Names that are looked up -/

/-- The text and the scope that the pass for plain references gets. -/
def beforePlain (now : Int) (scope : Scope) (cs : List Char) : List Char × Scope :=
  let (cs, scope) := assignPass now scope (alternatePass scope cs)
  (defaultPass scope cs, scope)

/-- Only the pass for plain references and the one for names in braces come after it. -/
theorem substitute_eq_beforePlain (now : Int) (scope : Scope) (cs : List Char) :
    scope.substitute now cs =
      let (cs, scope) := scope.beforePlain now cs
      (bracedPass now scope (plainPass scope cs), scope) := rfl

/-- The names that expanding a text looks up in the pass for plain references. -/
def lookedUp (now : Int) (scope : Scope) (text : String) : List String :=
  Text.forms plain (scope.beforePlain now (replaceEscapes [asideDollar] text.toList)).1

/-- A default without a dollar and a closing brace is stored as it is. -/
theorem storedDefault_of_not_mem {now : Int} {scope : Scope} {text : List Char}
    (hdollar : '$' ∉ text) (hclose : '\x7d' ∉ text) : storedDefault now scope text = text := by
  rw [storedDefault, plainPass_eq_self (not_hasPlain hdollar)]
  exact bracedPass_eq_self (not_hasKnown (by decide) hclose)

theorem exists_assignPass_becomes (now : Int) (scope : Scope) {ps : List Piece}
    (hps : ∀ p ∈ ps, p.Lone) :
    ∃ qs, (assignPass now scope (render ps)).1 = render qs ∧ List.Forall₂ Piece.Becomes ps qs := by
  rw [assignPass, segments_guarded_render '=' hps]
  induction ps generalizing scope with
  | nil => exact ⟨[], rfl, .nil⟩
  | cons p ps ih =>
    obtain ⟨hp, hps⟩ := List.forall_mem_cons.mp hps
    rw [List.flatMap_cons, Piece.segments]
    cases hform : p.guardedForm? '=' with
    | none =>
      obtain ⟨qs, hqs, hbecomes⟩ := ih scope hps
      refine ⟨p :: qs, ?_, .cons (.same p) hbecomes⟩
      simp only [assignSegments_chars_append, hqs]
      rfl
    | some g =>
      obtain ⟨hdollar, hclose⟩ := hp.of_guardedForm? hform
      simp only [List.singleton_append, assignSegments]
      cases scope.nonempty? g.name with
      | some value =>
        obtain ⟨qs, hqs, hbecomes⟩ := ih scope hps
        refine ⟨.literal (setAside value.toList) :: qs, ?_,
          .cons (.of_guardedForm? hform (dollar_not_mem_setAside _)) hbecomes⟩
        simp only [hqs]
        rfl
      | none =>
        have hstored : storedDefault now scope g.text = g.text :=
          storedDefault_of_not_mem hdollar hclose
        obtain ⟨qs, hqs, hbecomes⟩ :=
          ih (scope.set g.name (String.ofList (bringBack g.text))) hps
        refine ⟨.literal g.text :: qs, ?_, .cons (.of_guardedForm? hform hdollar) hbecomes⟩
        simp only [hstored, hqs]
        rfl

/-- The plain references of the text are to these names, and each is stopped. -/
def Mentions (ns : List String) (cs : List Char) : Prop :=
  ∃ ps, render ps = cs ∧ (∀ p ∈ ps, p.Lone) ∧ Piece.Stopped ps ∧ names ps = ns

namespace Mentions

variable {ns : List String} {cs : List Char} {now : Int} {scope : Scope}

theorem forms_plain (h : Mentions ns cs) : Text.forms plain cs = ns := by
  obtain ⟨ps, rfl, hps, hstopped, rfl⟩ := h
  rw [forms_plain_render hps, readNames_eq_names_iff]
  exact hstopped.apart

/-- What the pieces of the text become has the same references. -/
theorem of_becomes {ps qs : List Piece} (hps : ∀ p ∈ ps, p.Lone) (hstopped : Piece.Stopped ps)
    (hbecomes : List.Forall₂ Piece.Becomes ps qs) : Mentions (names ps) (render qs) :=
  ⟨qs, rfl, lone_becomes hbecomes hps, hstopped.becomes hbecomes, names_becomes hbecomes⟩

/-- Something without dollars in the place of guarded references changes no name. -/
theorem replaceForms_guarded {mark : Char} {value : Guarded → List Char}
    (hvalue : ∀ g, '$' ∉ g.text → '$' ∉ value g) (h : Mentions ns cs) :
    Mentions ns (Text.replaceForms (guarded mark) value cs) := by
  obtain ⟨ps, rfl, hps, hstopped, rfl⟩ := h
  rw [replaceForms_render (segments_guarded_render mark hps)]
  have hbecomes : ∀ p ∈ ps, p.Becomes (p.settle (Piece.guardedForm? mark) value) := fun p hp =>
    .settle fun g hg => hvalue g ((hps p hp).of_guardedForm? hg).1
  exact of_becomes hps hstopped (List.forall₂_map_right_iff.mpr (List.forall₂_same.mpr hbecomes))

theorem alternatePass (h : Mentions ns cs) : Mentions ns (alternatePass scope cs) := by
  refine h.replaceForms_guarded fun g hg => ?_
  split
  · exact hg
  · exact List.not_mem_nil

theorem defaultPass (h : Mentions ns cs) : Mentions ns (defaultPass scope cs) := by
  refine h.replaceForms_guarded fun g hg => ?_
  split
  · exact dollar_not_mem_setAside _
  · exact hg

theorem assignPass (h : Mentions ns cs) : Mentions ns (assignPass now scope cs).1 := by
  obtain ⟨ps, rfl, hps, hstopped, rfl⟩ := h
  obtain ⟨qs, hqs, hbecomes⟩ := exists_assignPass_becomes now scope hps
  rw [hqs]
  exact of_becomes hps hstopped hbecomes

theorem beforePlain (h : Mentions ns cs) : Mentions ns (scope.beforePlain now cs).1 := by
  rw [Scope.beforePlain]
  exact h.alternatePass.assignPass.defaultPass

end Mentions

theorem mentions_replaceEscapes {ps : List Piece} (hps : ∀ p ∈ ps, p.Regular)
    (hstopped : Piece.Stopped ps) :
    Mentions (names ps) (replaceEscapes [asideDollar] (render ps)) := by
  rw [replaceEscapes_render_fill _ fun p hp => (hps p hp).backslash_not_mem]
  have hbecomes : List.Forall₂ Piece.Becomes ps (ps.map (Piece.fill [asideDollar])) :=
    List.forall₂_map_right_iff.mpr (List.forall₂_same.mpr fun p _ => .fill p)
  refine ⟨_, rfl, ?_, hstopped.becomes hbecomes, names_becomes hbecomes⟩
  exact List.forall_mem_map.mpr fun p hp => (hps p hp).fill_lone (by decide)

/-! ## Names that are listed -/

/-- What is left of a piece in the list of references: nothing of escaped dollars and of
    guarded references. -/
def Piece.erase : Piece → Piece
  | .escape | .guarded _ _ _ => .literal []
  | p => p

theorem names_erase (ps : List Piece) : names (ps.map Piece.erase) = names ps := by
  rw [names, List.filterMap_map]
  refine List.filterMap_congr fun p _ => ?_
  cases p <;> rfl

/-- The piece without a guarded reference that has the mark. -/
def Piece.drop (mark : Char) : Piece → Piece := Piece.settle (Piece.guardedForm? mark) fun _ => []

theorem Piece.erase_eq_drop (p : Piece) :
    p.erase = (((p.fill []).drop '+').drop '=').drop '-' := by
  cases p with
  | guarded g name text => cases g <;> rfl
  | _ => rfl

theorem replaceForms_drop (mark : Char) {ps : List Piece} (hps : ∀ p ∈ ps, p.Lone) :
    Text.replaceForms (guarded mark) (fun _ => []) (render ps) =
      render (ps.map (Piece.drop mark)) :=
  replaceForms_render (segments_guarded_render mark hps) _

theorem drop_lone (mark : Char) {ps : List Piece} (hps : ∀ p ∈ ps, p.Lone) :
    ∀ p ∈ ps.map (Piece.drop mark), p.Lone :=
  List.forall_mem_map.mpr fun p hp =>
    (Piece.Becomes.settle fun _ _ => List.not_mem_nil).lone (hps p hp)

theorem plainReferences_render {ps : List Piece} (hps : ∀ p ∈ ps, p.Regular) :
    plainReferences (String.ofList (render ps)) = readNames (ps.map Piece.erase) := by
  have hescapes := replaceEscapes_render_fill [] fun p hp => (hps p hp).backslash_not_mem
  have hfill : ∀ p ∈ ps.map (Piece.fill []), p.Lone :=
    List.forall_mem_map.mpr fun p hp => (hps p hp).fill_lone List.not_mem_nil
  have halternate := drop_lone '+' hfill
  have hassign := drop_lone '=' halternate
  have hdefault := drop_lone '-' hassign
  have herase : ps.map Piece.erase =
      (((ps.map (Piece.fill [])).map (Piece.drop '+')).map (Piece.drop '=')).map
        (Piece.drop '-') := by
    simp only [List.map_map]
    exact List.map_congr_left fun p _ => p.erase_eq_drop
  simp only [plainReferences, String.toList_ofList, hescapes, replaceForms_drop '+' hfill,
    replaceForms_drop '=' halternate, replaceForms_drop '-' hassign, forms_plain_render hdefault,
    herase]

/-- The names that an expansion looks up are those that are written, if each one without braces
    is stopped by what follows it. They are the names that are listed if and only if they stay
    apart when escaped dollars and guarded references are taken out. -/
theorem plainReferences_eq_names_iff {ps : List Piece} (hps : ∀ p ∈ ps, p.Regular)
    (hstopped : Piece.Stopped ps) :
    (∀ now scope, lookedUp now scope (String.ofList (render ps)) = names ps) ∧
      (plainReferences (String.ofList (render ps)) = names ps ↔ Apart (ps.map Piece.erase)) := by
  refine ⟨fun now scope => ?_, ?_⟩
  · rw [lookedUp, String.toList_ofList]
    exact (mentions_replaceEscapes hps hstopped).beforePlain.forms_plain
  · rw [plainReferences_render hps, ← names_erase, readNames_eq_names_iff]

/-- Escaped dollars after which no name runs on. -/
theorem plainReferences_eq_names_apart :
    let ps : List Piece :=
      [.bare "A", .escape, .literal "-x ".toList, .bare "1", .bare "_b", .escape,
        .guarded .assign "N" "d".toList, .literal "=".toList, .braced "C", .escape,
        .literal "B".toList, .guarded .alternate "A" "y".toList]
    (∀ p ∈ ps, p.Regular) ∧ Piece.Stopped ps ∧
      String.ofList (render ps) =
        "$A\\$-x $1$_b\\$$\x7bN:=d\x7d=$\x7bC\x7d\\$B$\x7bA:+y\x7d" ∧
      (∀ now scope, lookedUp now scope (String.ofList (render ps)) = ["A", "1", "_b", "C"]) ∧
      plainReferences (String.ofList (render ps)) = ["A", "1", "_b", "C"] := by
  intro ps
  have hps : ∀ p ∈ ps, p.Regular := by
    simp [ps, Piece.Regular, Unmarked]
    decide
  have hstopped : Piece.Stopped ps := by
    simp [ps, Piece.Stopped, Piece.StopsName]
  have hapart : Apart (ps.map Piece.erase) := by
    simp [ps, Apart, Piece.erase, render, Piece.chars]
    decide
  have hnames : names ps = ["A", "1", "_b", "C"] := by decide +kernel
  obtain ⟨hlooked, hlisted⟩ := plainReferences_eq_names_iff hps hstopped
  rw [hnames] at hlooked hlisted
  exact ⟨hps, hstopped, by decide +kernel, hlooked, hlisted.mpr hapart⟩

/-- An escaped dollar stops a name, but not in the list, where the name runs on. -/
theorem plainReferences_runs_on :
    let ps : List Piece := [.bare "A", .escape, .literal "B".toList]
    (∀ p ∈ ps, p.Regular) ∧ Piece.Stopped ps ∧ String.ofList (render ps) = "$A\\$B" ∧
      names ps = ["A"] ∧ plainReferences "$A\\$B" = ["AB"] ∧
      lookedUp 0 .empty "$A\\$B" = ["A"] := by
  refine ⟨?_, ?_, by decide +kernel, by decide +kernel, by decide +kernel, by decide +kernel⟩
  · simp [Piece.Regular, Unmarked]
    decide
  · simp [Piece.Stopped, Piece.StopsName]

end ConsoleScript.Scope
