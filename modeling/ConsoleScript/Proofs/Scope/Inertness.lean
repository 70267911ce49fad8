-- SUMMARY: Dollars that variables hold: replacing them by a character without a meaning changes nothing else.
import ConsoleScript.Proofs.Scope.Recasting

/-!
# Inert values

A dollar that a variable holds is no reference. This is said by two runs: in one
of them every dollar of every value is replaced by a character that means
nothing, and the results differ just in that character. It holds as long as no
default that is stored takes a dollar out of a variable (`expand_mask`), for such
a dollar is not set aside, and counts in the passes after (`stored_dollar_counts`).

The runs are compared pass by pass. Up to the pass for plain references, a dollar
of a value that is in the text has been set aside, and the mask stands in its
place in the other run. After it, both a dollar and one set aside stand against
the mask, and the texts agree once all dollars are brought back.
-/

namespace ConsoleScript.Scope

open Text (Segment)

/-- The scope with `c` in the place of every dollar of a value. -/
def mask (c : Char) (scope : Scope) : Scope := scope.map (recastText '$' c)

/-- The scope with a dollar in the place of every `c` of a value. -/
def unmask (c : Char) (scope : Scope) : Scope := scope.map (recastText c '$')

/-! ## The passes in two runs -/

/-- The character has no part in a reference, in setting dollars aside or in what
    the clock shows. -/
structure Meaningless (c : Char) (now : Int) : Prop where
  reference : isReferenceChar c = false
  aside : c ≠ asideDollar
  clock : ∀ name value, clockValue? now name = some value → c ∉ value.toList

variable {now : Int} {scope : Scope} {c : Char}

theorem nonempty?_unmask (name : String) :
    (scope.unmask c).nonempty? name = (scope.nonempty? name).map (recastText c '$') := by
  simp only [nonempty?, unmask, get?_map]
  cases scope.get? name with
  | none => rfl
  | some value => cases hvalue : value.isEmpty <;> simp [Option.filter, hvalue]

/-- A dollar that is set aside comes back as a dollar. -/
theorem recast_asideDollar (c d : Char) :
    recast asideDollar '$' (recast c asideDollar d) = recast asideDollar '$' (recast c '$' d) := by
  simp only [recast]
  grind

namespace Meaningless

theorem ne_dollar (hc : Meaningless c now) : c ≠ '$' := by
  rintro rfl
  exact absurd hc.reference (by decide)

/-- Recognising a reference sees no difference between the character and a dollar
    that is set aside. -/
theorem keeps (hc : Meaningless c now) : Keeps isReferenceChar (recast c asideDollar) :=
  .recast hc.reference (by decide)

theorem not_mem_bringBack (hc : Meaningless c now) {cs : List Char} (hcs : c ∉ cs) :
    c ∉ bringBack cs := fun h => by
  obtain ⟨d, hd, hdc⟩ := List.mem_map.mp h
  split at hdc
  · exact hc.ne_dollar hdc.symm
  · exact hcs (hdc ▸ hd)

theorem setAside_map (hc : Meaningless c now) (cs : List Char) :
    setAside (cs.map (recast c '$')) = (setAside cs).map (recast c asideDollar) := by
  have hdollar := hc.ne_dollar
  have haside := hc.aside
  simp only [setAside, List.map_map]
  refine List.map_congr_left fun d _ => ?_
  simp only [Function.comp_apply, recast]
  grind

theorem bringBack_comm (hc : Meaningless c now) (d : Char) :
    recast asideDollar '$' (recast c '$' d) = recast c '$' (recast asideDollar '$' d) := by
  have hdollar := hc.ne_dollar
  have haside := hc.aside
  simp only [recast]
  grind

end Meaningless

theorem plainValue_unmask (scope : Scope) (c : Char) (name : String) :
    (((scope.unmask c).get? name).getD "").toList =
      ((scope.get? name).getD "").toList.map (recast c '$') := by
  rw [unmask, get?_map]
  cases scope.get? name <;> simp

theorem bracedValue_unmask (hc : Meaningless c now) {name : String}
    (hname : ∀ d ∈ name.toList, isWordChar d = true) :
    bracedValue now (scope.unmask c) name =
      (bracedValue now scope name).map (recast c '$') := by
  unfold bracedValue
  cases hclock : clockValue? now name with
  | some value => exact (map_recast_of_not_mem (hc.clock name value hclock)).symm
  | none =>
    rw [unmask, get?_map]
    cases scope.get? name with
    | some value => simp
    | none =>
      have hreference := Bool.eq_false_iff.mp hc.reference
      have hmem : c ∉ name.toList := fun h =>
        hreference (isReferenceChar_of_isBracedChar (isBracedChar_of_isWordChar (hname c h)))
      have hopen : c ≠ '\x7b' := fun h => hreference (by rw [h]; decide)
      have hclose : c ≠ '\x7d' := fun h => hreference (by rw [h]; decide)
      simp [map_recast_of_not_mem hmem, recast_of_ne hopen.symm, recast_of_ne hclose.symm]

/-- Where two texts are the same up to `k` and the mask, the pass for braced names
    keeps them so. -/
theorem bracedPass_unmask {k : Char → Char} {cs cs' : List Char} (hc : Meaningless c now)
    (hk : Keeps isBracedChar k) (h : cs'.map k = cs.map (k ∘ recast c '$')) :
    (bracedPass now (scope.unmask c) cs').map k =
      (bracedPass now scope cs).map (k ∘ recast c '$') := by
  have hbraced : isBracedChar c = false :=
    Bool.eq_false_iff.mpr fun h =>
      Bool.eq_false_iff.mp hc.reference (isReferenceChar_of_isBracedChar h)
  have hmask : Keeps isBracedChar (k ∘ recast c '$') := hk.comp (.recast hbraced (by decide))
  let value (name : String) := (bracedValue now (scope.unmask c) name).map k
  calc (bracedPass now (scope.unmask c) cs').map k
      = Text.replaceForms braced value (cs'.map k) :=
        (Text.replaceForms_map (braced_commutes hk) (fun _ _ _ _ => rfl) cs').symm
    _ = Text.replaceForms braced value (cs.map (k ∘ recast c '$')) := by rw [h]
    _ = (bracedPass now scope cs).map (k ∘ recast c '$') := by
      refine Text.replaceForms_map (braced_commutes hmask) (fun rest name size hseen => ?_) cs
      simp only [value, id, bracedValue_unmask hc (isWordChar_of_braced hseen), List.map_map]

/-- The passes for plain references and braced names, where the one text is the
    other under `f`: their results are the same up to `k` and the mask. -/
theorem storedDefault_unmask (scope : Scope) {f k : Char → Char} {cs : List Char}
    (hc : Meaningless c now) (hf : Keeps isReferenceChar f) (hk : Keeps isBracedChar k)
    (hchar : ∀ d ∈ cs, k (f d) = k (recast c '$' d)) :
    (storedDefault now (scope.unmask c) (cs.map f)).map k =
      (storedDefault now scope cs).map (k ∘ recast c '$') := by
  refine bracedPass_unmask hc hk (Text.map_replaceForms (plain_commutes hf) hchar ?_)
  intro _ name _ _
  rw [id, plainValue_unmask, List.map_map]

theorem alternatePass_unmask (scope : Scope) (c : Char) :
    alternatePass (scope.unmask c) = alternatePass scope := by
  simp only [alternatePass, nonempty?_unmask, Option.isSome_map]

theorem defaultPass_unmask (hc : Meaningless c now) (cs : List Char) :
    defaultPass (scope.unmask c) (cs.map (recast c asideDollar)) =
      (defaultPass scope cs).map (recast c asideDollar) := by
  refine Text.replaceForms_map (guarded_commutes (by decide) hc.keeps) ?_ cs
  intro _ g _ _
  simp only [nonempty?_unmask]
  cases scope.nonempty? g.name with
  | none => rfl
  | some value => simp [hc.setAside_map]

/-! ## The pass that assigns in two runs -/

/-- What the forms of a text store, in order, as it stands in the text then. -/
def storedTexts (now : Int) : Scope → List (Segment Guarded) → List (List Char)
  | _, [] => []
  | scope, .char _ :: rest => storedTexts now scope rest
  | scope, .form g :: rest =>
    match scope.nonempty? g.name with
    | some _ => storedTexts now scope rest
    | none =>
      let value := storedDefault now scope g.text
      value :: storedTexts now (scope.set g.name (String.ofList (bringBack value))) rest

theorem assignSegments_unmask (hc : Meaningless c now) {segments : List (Segment Guarded)}
    (hchars : .char c ∉ segments) (hforms : ∀ g, .form g ∈ segments → c ∉ g.text)
    (hstored : ∀ value ∈ storedTexts now scope segments, c ∉ value) :
    assignSegments now (scope.unmask c) segments =
      ((assignSegments now scope segments).1.map (recast c asideDollar),
        (assignSegments now scope segments).2.unmask c) := by
  induction segments generalizing scope with
  | nil => rfl
  | cons segment rest ih =>
    have hchars' := List.not_mem_of_not_mem_cons hchars
    have hforms' : ∀ g, .form g ∈ rest → c ∉ g.text := fun g hg =>
      hforms g (List.mem_cons_of_mem segment hg)
    cases segment with
    | char d =>
      have hd : d ≠ c := fun h => hchars (by rw [h]; exact List.mem_cons_self)
      simp only [assignSegments, ih hchars' hforms' hstored, List.map_cons, recast_of_ne hd]
    | form g =>
      simp only [assignSegments, nonempty?_unmask]
      rw [storedTexts] at hstored
      cases hvalue : scope.nonempty? g.name with
      | some value =>
        simp only [hvalue] at hstored
        simp only [Option.map_some, ih hchars' hforms' hstored, toList_recastText,
          hc.setAside_map, List.map_append]
      | none =>
        simp only [hvalue] at hstored
        obtain ⟨hc', hstored⟩ := List.forall_mem_cons.mp hstored
        have hsame : storedDefault now (scope.unmask c) g.text = storedDefault now scope g.text := by
          have hg := hforms g List.mem_cons_self
          have hunmask := storedDefault_unmask scope hc Keeps.id Keeps.id
            fun d hd => (recast_of_ne (ne_of_mem_of_not_mem hd hg)).symm
          simpa [map_recast_of_not_mem hc'] using hunmask
        have hset : (scope.unmask c).set g.name
              (String.ofList (bringBack (storedDefault now scope g.text))) =
            (scope.set g.name
              (String.ofList (bringBack (storedDefault now scope g.text)))).unmask c := by
          rw [unmask, unmask, map_set, recastText, String.toList_ofList,
            map_recast_of_not_mem (hc.not_mem_bringBack hc')]
        simp only [Option.map_none, hsame, hset, ih hchars' hforms' hstored, List.map_append,
          map_recast_of_not_mem hc']

/-! ## Expansion in two runs -/

/-- What the forms of a text that assign store, in order. -/
def storedDefaults (now : Int) (scope : Scope) (text : String) : List (List Char) :=
  storedTexts now scope (Text.segments (guarded '=')
    (alternatePass scope (replaceEscapes [asideDollar] text.toList)))

theorem not_mem_of_guarded (hc : Meaningless c now) {mark : Char} {cs : List Char} {g : Guarded}
    {size : Nat} (hmark : isReferenceChar mark = true) (hcs : c ∉ cs)
    (h : guarded mark cs = some (g, size)) : c ∉ g.text := by
  have hcommutes := guarded_commutes hmark hc.keeps cs
  rw [map_recast_of_not_mem hcs, h] at hcommutes
  refine not_mem_of_map_recast hc.aside ?_
  have hg := congrArg (Option.map fun form => form.1.text) hcommutes
  simpa using hg.symm

theorem not_mem_alternatePass (hc : Meaningless c now) {cs : List Char} (hcs : c ∉ cs) :
    c ∉ alternatePass scope cs := by
  have hmap : alternatePass scope (cs.map (recast c asideDollar)) =
      (alternatePass scope cs).map (recast c asideDollar) := by
    refine Text.replaceForms_map (guarded_commutes (by decide) hc.keeps) ?_ cs
    intro _ g _ _
    split <;> rfl
  rw [map_recast_of_not_mem hcs] at hmap
  exact not_mem_of_map_recast hc.aside hmap.symm

theorem expandChars_unmask (hc : Meaningless c now) {cs : List Char} (hcs : c ∉ cs)
    (hstored : ∀ value ∈ storedTexts now scope (Text.segments (guarded '=')
      (alternatePass scope (replaceEscapes [asideDollar] cs))), c ∉ value) :
    expandChars now (scope.unmask c) cs =
      ((expandChars now scope cs).1.map (recast c '$'),
        (expandChars now scope cs).2.unmask c) := by
  have hpassed : c ∉ alternatePass scope (replaceEscapes [asideDollar] cs) :=
    not_mem_alternatePass hc (not_mem_replaceEscapes (by simpa using hc.aside) hcs)
  have hassign := assignSegments_unmask hc (fun h => hpassed (Text.mem_of_char_mem h))
    (fun g h => by
      obtain ⟨rest, size, hrest, hseen⟩ := Text.suffix_of_form_mem h
      exact not_mem_of_guarded hc (by decide) (fun h => hpassed (hrest.subset h)) hseen)
    hstored
  have hback : Keeps isBracedChar (recast asideDollar '$') := .recast (by decide) (by decide)
  simp only [expandChars, substitute, alternatePass_unmask, assignPass, hassign,
    defaultPass_unmask hc, Prod.mk.injEq, and_true]
  refine (storedDefault_unmask _ hc hc.keeps hback fun d _ => recast_asideDollar c d).trans ?_
  simp only [bringBack, List.map_map]
  exact List.map_congr_left fun d _ => hc.bringBack_comm d

theorem unmask_mask (h : ∀ vars ∈ [scope.env, scope.vars, scope.overrides],
      ∀ entry ∈ vars.entries, c ∉ entry.2.toList) : (scope.mask c).unmask c = scope := by
  have hvars : ∀ vars ∈ [scope.env, scope.vars, scope.overrides],
      (vars.map (recastText '$' c)).map (recastText c '$') = vars := by
    intro vars hmem
    rw [Variables.map_map]
    refine Variables.map_eq_self _ _ fun entry hentry => ?_
    have hcs := h vars hmem entry hentry
    rw [Function.comp_apply, ← String.toList_inj, toList_recastText, toList_recastText,
      List.map_map]
    refine (List.map_congr_left fun d hd => ?_).trans (List.map_id _)
    have hne := ne_of_mem_of_not_mem hd hcs
    simp only [Function.comp_apply, recast, id]
    grind
  obtain ⟨henv, hown, hoverrides⟩ : _ ∧ _ ∧ _ := by simpa using hvars
  simp only [mask, unmask, map, henv, hown, hoverrides]

/-- The character means nothing, and occurs in no value and not in the text. -/
structure Fresh (c : Char) (now : Int) (scope : Scope) (text : String) : Prop
    extends Meaningless c now where
  values : ∀ vars ∈ [scope.env, scope.vars, scope.overrides],
    ∀ entry ∈ vars.entries, c ∉ entry.2.toList
  text : c ∉ text.toList

/-- Where no default that is stored takes a dollar out of a variable, the dollars of
    values might as well be any other character. -/
theorem expand_mask {text : String} (hc : Fresh c now scope text)
    (hstored : ∀ value ∈ storedDefaults now (scope.mask c) text, c ∉ value) :
    scope.expand now text =
      (recastText c '$' ((scope.mask c).expand now text).1,
        ((scope.mask c).expand now text).2.unmask c) := by
  have hexpand := expandChars_unmask hc.toMeaningless hc.text hstored
  rw [unmask_mask hc.values] at hexpand
  simp only [expand]
  split
  · rw [hexpand]
    simp [recastText]
  · simp only [unmask_mask hc.values, recastText, map_recast_of_not_mem hc.text,
      String.ofList_toList]

/-- The percent sign stands for the dollars of values, of which one is a plain
    reference to another name. -/
theorem percent_fresh {text : String} (h : '%' ∉ text.toList) :
    Fresh '%' 0 ⟨.empty, ⟨[("A", "$B"), ("B", "boom")]⟩, .empty⟩ text where
  reference := by decide
  aside := by decide
  clock name value hvalue := by
    simp only [clockValue?] at hvalue
    repeat' split at hvalue
    all_goals cases hvalue <;> decide +kernel
  values := by decide
  text := h

/-- A dollar that comes out of a variable by any other way counts for nothing. -/
theorem expand_mask_percent :
    let scope : Scope := ⟨.empty, ⟨[("A", "$B"), ("B", "boom")]⟩, .empty⟩
    let text := "$A $\x7bA:-d\x7d $\x7bA:=d\x7d \x7bA\x7d $\x7bX:=$B\x7d"
    Fresh '%' 0 scope text ∧ ((scope.mask '%').expand 0 text).1 = "%B %B %B %B boom" ∧
      scope.expand 0 text = ("$B $B $B $B boom", scope.set "X" "boom") := by
  intro scope text
  have hfresh : Fresh '%' 0 scope text := percent_fresh (by decide)
  have hstored : ∀ value ∈ storedDefaults 0 (scope.mask '%') text, '%' ∉ value := by
    decide +kernel
  refine ⟨hfresh, by decide +kernel, (expand_mask hfresh hstored).trans ?_⟩
  decide +kernel

/-- A dollar that a stored default takes out of a variable counts as a reference. -/
theorem stored_dollar_counts :
    let scope : Scope := ⟨.empty, ⟨[("A", "$B"), ("B", "boom")]⟩, .empty⟩
    let text := "$\x7bX:=$A\x7d"
    Fresh '%' 0 scope text ∧ (scope.expand 0 text).1 = "boom" ∧
      recastText '%' '$' ((scope.mask '%').expand 0 text).1 = "$B" := by
  intro scope text
  exact ⟨percent_fresh (by decide), by decide +kernel, by decide +kernel⟩

end ConsoleScript.Scope
