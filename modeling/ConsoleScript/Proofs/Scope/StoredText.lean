-- SUMMARY: The text that a reference stores as a default is the one that takes its place.
import ConsoleScript.Proofs.Scope.Meaning
import ConsoleScript.Proofs.Scope.Occurrences

/-!
# Stored defaults

A reference `${NAME:=text}` to a name without a value has its text expanded by itself. What
comes of it is stored, and is put into the place of the reference, where the passes to come
see it once more. They leave it alone if nothing is left in it that they replace (`Settled`).
Then the text that was stored is the one that was put in, and any later reference of the kind
gives it again (`stored_default_substituted`).

The pass for alternates comes first. If an alternate begins in the text, it takes the closing
brace, and no reference is left that could store anything (`alternate_takes_closing_brace`).
-/

namespace ConsoleScript.Scope

variable {now : Int} {scope : Scope} {name : String} {default cs : List Char}

/-- The reference that stores a text as a default: `${NAME:=text}`. -/
def assigning (name : String) (default : List Char) : List Char :=
  (Piece.guarded .assign name default).chars

/-- What all passes make of a default by itself. Dollars that were escaped are set aside. -/
def expandedDefault (now : Int) (scope : Scope) (default : List Char) : List Char :=
  (scope.substitute now (replaceEscapes [asideDollar] default)).1

/-- No reference is left in the text that the passes after the one that assigns replace. -/
structure Settled (now : Int) (scope : Scope) (cs : List Char) : Prop where
  default : ¬HasGuarded .default cs
  plain : ¬HasPlain cs
  names : ¬HasKnown now scope cs

theorem Settled.of_not_mem (hdollar : '$' ∉ cs) (hopen : '\x7b' ∉ cs) : Settled now scope cs where
  default := not_hasGuarded List.mem_cons_self hdollar
  plain := not_hasPlain hdollar
  names := not_hasKnown List.mem_cons_self hopen

theorem Settled.passes (h : Settled now scope cs) :
    bracedPass now scope (plainPass scope (defaultPass scope cs)) = cs := by
  rw [defaultPass_eq_self h.default, plainPass_eq_self h.plain, bracedPass_eq_self h.names]

/-! ## The reference in the passes -/

/-- Of a text without a closing brace only the references without braces are expanded. -/
theorem substitute_of_not_mem_close (h : '\x7d' ∉ cs) :
    scope.substitute now cs = (storedDefault now scope cs, scope) := by
  have hguarded : ∀ g, ¬HasGuarded g cs := fun g =>
    not_hasGuarded (List.mem_cons_of_mem _ List.mem_cons_self) h
  simp only [substitute, alternatePass_eq_self (hguarded .alternate),
    assignPass_eq_self (hguarded .assign), defaultPass_eq_self (hguarded .default), storedDefault]

/-- An escape does not reach over a character that is no dollar. -/
theorem replaceEscapes_append_of_ne {value rest : List Char} {c : Char} (hc : c ≠ '$') :
    replaceEscapes value (cs ++ c :: rest) =
      replaceEscapes value cs ++ replaceEscapes value (c :: rest) := by
  fun_induction replaceEscapes value cs with
  | case1 cs ih => simp only [List.cons_append, replaceEscapes, ih, List.append_assoc]
  | case2 d cs hd ih =>
    rw [List.cons_append, replaceEscapes, ih, List.cons_append]
    intro more hslash hmore
    cases cs with
    | nil => exact hc (List.cons.inj hmore).1
    | cons e cs =>
      obtain ⟨rfl, -⟩ := List.cons.inj hmore
      exact hd cs hslash rfl
  | case3 => rfl

theorem replaceEscapes_assigning (hname : isName name.toList = true) :
    replaceEscapes [asideDollar] (assigning name default) =
      assigning name (replaceEscapes [asideDollar] default) := by
  have hfront : '\\' ∉ '$' :: '\x7b' :: (name.toList ++ [':', '=']) := by
    simp [not_mem_of_isName hname (c := '\\') (by decide)]
  have hsplit : ∀ text, assigning name text =
      ('$' :: '\x7b' :: (name.toList ++ [':', '='])) ++ (text ++ ['\x7d']) := fun text => by
    simp [assigning, Piece.chars, Guard.mark]
  have hclose : replaceEscapes [asideDollar] ['\x7d'] = ['\x7d'] :=
    replaceEscapes_of_not_mem (by decide)
  rw [hsplit, hsplit, replaceEscapes_append hfront, replaceEscapes_append_of_ne (by decide), hclose]

theorem segments_assigning (hname : isName name.toList = true) (hclose : '\x7d' ∉ default) :
    Text.segments (guarded '=') (assigning name default) = [.form ⟨name, default⟩] := by
  obtain ⟨tail, htail⟩ : ∃ tail, assigning name default = '$' :: tail := ⟨_, rfl⟩
  have hform : guarded '=' (assigning name default) =
      some (⟨name, default⟩, (assigning name default).length) := by
    have hseen : guarded '=' ((Piece.guarded .assign name default).chars ++ []) =
        some (⟨name, default⟩, (assigning name default).length) :=
      Piece.guarded_chars '=' ⟨hname, hclose⟩
    rwa [List.append_nil] at hseen
  rw [htail] at hform
  have hrest := Text.segmentsFrom_append (guarded '=') tail []
  rw [List.append_nil, Text.segmentsFrom] at hrest
  rw [htail, Text.segments, Text.segmentsFrom, hform]
  simpa using hrest

theorem assignPass_assigning (now : Int) (scope : Scope) (hname : isName name.toList = true)
    (hclose : '\x7d' ∉ default) :
    assignPass now scope (assigning name default) =
      match scope.nonempty? name with
      | some value => (setAside value.toList, scope)
      | none =>
        (storedDefault now scope default,
          scope.set name (String.ofList (bringBack (storedDefault now scope default)))) := by
  rw [assignPass, segments_assigning hname hclose, assignSegments]
  cases scope.nonempty? name <;> simp [assignSegments]

/-! ## The reference expanded -/

/-- The reference holds an alternate, which is expanded before it. -/
def HasAlternate (name : String) (default : List Char) : Prop :=
  HasGuarded .alternate (replaceEscapes [asideDollar] (assigning name default))

theorem expand_assigning {out : List Char} {after : Scope} (hname : isName name.toList = true)
    (halternate : ¬HasAlternate name default)
    (hassign : assignPass now scope (assigning name (replaceEscapes [asideDollar] default)) =
      (out, after)) :
    scope.expand now (String.ofList (assigning name default)) =
      (String.ofList (bringBack (bracedPass now after (plainPass after (defaultPass after out)))),
        after) := by
  have hdollar : (assigning name default).contains '$' = true := by simp [assigning, Piece.chars]
  have hpassed : alternatePass scope _ = _ := alternatePass_eq_self halternate
  rw [replaceEscapes_assigning hname] at hpassed
  simp only [expand, String.toList_ofList, hdollar, Bool.true_or, ↓reduceIte, expandChars,
    replaceEscapes_assigning hname, substitute, hpassed, hassign]

/-- A name without a value gets the default, which takes the place of the reference. -/
theorem expand_assigning_unset (hname : isName name.toList = true) (hclose : '\x7d' ∉ default)
    (halternate : ¬HasAlternate name default) (hunset : scope.nonempty? name = none)
    (hsettled : Settled now
      (scope.set name (String.ofList (bringBack (scope.expandedDefault now default))))
      (scope.expandedDefault now default)) :
    scope.expand now (String.ofList (assigning name default)) =
      (String.ofList (bringBack (scope.expandedDefault now default)),
        scope.set name (String.ofList (bringBack (scope.expandedDefault now default)))) := by
  have hclose' : '\x7d' ∉ replaceEscapes [asideDollar] default :=
    not_mem_replaceEscapes (by decide) hclose
  have hexpanded : scope.expandedDefault now default =
      storedDefault now scope (replaceEscapes [asideDollar] default) := by
    rw [expandedDefault, substitute_of_not_mem_close hclose']
  have hassign := assignPass_assigning now scope hname hclose'
  rw [hunset, ← hexpanded] at hassign
  rw [expand_assigning hname halternate hassign, hsettled.passes]

/-- A value that holds no name in braces takes the place of the reference as it is. -/
theorem expand_assigning_set {value : String} (hname : isName name.toList = true)
    (hclose : '\x7d' ∉ default) (halternate : ¬HasAlternate name default)
    (hset : scope.nonempty? name = some value) (haside : asideDollar ∉ value.toList)
    (hknown : ¬HasKnown now scope value.toList) :
    scope.expand now (String.ofList (assigning name default)) = (value, scope) := by
  have hkeeps : Keeps isBracedChar (recast '$' asideDollar) := .recast (by decide) (by decide)
  have hdollar := dollar_not_mem_setAside value.toList
  have hsettled : Settled now scope (setAside value.toList) :=
    { default := not_hasGuarded List.mem_cons_self hdollar
      plain := not_hasPlain hdollar
      names := fun h => hknown (hasKnown_of_map hkeeps h) }
  have hclose' : '\x7d' ∉ replaceEscapes [asideDollar] default :=
    not_mem_replaceEscapes (by decide) hclose
  have hassign := assignPass_assigning now scope hname hclose'
  rw [hset] at hassign
  rw [expand_assigning hname halternate hassign, hsettled.passes, bringBack_setAside haside,
    String.ofList_toList]

/-! ## The text that is stored -/

theorem get?_set_self {value : String} (h : scope.overrides.get? name = none) :
    (scope.set name value).get? name = some value := by
  simp [get?, set, h]

theorem nonempty?_set_self {value : String} (h : scope.overrides.get? name = none)
    (hne : value ≠ "") : (scope.set name value).nonempty? name = some value := by
  have hempty : value.isEmpty = false := by
    rwa [Bool.eq_false_iff, ne_eq, String.isEmpty_iff]
  simp [nonempty?, get?_set_self h, Option.filter, hempty]

theorem asideDollar_not_mem_bringBack (cs : List Char) : asideDollar ∉ bringBack cs := by
  simp only [bringBack, List.mem_map, not_exists, not_and]
  intro c _
  split
  · decide
  · assumption

/-- A reference that stores a default stores the text that takes its place, if there is no
    alternate in it, and nothing in that text that the passes after it replace. All later
    references of the kind give the text again, unless it is empty. -/
theorem stored_default_substituted (hname : isName name.toList = true)
    (hclose : '\x7d' ∉ default) (hunset : scope.nonempty? name = none)
    (hoverride : scope.overrides.get? name = none) (halternate : ¬HasAlternate name default)
    (hsettled : Settled now
      (scope.set name (String.ofList (bringBack (scope.expandedDefault now default))))
      (scope.expandedDefault now default)) :
    ∃ r, scope.expand now (String.ofList (assigning name default)) = (r, scope.set name r) ∧
      (scope.set name r).get? name = some r ∧
      (r ≠ "" → ∀ now' other, '\x7d' ∉ other → ¬HasAlternate name other →
        (scope.set name r).expand now' (String.ofList (assigning name other)) =
          (r, scope.set name r)) := by
  refine ⟨_, expand_assigning_unset hname hclose halternate hunset hsettled,
    get?_set_self hoverride, fun hne now' other hclose' halternate' => ?_⟩
  have hback : Keeps isBracedChar (recast asideDollar '$') := .recast (by decide) (by decide)
  refine expand_assigning_set hname hclose' halternate' (nonempty?_set_self hoverride hne) ?_
    fun hknown => ?_
  · rw [String.toList_ofList]
    exact asideDollar_not_mem_bringBack _
  · rw [String.toList_ofList] at hknown
    exact hsettled.names (hasKnown_of_time (hasKnown_of_map hback hknown))

/-- A default with a reference and an escaped dollar, which is none when it is given again. -/
theorem stored_default_substituted_escape :
    let scope : Scope := ⟨.empty, ⟨[("BASE", "/srv"), ("HOME", "/root")]⟩, .empty⟩
    let default := "$BASE/\\$HOME".toList
    isName "DIR".toList = true ∧ '\x7d' ∉ default ∧ scope.nonempty? "DIR" = none ∧
      scope.overrides.get? "DIR" = none ∧ ¬HasAlternate "DIR" default ∧
      scope.expand 0 "$\x7bDIR:=$BASE/\\$HOME\x7d" = ("/srv/$HOME", scope.set "DIR" "/srv/$HOME") ∧
      ((scope.set "DIR" "/srv/$HOME").expand 9 "$\x7bDIR:=other\x7d").1 = "/srv/$HOME" := by
  intro scope default
  have hname : isName "DIR".toList = true := by decide +kernel
  have hclose : '\x7d' ∉ default := by decide +kernel
  have hunset : scope.nonempty? "DIR" = none := by decide +kernel
  have halternate : ∀ text, '+' ∉ replaceEscapes [asideDollar] (assigning "DIR" text) →
      ¬HasAlternate "DIR" text := fun text h => not_hasGuarded (c := '+') (by decide) h
  have hsettled : Settled 0
      (scope.set "DIR" (String.ofList (bringBack (scope.expandedDefault 0 default))))
      (scope.expandedDefault 0 default) :=
    .of_not_mem (by decide +kernel) (by decide +kernel)
  have hdefault : ¬HasAlternate "DIR" default := halternate default (by decide +kernel)
  obtain ⟨r, hexpand, -, hagain⟩ :=
    stored_default_substituted hname hclose hunset rfl hdefault hsettled
  have hvalue : (scope.expand 0 (String.ofList (assigning "DIR" default))).1 = "/srv/$HOME" := by
    decide +kernel
  obtain rfl : r = "/srv/$HOME" := (congrArg Prod.fst hexpand).symm.trans hvalue
  have hother := hagain (by decide) 9 "other".toList (by decide +kernel)
    (halternate "other".toList (by decide +kernel))
  exact ⟨hname, hclose, hunset, rfl, hdefault, hexpand, congrArg Prod.fst hother⟩

/-- An alternate that begins in the default ends with the brace of the reference, of which
    the rest is left as it stands, and nothing is stored. -/
theorem alternate_takes_closing_brace :
    let scope : Scope := .empty
    let default := "$\x7bY:+z".toList
    isName "X".toList = true ∧ '\x7d' ∉ default ∧ scope.nonempty? "X" = none ∧
      scope.overrides.get? "X" = none ∧
      (scope.expand 0 (String.ofList (assigning "X" default))).1 = "$\x7bX:=" ∧
      (scope.expand 0 (String.ofList (assigning "X" default))).2.get? "X" = none := by
  decide +kernel

end ConsoleScript.Scope
