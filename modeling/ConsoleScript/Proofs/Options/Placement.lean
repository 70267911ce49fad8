-- SUMMARY: A flag may stand anywhere among the options, except where it takes the script from an option in front of it.
import ConsoleScript.Proofs.Options.Taking

/-!
# Flags anywhere

A flag can be put between any two arguments that are not an option and its value
(`Place.free`). Two facts carry this. Reading the arguments in front of such a place comes to
the same options whatever follows, as long as no option among them takes another argument
(`readArguments_passes`). And it does not matter when a flag is set (`readArguments_mark`).

An option `-f` without a file takes the next argument only if that is not the last one. Before
a script it takes nothing, until a flag is put after the script.
-/

namespace ConsoleScript.Options

open Text (beginsWith)

/-! ### Places between arguments -/

/-- What kind of place a place between two arguments is. -/
inductive Place where
  /-- A place where an option can be put. -/
  | free
  /-- The place between an option and the argument that it takes. -/
  | inside
  /-- A place behind a `--` that is not the value of an option. -/
  | ended
  deriving DecidableEq, Repr

/-- The place between `front` and `back`, where `skip` tells that the first argument is
    the value of an option before it. -/
def placeFrom : Bool → List String → List String → Place
  | skip, [], _ => if skip then .inside else .free
  | true, _ :: front, back => placeFrom false front back
  | false, arg :: front, back =>
    if arg = "--" then .ended else placeFrom (takesNext arg (front ++ back)) front back

/-- The place between two parts of a command line. -/
def place (front back : List String) : Place := placeFrom false front back

/-- A command line that ends with an option `-f`, which takes nothing, and a script. -/
def EndsWithScript (args : List String) : Prop :=
  ∃ before option script, args = before ++ [option, script] ∧
    place before [option, script] = .free ∧ AsksFile option ∧ beginsWith script "-" = false

/-! ### Flags are set at any time -/

/-- The options that differ in one flag. -/
def mark (o : Options) : Flag → Options
  | .dryRun => { o with dryRun := true }
  | .check => { o with check := true }
  | .step => { o with step := true }
  | .verbose => { o with verbose := min maxVerbose (o.verbose + 1) }
  | .quiet => { o with quiet := true }

theorem withFlag_eq_mark (o : Options) (f : Flag) : o.withFlag f = o.mark f := by
  cases f <;> rfl

theorem setFlag?_mark (o : Options) (f : Flag) (c : Char) :
    (o.mark f).setFlag? c = (o.setFlag? c).map (·.mark f) := by
  unfold setFlag?
  split <;> cases f <;> rfl

theorem mark_config (o : Options) (f : Flag) (config : ConfigChoice) :
    { o.mark f with config } = mark { o with config } f := by
  cases f <;> rfl

theorem setValue_mark (o : Options) (f : Flag) (c : Char) (value : String) :
    (o.mark f).setValue c value = (o.setValue c value).map (·.mark f) := by
  unfold setValue
  split
  · cases f <;> rfl
  · cases Duration.read? value <;> cases f <;> rfl
  · cases Text.readNat? Text.maxWord value <;> cases f <;> rfl
  · split <;> cases f <;> rfl

theorem readCluster_mark (following : List String) (o : Options) (f : Flag) (cs : List Char) :
    readCluster following (o.mark f) cs =
      (readCluster following o cs).map fun read => ⟨read.options.mark f, read.usedNext⟩ := by
  induction cs generalizing o with
  | nil => rfl
  | cons letter rest ih =>
    rw [readCluster.eq_def, readCluster.eq_def following o]
    simp only [setFlag?_mark]
    cases o.setFlag? letter with
    | some o => exact ih o
    | none =>
      simp only [Option.map_none, mark_config, setValue_mark]
      split
      · split
        · rfl
        · split
          · split <;> rfl
          · rfl
      · split
        · split
          · cases o.setValue letter (String.ofList rest) <;> rfl
          · split
            · next given _ => cases o.setValue letter given <;> rfl
            · rfl
        · rfl

/-- A flag that is set first could as well be set last, whether or not the rest is read. -/
theorem readArguments_mark (o : Options) (f : Flag) (plain : List String) (skip : Bool)
    (args : List String) :
    readArguments (o.mark f) plain skip args =
      (readArguments o plain skip args).map fun read => (read.1.mark f, read.2) := by
  induction args generalizing o plain skip with
  | nil => rfl
  | cons arg rest ih =>
    rw [readArguments, readArguments]
    split
    · exact ih o plain false
    · split
      · rfl
      · split
        · exact ih o (plain ++ [arg]) false
        · rw [readCluster_mark]
          cases readCluster rest o arg.toList.tail with
          | error e => rfl
          | ok read => exact ih read.options plain read.usedNext

/-! ### Reading up to a place -/

theorem not_isLetters {arg : String} (hends : arg ≠ "--") :
    (!beginsWith arg "-" || arg = "-") = !isLetters arg := by
  have hne : (arg != "--") = true := by simpa using hends
  by_cases hdash : arg = "-" <;> simp [isLetters, hne, hdash]

/-- What comes of the argument before others. -/
theorem readArguments_cons {arg : String} (hends : arg ≠ "--") (o : Options)
    (plain rest : List String) :
    readArguments o plain false (arg :: rest) =
      if isLetters arg then
        readCluster rest o arg.toList.tail >>= fun read =>
          readArguments read.options plain read.usedNext rest
      else readArguments o (plain ++ [arg]) false rest := by
  rw [readArguments]
  simp only [Bool.false_eq_true, if_false, if_neg hends, not_isLetters hends]
  cases isLetters arg with
  | false => rfl
  | true =>
    simp only [Bool.not_true, Bool.false_eq_true, if_false, if_true]
    cases readCluster rest o arg.toList.tail <;> rfl

/-- Reading the arguments in front of a place comes to the same, whatever follows, if each of
    them takes the same. -/
theorem readArguments_passes {front back others : List String} {skip : Bool} {o : Options}
    {plain : List String} {result : Options × List String}
    (hplace : placeFrom skip front back = .free)
    (hsame : ∀ before arg rest, front = before ++ arg :: rest →
      placeFrom skip before (arg :: rest ++ back) = .free →
        takesNext arg (rest ++ others) = takesNext arg (rest ++ back))
    (hread : readArguments o plain skip (front ++ back) = .ok result) :
    ∃ o₁ plain₁, readArguments o₁ plain₁ false back = .ok result ∧
      readArguments o plain skip (front ++ others) = readArguments o₁ plain₁ false others := by
  induction front generalizing o plain skip with
  | nil =>
    cases skip with
    | true => cases hplace
    | false => exact ⟨o, plain, hread, rfl⟩
  | cons arg front ih =>
    cases skip with
    | true =>
      refine ih hplace (fun before option rest hfront hbefore => ?_) hread
      exact hsame (arg :: before) option rest (by rw [hfront]; rfl) hbefore
    | false =>
      have hends : arg ≠ "--" := by
        rintro rfl
        cases hplace
      rw [placeFrom, if_neg hends] at hplace
      have htakes : takesNext arg (front ++ others) = takesNext arg (front ++ back) :=
        hsame [] arg front rfl rfl
      have hsame : ∀ before option rest, front = before ++ option :: rest →
          placeFrom (takesNext arg (front ++ back)) before (option :: rest ++ back) = .free →
            takesNext option (rest ++ others) = takesNext option (rest ++ back) := by
        intro before option rest hfront hbefore
        refine hsame (arg :: before) option rest (by rw [hfront]; rfl) ?_
        rw [placeFrom, if_neg hends]
        rwa [hfront, List.append_assoc] at hbefore
      rw [List.cons_append, readArguments_cons hends] at hread ⊢
      cases hletters : isLetters arg with
      | false =>
        have hnone : takesNext arg (front ++ back) = false := by rw [takesNext, hletters]; rfl
        rw [hnone] at hplace hsame
        rw [hletters] at hread
        exact ih hplace hsame hread
      | true =>
        have hname : takesNext arg = lettersTakeNext arg.toList.tail := by
          funext following
          rw [takesNext, hletters, Bool.true_and]
        rw [hname] at hplace hsame htakes
        rw [hletters, if_pos rfl] at hread
        rw [if_pos rfl, readCluster_congr htakes fun htake => ?_]
        · cases hcluster : readCluster (front ++ back) o arg.toList.tail with
          | error e => rw [hcluster] at hread; cases hread
          | ok read =>
            rw [hcluster] at hread
            rw [← usedNext_of_readCluster hcluster] at hplace hsame
            exact ih hplace hsame hread
        · -- An argument that takes the next one is not the last before a free place.
          cases front with
          | nil => rw [htake] at hplace; cases hplace
          | cons next front => rfl

theorem placeFrom_append {before after back : List String} {skip : Bool}
    (h : placeFrom skip before (after ++ back) = .free) :
    placeFrom skip (before ++ after) back = placeFrom false after back := by
  induction before generalizing skip with
  | nil =>
    cases skip with
    | true => cases h
    | false => rfl
  | cons arg before ih =>
    cases skip with
    | true => exact ih h
    | false =>
      have hends : arg ≠ "--" := by
        rintro rfl
        cases h
      rw [placeFrom, if_neg hends] at h
      rw [List.cons_append, placeFrom, if_neg hends, List.append_assoc, ih h]

/-- The argument before a free place takes nothing. -/
theorem takesNext_of_free {before back : List String} {arg : String} {skip : Bool}
    (hbefore : placeFrom skip before (arg :: back) = .free)
    (h : placeFrom skip (before ++ [arg]) back = .free) : takesNext arg back = false := by
  rw [placeFrom_append (by exact hbefore), placeFrom] at h
  split at h
  · cases h
  · cases htakes : takesNext arg back with
    | false => rfl
    | true => rw [List.nil_append, htakes] at h; cases h

/-! ### What a flag changes for the options before it -/

/-- A flag is no file for the option before it. -/
theorem fileFollows_flag (f : Flag) (back : List String) :
    fileFollows (dashed [f.letter] :: back) = false := by
  have hdash : beginsWith (dashed [f.letter]) "-" = true := by cases f <;> decide
  cases back with
  | nil => rfl
  | cons next back => simp only [fileFollows, hdash, Bool.not_true]

/-- The arguments before a free place take the same when a flag is put there, unless it is
    after a script that an option `-f` then takes. -/
theorem takesNext_flag {front back before rest : List String} {arg : String} (f : Flag)
    (hplace : place front back = .free) (hscript : ¬ (back = [] ∧ EndsWithScript front))
    (hfront : front = before ++ arg :: rest)
    (hbefore : placeFrom false before (arg :: rest ++ back) = .free) :
    takesNext arg (rest ++ dashed [f.letter] :: back) = takesNext arg (rest ++ back) := by
  subst hfront
  match rest with
  | [] =>
    have hnone : takesNext arg back = false := takesNext_of_free hbefore hplace
    by_cases hasks : AsksFile arg
    · rw [List.nil_append, List.nil_append, hnone, takesNext_of_asksFile hasks, fileFollows_flag]
    · exact takesNext_of_not_asksFile hasks _ _
  | [next] =>
    match back with
    | [] =>
      -- Only here the next argument was the last one, and with the flag it is not.
      by_cases hasks : AsksFile arg
      · cases hdash : beginsWith next "-" with
        | true => exact takesNext_congr (by simp [fileFollows, hdash]) arg
        | false => exact absurd ⟨rfl, before, arg, next, rfl, hbefore, hasks, hdash⟩ hscript
      · exact takesNext_of_not_asksFile hasks _ _
    | last :: back => exact takesNext_congr rfl arg
  | next :: last :: rest => exact takesNext_congr rfl arg

/-! ### Reading with a flag -/

theorem readArguments_flag (o : Options) (plain : List String) (f : Flag) (back : List String) :
    readArguments o plain false (dashed [f.letter] :: back) =
      readArguments (o.mark f) plain false back := by
  have hflag : readCluster back o [f.letter] = .ok ⟨o.mark f, false⟩ := by
    rw [← withFlag_eq_mark]
    exact readCluster_letters back o [f] []
  refine (readArguments_dashed o plain back (exists_head_letters (List.cons_ne_nil f []))).trans ?_
  change readCluster back o [f.letter] >>= _ = _
  rw [hflag]
  rfl

theorem readArguments_of_read {args : List String} {o : Options} (h : read args = .ok o) :
    ∃ o₀ script, readArguments standard [] false args = .ok (o₀, [script]) ∧
      o = { o₀ with script } := by
  rw [read] at h
  split at h
  · cases h
  · next o₀ script hread => exact ⟨o₀, script, hread, (Except.ok.inj h).symm⟩
  · cases h
  · cases h

/-- Put between arguments that stay as they are, a flag is set and nothing else changes. -/
theorem read_flag (f : Flag) {front back : List String} {o : Options}
    (h : read (front ++ back) = .ok o) (hplace : place front back = .free)
    (hscript : ¬ (back = [] ∧ EndsWithScript front)) :
    read (front ++ dashed [f.letter] :: back) = .ok (o.mark f) := by
  obtain ⟨o₀, script, hread, rfl⟩ := readArguments_of_read h
  obtain ⟨o₁, plain, hback, hfront⟩ := readArguments_passes hplace
    (fun before arg rest => takesNext_flag f hplace hscript) hread
  rw [read, hfront, readArguments_flag, readArguments_mark, hback]
  cases f <;> rfl

/-! ### A script that is taken for a file -/

theorem readArguments_config {option : String} (h : AsksFile option) (o : Options)
    (plain following : List String) :
    ∃ o', readArguments o plain false (option :: following) =
      readArguments o' plain (fileFollows following) following := by
  have hends : option ≠ "--" := by
    rintro rfl
    exact absurd h.1 (by decide)
  obtain ⟨fs, rest, hfs, hrest⟩ := exists_eq_letters_append option.toList.tail
  have hconfig : rest = ['f'] := by rw [← dropWhile_letters fs hrest, ← hfs, h.2]
  rw [hconfig] at hfs
  rw [readArguments_cons hends, if_pos h.1, hfs, readCluster_letters, readCluster_config]
  split
  · next hfile => exact ⟨_, by rw [hfile]; rfl⟩
  · next hfile => exact ⟨_, by rw [Bool.eq_false_iff.mpr hfile]; rfl⟩

/-- After the script, a flag makes the option `-f` before the script take it. -/
theorem read_flag_after_script (f : Flag) {front : List String} {o : Options}
    (h : read front = .ok o) (hscript : EndsWithScript front) :
    read (front ++ [dashed [f.letter]]) = .error .noScript := by
  obtain ⟨before, option, script, rfl, hplace, hasks, hdash⟩ := hscript
  obtain ⟨o₀, last, hread, -⟩ := readArguments_of_read h
  have hsame : ∀ rest, fileFollows (rest ++ [option, script, dashed [f.letter]]) =
      fileFollows (rest ++ [option, script]) := fun rest =>
    fileFollows_append rest [] [dashed [f.letter]] option script
  obtain ⟨o₁, plain, hback, hfront⟩ := readArguments_passes hplace
    (fun _ arg rest _ _ => takesNext_congr (hsame rest) arg) hread
  have hplain : plain = [] := by
    -- Without the flag the script is the only plain argument, and it comes after these.
    obtain ⟨o₂, hoption⟩ := readArguments_config hasks o₁ plain [script]
    have hends : script ≠ "--" := by rintro rfl; exact absurd hdash (by decide)
    have hletters : isLetters script = false := by rw [isLetters, hdash]; rfl
    change _ = readArguments o₂ plain false [script] at hoption
    rw [hoption, readArguments_cons hends, hletters] at hback
    have hpair : (o₂, plain ++ [script]) = (o₀, [last]) := Except.ok.inj hback
    exact (List.append_eq_singleton_iff.mp (congrArg Prod.snd hpair)).elim And.left
      fun hnone => absurd hnone.2 (List.cons_ne_nil script [])
  have htaken : fileFollows [script, dashed [f.letter]] = true := by simp [fileFollows, hdash]
  obtain ⟨o₂, hoption⟩ := readArguments_config hasks o₁ plain [script, dashed [f.letter]]
  rw [List.append_assoc]
  change read (before ++ [option, script, dashed [f.letter]]) = _
  rw [read, hfront, hoption, htaken, readArguments, if_pos rfl, readArguments_flag, hplain]
  rfl

/-- A flag can be put anywhere before a `--` and not between an option and its value, except
    after a script that follows an option `-f`: there the option takes the script. -/
theorem flags_anywhere (f : Flag) {front back : List String} {o : Options}
    (h : read (front ++ back) = .ok o) (hplace : place front back = .free) :
    (¬ (back = [] ∧ EndsWithScript front) →
        read (front ++ dashed [f.letter] :: back) = .ok (o.mark f)) ∧
      (back = [] ∧ EndsWithScript front →
        read (front ++ dashed [f.letter] :: back) = .error .noScript) := by
  refine ⟨read_flag f h hplace, ?_⟩
  rintro ⟨rfl, hscript⟩
  rw [List.append_nil] at h
  exact read_flag_after_script f h hscript

/-- Where a value looks like the end of the options, a flag stands after it, and `-f` before
    the script is still without a file; after the script it has one. -/
theorem flags_anywhere_config :
    read ["-m", "--", "-f", "x.vms"] =
        .ok { standard with script := "x.vms", config := .skip, monitor := some "--" } ∧
      place ["-m", "--"] ["-f", "x.vms"] = .free ∧ place ["-m", "--", "-f", "x.vms"] [] = .free ∧
      read ["-m", "--", "-n", "-f", "x.vms"] =
        .ok { standard with
          script := "x.vms", config := .skip, monitor := some "--", dryRun := true } ∧
      read ["-m", "--", "-f", "x.vms", "-n"] = .error .noScript := by
  have hread : read ["-m", "--", "-f", "x.vms"] =
      .ok { standard with script := "x.vms", config := .skip, monitor := some "--" } := rfl
  have hbefore : place ["-m", "--"] ["-f", "x.vms"] = .free := by decide
  have hafter : place ["-m", "--", "-f", "x.vms"] [] = .free := by decide
  have hends : EndsWithScript ["-m", "--", "-f", "x.vms"] :=
    ⟨["-m", "--"], "-f", "x.vms", rfl, by decide, ⟨by decide, by decide⟩, by decide⟩
  refine ⟨hread, hbefore, hafter, ?_, ?_⟩
  · exact (@flags_anywhere .dryRun ["-m", "--"] ["-f", "x.vms"] _ hread hbefore).1 fun h =>
      nomatch h.1
  · exact (@flags_anywhere .dryRun ["-m", "--", "-f", "x.vms"] [] _ hread hafter).2 ⟨rfl, hends⟩

/-- The end of a command line is a free place, and a flag there takes the script away. -/
theorem script_taken_for_file :
    read ["-f", "x.vms"] = .ok { standard with script := "x.vms", config := .skip } ∧
      place ["-f", "x.vms"] [] = .free ∧ read ["-f", "x.vms", "-n"] = .error .noScript :=
  ⟨rfl, by decide, rfl⟩

end ConsoleScript.Options
