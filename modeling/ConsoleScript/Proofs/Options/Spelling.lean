-- SUMMARY: The options of the command line do not depend on how they are grouped.
import ConsoleScript.Options

/-!
# Spellings of a command line

One sequence of options can be written in many ways: flags that follow each
other may share a dash, the last letter behind a dash may be that of an option
with a value, and the value stands in the same argument or in the next one.
`Spells` relates the sequence to all its spellings. Reading any of them performs
the options one by one, so no spelling can be told from another.
-/

namespace ConsoleScript.Options

/-! ### Options one by one -/

/-- An option that is a letter and nothing else. -/
inductive Flag where
  | dryRun | check | step | verbose | quiet
  deriving DecidableEq, Repr

def Flag.letter : Flag → Char
  | .dryRun => 'n'
  | .check => 'k'
  | .step => 's'
  | .verbose => 'v'
  | .quiet => 'q'

/-- An option that cannot be without a value. -/
inductive Valued where
  | monitor | timeout | breakpoint | define
  deriving DecidableEq, Repr

def Valued.letter : Valued → Char
  | .monitor => 'm'
  | .timeout => 't'
  | .breakpoint => 'b'
  | .define => 'D'

/-- One option of a sequence. -/
inductive Item where
  | flag (f : Flag)
  | valued (v : Valued) (value : String)
  deriving DecidableEq, Repr

/-- The options with a flag set. -/
def withFlag (o : Options) (f : Flag) : Options := (o.setFlag? f.letter).getD o

/-- What one option does. -/
def perform (o : Options) : Item → Except UsageError Options
  | .flag f => .ok (o.withFlag f)
  | .valued v value => o.setValue v.letter value

theorem setFlag?_letter (o : Options) (f : Flag) : o.setFlag? f.letter = some (o.withFlag f) := by
  cases f <;> rfl

theorem setFlag?_valued (o : Options) (v : Valued) : o.setFlag? v.letter = none := by
  cases v <;> rfl

theorem Flag.letter_ne_dash (f : Flag) : f.letter ≠ '-' := by cases f <;> decide

theorem Valued.letter_ne_dash (v : Valued) : v.letter ≠ '-' := by cases v <;> decide

theorem Valued.letter_ne_config (v : Valued) : v.letter ≠ 'f' := by cases v <;> decide

theorem Valued.takesValue_letter (v : Valued) : takesValue v.letter = true := by
  cases v <;> decide

/-- Flags never fail, so they are performed before anything that can. -/
theorem foldlM_perform_flags (fs : List Flag) (items : List Item) (o : Options) :
    (fs.map Item.flag ++ items).foldlM perform o = items.foldlM perform (fs.foldl withFlag o) := by
  induction fs generalizing o with
  | nil => rfl
  | cons f fs ih => exact ih (o.withFlag f)

/-! ### Spellings -/

/-- The letters of flags. -/
def letters (fs : List Flag) : List Char := fs.map Flag.letter

/-- An argument of letters behind one dash. -/
def dashed (cs : List Char) : String := String.ofList ('-' :: cs)

/-- The arguments that say a sequence of options. -/
inductive Spells : List Item → List String → Prop where
  | done : Spells [] []
  /-- Flags behind one dash. -/
  | flags {items args} (fs : List Flag) (hfs : fs ≠ []) (rest : Spells items args) :
      Spells (fs.map Item.flag ++ items) (dashed (letters fs) :: args)
  /-- Flags, if any, and an option with its value, all in one argument. -/
  | attached {items args} (fs : List Flag) (v : Valued) {value : String} (hvalue : value ≠ "")
      (rest : Spells items args) :
      Spells (fs.map Item.flag ++ .valued v value :: items)
        (dashed (letters fs ++ v.letter :: value.toList) :: args)
  /-- Flags, if any, and an option whose value is the argument after it, whatever
      that looks like. -/
  | apart {items args} (fs : List Flag) (v : Valued) (value : String)
      (rest : Spells items args) :
      Spells (fs.map Item.flag ++ .valued v value :: items)
        (dashed (letters fs ++ [v.letter]) :: value :: args)

/-- The longest spelling of an option, with a dash and a value of its own. -/
def singly : Item → List String
  | .flag f => [dashed [f.letter]]
  | .valued v value => [dashed [v.letter], value]

/-- Every sequence has a spelling, whatever its values are. -/
theorem spells_singly (items : List Item) : Spells items (items.flatMap singly) := by
  induction items with
  | nil => exact .done
  | cons item items ih =>
    cases item with
    | flag f => exact .flags [f] (List.cons_ne_nil f []) ih
    | valued v value => exact .apart [] v value ih

/-! ### Reading the letters of one argument -/

theorem readCluster_letters (following : List String) (o : Options) (fs : List Flag)
    (cs : List Char) :
    readCluster following o (letters fs ++ cs) =
      readCluster following (fs.foldl withFlag o) cs := by
  induction fs generalizing o with
  | nil => rfl
  | cons f fs ih =>
    simp only [letters, List.map_cons, List.cons_append, readCluster, setFlag?_letter,
      List.foldl_cons]
    exact ih (o.withFlag f)

theorem readCluster_attached (following : List String) (o : Options) (v : Valued)
    {value : String} (hvalue : value ≠ "") :
    readCluster following o (v.letter :: value.toList) =
      (o.setValue v.letter value).map (⟨·, false⟩) := by
  have hrest : value.toList.isEmpty = false := by
    simpa [List.isEmpty_eq_false_iff] using hvalue
  simp [readCluster, setFlag?_valued, v.letter_ne_config, v.takesValue_letter, hrest]

theorem readCluster_apart (following : List String) (o : Options) (v : Valued)
    (value : String) :
    readCluster (value :: following) o [v.letter] =
      (o.setValue v.letter value).map (⟨·, true⟩) := by
  simp [readCluster, setFlag?_valued, v.letter_ne_config, v.takesValue_letter]

/-! ### Reading arguments -/

/-- What comes of an argument is what comes of its letters, unless it is one of
    the arguments that only look like options. -/
theorem readArguments_dashed (o : Options) (plain rest : List String) {cs : List Char}
    (hcs : ∃ c ∈ cs.head?, c ≠ '-') :
    readArguments o plain false (dashed cs :: rest) =
      readCluster rest o cs >>= fun read =>
        readArguments read.options plain read.usedNext rest := by
  obtain ⟨c, hc, hne⟩ := hcs
  obtain ⟨cs, rfl⟩ := List.head?_eq_some_iff.mp hc
  have htext : (dashed (c :: cs)).toList = '-' :: c :: cs := String.toList_ofList
  have hends : dashed (c :: cs) ≠ "--" := fun h => by simp [← String.toList_inj, htext, hne] at h
  have hdash : dashed (c :: cs) ≠ "-" := fun h => by simp [← String.toList_inj, htext] at h
  have hbegins : Text.beginsWith (dashed (c :: cs)) "-" = true := by
    simp [Text.beginsWith, htext]
  rw [readArguments]
  simp only [hends, hdash, hbegins, htext, List.tail_cons]
  cases readCluster rest o (c :: cs) <;> rfl

theorem exists_head_letters {fs : List Flag} (hfs : fs ≠ []) :
    ∃ c ∈ (letters fs).head?, c ≠ '-' := by
  cases fs with
  | nil => exact absurd rfl hfs
  | cons f fs => exact ⟨f.letter, rfl, f.letter_ne_dash⟩

theorem exists_head_valued (fs : List Flag) (v : Valued) (cs : List Char) :
    ∃ c ∈ (letters fs ++ v.letter :: cs).head?, c ≠ '-' := by
  cases fs with
  | nil => exact ⟨v.letter, rfl, v.letter_ne_dash⟩
  | cons f fs => exact ⟨f.letter, rfl, f.letter_ne_dash⟩

/-- Reading any spelling performs the options in their order, and goes on with
    what follows. -/
theorem Spells.readArguments {items : List Item} {args : List String}
    (h : Spells items args) (o : Options) (plain tail : List String) :
    Options.readArguments o plain false (args ++ tail) =
      items.foldlM perform o >>= fun o => Options.readArguments o plain false tail := by
  induction h generalizing o with
  | done => rfl
  | flags fs hfs _ ih =>
    rw [List.cons_append, readArguments_dashed _ _ _ (exists_head_letters hfs),
      foldlM_perform_flags, ← ih, ← List.append_nil (letters fs), readCluster_letters]
    rfl
  | @attached items args fs v value hvalue _ ih =>
    rw [List.cons_append, readArguments_dashed _ _ _ (exists_head_valued fs v _),
      foldlM_perform_flags, readCluster_letters, readCluster_attached _ _ _ hvalue]
    simp only [List.foldlM_cons, perform]
    cases (fs.foldl withFlag o).setValue v.letter value with
    | error e => rfl
    | ok o => exact ih o
  | @apart items args fs v value _ ih =>
    rw [List.cons_append, readArguments_dashed _ _ _ (exists_head_valued fs v _),
      foldlM_perform_flags, readCluster_letters, List.cons_append, readCluster_apart]
    simp only [List.foldlM_cons, perform]
    cases (fs.foldl withFlag o).setValue v.letter value with
    | error e => rfl
    | ok o => exact ih o

theorem readArguments_script (o : Options) {script : String}
    (hscript : Text.beginsWith script "-" = false) :
    readArguments o [] false [script] = .ok (o, [script]) := by
  have hends : script ≠ "--" := by rintro rfl; exact absurd hscript (by decide)
  simp [readArguments, hends, hscript]

/-- A command line of options and a script says the options one by one. -/
theorem Spells.read {items : List Item} {args : List String} (h : Spells items args)
    {script : String} (hscript : Text.beginsWith script "-" = false) :
    Options.read (args ++ [script]) =
      (items.foldlM perform standard).map fun o => { o with script } := by
  rw [Options.read, h.readArguments]
  cases items.foldlM perform standard with
  | error e => rfl
  | ok o =>
    have hread : Options.readArguments o [] false [script] = .ok (o, [script]) :=
      readArguments_script o hscript
    simp only [bind, Except.bind, hread]
    rfl

/-- Every spelling of the same options before the same script is read as the same,
    and what is read is what the options do one by one. -/
theorem spellings_agree {items : List Item} {args others : List String} {script : String}
    (h : Spells items args) (hothers : Spells items others)
    (hscript : Text.beginsWith script "-" = false) :
    read (args ++ [script]) = read (others ++ [script]) ∧
      read (args ++ [script]) =
        (items.foldlM perform standard).map fun o => { o with script } := by
  refine ⟨?_, h.read hscript⟩
  rw [h.read hscript, hothers.read hscript]

/-- A breakpoint that is no number is the same error however it is grouped, and a
    value that looks like an option is a value. -/
theorem spellings_agree_refused :
    Text.beginsWith "x.vms" "-" = false ∧
      read ["-nvD-A=1", "-qbten", "x.vms"] =
        read ["-n", "-v", "-D", "-A=1", "-q", "-b", "ten", "x.vms"] ∧
      read ["-nvD-A=1", "-qbten", "x.vms"] = .error (.breakpoint "ten") := by
  have hscript : Text.beginsWith "x.vms" "-" = false := by decide
  have hgrouped : Spells
      [.flag .dryRun, .flag .verbose, .valued .define "-A=1", .flag .quiet,
        .valued .breakpoint "ten"] ["-nvD-A=1", "-qbten"] :=
    .attached [.dryRun, .verbose] .define (by decide)
      (.attached [.quiet] .breakpoint (by decide) .done)
  obtain ⟨hsame, hread⟩ := spellings_agree hgrouped (spells_singly _) hscript
  exact ⟨hscript, hsame, hread⟩

end ConsoleScript.Options
