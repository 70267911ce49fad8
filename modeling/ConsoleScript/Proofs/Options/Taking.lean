-- SUMMARY: Which arguments of a command line take the one after them as a value.
import ConsoleScript.Proofs.Options.Spelling
import ConsoleScript.Proofs.Text.Words

/-!
# Options that take the next argument

The letters of an argument end with `-f`, with an option that needs a value, or with something
that is complete (`letters_cases`). Only the first two look at the arguments after them:
`lettersTakeNext` tells, from the text alone, whether the next one is taken, and what is read
from the letters depends on what follows only so far (`readCluster_congr`).
-/

namespace ConsoleScript.Options

open Text (beginsWith)

/-! ### Which arguments take the next one -/

/-- The letters of flags. -/
def isFlag (c : Char) : Bool :=
  [Flag.dryRun, .check, .step, .verbose, .quiet].any (·.letter == c)

/-- Whether an argument is read letter by letter. -/
def isLetters (arg : String) : Bool := beginsWith arg "-" && arg != "-" && arg != "--"

/-- Whether what follows an option `-f` is a file for it: an argument that is no option, and
    not the last one. -/
def fileFollows : List String → Bool
  | next :: _ :: _ => !beginsWith next "-"
  | _ => false

/-- Whether letters take the argument after them as the value of the last one. The letters in
    front of that one have to be flags, since any other takes the rest of the argument. -/
def lettersTakeNext (cs : List Char) (following : List String) : Bool :=
  match cs.dropWhile isFlag with
  | [letter] => if letter = 'f' then fileFollows following else takesValue letter
  | _ => false

/-- Whether an argument takes the one after it as a value. -/
def takesNext (arg : String) (following : List String) : Bool :=
  isLetters arg && lettersTakeNext arg.toList.tail following

/-- An option `-f` without a file, alone or after flags. -/
def AsksFile (arg : String) : Prop :=
  isLetters arg = true ∧ arg.toList.tail.dropWhile isFlag = ['f']

/-! ### How letters end -/

theorem isFlag_letter (f : Flag) : isFlag f.letter = true := by cases f <;> rfl

theorem isFlag_valued (v : Valued) : isFlag v.letter = false := by cases v <;> rfl

theorem setFlag?_eq_none {c : Char} (h : isFlag c = false) (o : Options) :
    o.setFlag? c = none := by
  rw [setFlag?]
  all_goals
    rintro rfl
    cases h

/-- Letters are those of some flags and others that do not start with a flag. -/
theorem exists_eq_letters_append (cs : List Char) :
    ∃ fs rest, cs = letters fs ++ rest ∧ ∀ c ∈ rest.head?, isFlag c = false := by
  induction cs with
  | nil => exact ⟨[], [], rfl, by simp⟩
  | cons c cs ih =>
    cases hc : isFlag c with
    | false => exact ⟨[], c :: cs, rfl, by simp [hc]⟩
    | true =>
      obtain ⟨fs, rest, rfl, hrest⟩ := ih
      obtain ⟨f, -, hf⟩ := List.any_eq_true.mp hc
      exact ⟨f :: fs, rest, by rw [← beq_iff_eq.mp hf]; rfl, hrest⟩

theorem dropWhile_letters (fs : List Flag) {rest : List Char}
    (hrest : ∀ c ∈ rest.head?, isFlag c = false) :
    (letters fs ++ rest).dropWhile isFlag = rest := by
  have hflags : ∀ c ∈ letters fs, isFlag c = true :=
    List.forall_mem_map.mpr fun f _ => isFlag_letter f
  exact (Text.span_append hflags hrest).2

theorem lettersTakeNext_letter (fs : List Flag) {letter : Char} (h : isFlag letter = false)
    (following : List String) :
    lettersTakeNext (letters fs ++ [letter]) following =
      if letter = 'f' then fileFollows following else takesValue letter := by
  have hrest : (letters fs ++ [letter]).dropWhile isFlag = [letter] :=
    dropWhile_letters fs (by simpa using h)
  simp only [lettersTakeNext, hrest]

/-- `-f` takes the next argument as its file, or there is no file. -/
theorem readCluster_config (following : List String) (o : Options) :
    readCluster following o ['f'] =
      if fileFollows following then
        .ok ⟨{ o with config := .file (following.headD "") }, true⟩
      else .ok ⟨{ o with config := .skip }, false⟩ := by
  match following with
  | [] | [_] => rfl
  | next :: last :: more =>
    cases h : beginsWith next "-" <;> simp [readCluster, setFlag?, fileFollows, h]

theorem exists_valued {letter : Char} (h : takesValue letter = true) :
    ∃ v : Valued, v.letter = letter := by
  simp only [takesValue, Bool.or_eq_true, beq_iff_eq] at h
  rcases h with ((rfl | rfl) | rfl) | rfl
  · exact ⟨.monitor, rfl⟩
  · exact ⟨.timeout, rfl⟩
  · exact ⟨.breakpoint, rfl⟩
  · exact ⟨.define, rfl⟩

theorem readCluster_missing (o : Options) (v : Valued) :
    readCluster [] o [v.letter] = .error (.missingValue v.letter) := by
  simp [readCluster, setFlag?_valued, v.letter_ne_config, v.takesValue_letter]

theorem usedNext_of_map {x : Except UsageError Options} {used : Bool} {read : Cluster}
    (h : x.map (⟨·, used⟩) = .ok read) : read.usedNext = used := by
  cases x with
  | error e => cases h
  | ok o =>
    obtain rfl := Except.ok.inj h
    rfl

/-- Letters whose last one takes nothing from the arguments after it. -/
def Closed (cs : List Char) : Prop :=
  ∀ following, lettersTakeNext cs following = false ∧
    ∀ o, readCluster following o cs = readCluster [] o cs ∧
      ∀ read, readCluster following o cs = .ok read → read.usedNext = false

theorem closed_letters (fs : List Flag) : Closed (letters fs) := by
  intro following
  rw [← List.append_nil (letters fs)]
  have hrest : (letters fs ++ []).dropWhile isFlag = [] := dropWhile_letters fs (by simp)
  refine ⟨by simp only [lettersTakeNext, hrest], fun o => ?_⟩
  rw [readCluster_letters, readCluster_letters]
  refine ⟨rfl, fun read hread => ?_⟩
  obtain rfl := Except.ok.inj hread
  rfl

theorem closed_unknown (fs : List Flag) {letter : Char} (h : isFlag letter = false)
    (hconfig : letter ≠ 'f') (hvalue : takesValue letter = false) :
    Closed (letters fs ++ [letter]) := by
  have hunknown : ∀ following o,
      readCluster following o (letters fs ++ [letter]) = .error (.unknownOption letter) := by
    intro following o
    rw [readCluster_letters]
    simp [readCluster, setFlag?_eq_none h, hconfig, hvalue]
  refine fun following => ⟨?_, fun o => ?_⟩
  · rw [lettersTakeNext_letter fs h, if_neg hconfig, hvalue]
  · rw [hunknown, hunknown]
    exact ⟨rfl, fun read hread => by cases hread⟩

/-- After flags, a letter has the rest of the argument for a value, or is unknown. -/
theorem closed_rest (fs : List Flag) {letter : Char} (h : isFlag letter = false) (c : Char)
    (more : List Char) : Closed (letters fs ++ letter :: c :: more) := by
  intro following
  have hrest : (letters fs ++ letter :: c :: more).dropWhile isFlag = letter :: c :: more :=
    dropWhile_letters fs (by simpa using h)
  refine ⟨by simp only [lettersTakeNext, hrest], fun o => ?_⟩
  rw [readCluster_letters, readCluster_letters, readCluster.eq_def, readCluster.eq_def []]
  simp only [setFlag?_eq_none h]
  refine ⟨rfl, fun read hread => ?_⟩
  simp only [List.isEmpty_cons, Bool.not_false, if_true] at hread
  split at hread
  · obtain rfl := Except.ok.inj hread
    rfl
  · split at hread
    · exact usedNext_of_map hread
    · cases hread

/-- Letters end with `-f` or with an option that needs a value, or they are closed. -/
theorem letters_cases (cs : List Char) :
    (∃ fs, cs = letters fs ++ ['f']) ∨
      (∃ (fs : List Flag) (v : Valued), cs = letters fs ++ [v.letter]) ∨ Closed cs := by
  obtain ⟨fs, rest, rfl, hrest⟩ := exists_eq_letters_append cs
  match rest with
  | [] =>
    rw [List.append_nil]
    exact .inr (.inr (closed_letters fs))
  | [letter] =>
    have hletter : isFlag letter = false := hrest letter (by simp)
    by_cases hconfig : letter = 'f'
    · exact .inl ⟨fs, by rw [hconfig]⟩
    · cases hvalue : takesValue letter with
      | true =>
        obtain ⟨v, rfl⟩ := exists_valued hvalue
        exact .inr (.inl ⟨fs, v, rfl⟩)
      | false => exact .inr (.inr (closed_unknown fs hletter hconfig hvalue))
  | letter :: c :: more => exact .inr (.inr (closed_rest fs (hrest letter (by simp)) c more))

/-! ### What letters read from the arguments after them -/

/-- What is read from letters depends on what follows them only by the argument they take. -/
theorem readCluster_congr {cs : List Char} {following others : List String}
    (hsame : lettersTakeNext cs others = lettersTakeNext cs following)
    (hhead : lettersTakeNext cs following = true → others.head? = following.head?)
    (o : Options) : readCluster others o cs = readCluster following o cs := by
  rcases letters_cases cs with ⟨fs, rfl⟩ | ⟨fs, v, rfl⟩ | hclosed
  · rw [lettersTakeNext_letter fs rfl, lettersTakeNext_letter fs rfl] at hsame
    rw [lettersTakeNext_letter fs rfl] at hhead
    simp only [if_true] at hsame hhead
    rw [readCluster_letters, readCluster_letters, readCluster_config, readCluster_config, hsame]
    split
    · next hfile => rw [List.headD_eq_head?_getD, List.headD_eq_head?_getD, hhead hfile]
    · rfl
  · rw [lettersTakeNext_letter fs (isFlag_valued v), if_neg v.letter_ne_config] at hhead
    have hhead := hhead v.takesValue_letter
    rw [readCluster_letters, readCluster_letters]
    cases following with
    | nil => rw [List.head?_eq_none_iff.mp hhead]
    | cons next following =>
      obtain ⟨others, rfl⟩ := List.head?_eq_some_iff.mp hhead
      rw [readCluster_apart, readCluster_apart]
  · rw [((hclosed others).2 o).1, ((hclosed following).2 o).1]

theorem usedNext_of_readCluster {cs : List Char} {following : List String} {o : Options}
    {read : Cluster} (h : readCluster following o cs = .ok read) :
    read.usedNext = lettersTakeNext cs following := by
  rcases letters_cases cs with ⟨fs, rfl⟩ | ⟨fs, v, rfl⟩ | hclosed
  · rw [readCluster_letters, readCluster_config] at h
    rw [lettersTakeNext_letter fs rfl, if_pos rfl]
    split at h
    · next hfile =>
      obtain rfl := Except.ok.inj h
      exact hfile.symm
    · next hfile =>
      obtain rfl := Except.ok.inj h
      exact (Bool.eq_false_iff.mpr hfile).symm
  · rw [readCluster_letters] at h
    rw [lettersTakeNext_letter fs (isFlag_valued v), if_neg v.letter_ne_config, v.takesValue_letter]
    cases following with
    | nil => rw [readCluster_missing] at h; cases h
    | cons next following =>
      rw [readCluster_apart] at h
      exact usedNext_of_map h
  · rw [(hclosed following).1, ((hclosed following).2 o).2 read h]

/-! ### Whole arguments -/

theorem takesNext_of_asksFile {arg : String} (h : AsksFile arg) (following : List String) :
    takesNext arg following = fileFollows following := by
  simp only [takesNext, lettersTakeNext, h.1, h.2, Bool.true_and, if_true]

/-- Only `-f` looks at more than whether it has an argument of its own. -/
theorem takesNext_of_not_asksFile {arg : String} (h : ¬ AsksFile arg)
    (following others : List String) : takesNext arg others = takesNext arg following := by
  unfold takesNext lettersTakeNext
  cases hletters : isLetters arg with
  | false => rfl
  | true =>
    split
    · next letter htail =>
      have hconfig : letter ≠ 'f' := fun hconfig => h ⟨hletters, by rw [htail, hconfig]⟩
      rw [if_neg hconfig, if_neg hconfig]
    · rfl

theorem takesNext_congr {following others : List String}
    (h : fileFollows others = fileFollows following) (arg : String) :
    takesNext arg others = takesNext arg following := by
  by_cases hasks : AsksFile arg
  · rw [takesNext_of_asksFile hasks, takesNext_of_asksFile hasks, h]
  · exact takesNext_of_not_asksFile hasks following others

theorem fileFollows_append (rest more others : List String) (x y : String) :
    fileFollows (rest ++ x :: y :: others) = fileFollows (rest ++ x :: y :: more) := by
  match rest with
  | [] | [_] | _ :: _ :: _ => rfl

end ConsoleScript.Options
