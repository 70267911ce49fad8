-- SUMMARY: Lines of a configuration file that cannot be read have no effect.
import ConsoleScript.Proofs.Text.Lines
import ConsoleScript.Settings

/-!
# Faults

A line of a configuration file is read before anything is changed, so a line that stops
at a fault leaves the configuration as it was (`applyLine_atomic`). A file therefore says
what is left of it when the lines that cannot be read are emptied (`faults_unnoticed`).
-/

namespace ConsoleScript.Config

/-! ## Changes that stop at a fault -/

/-- A change that changes nothing if it stops at a fault. -/
def Atomic (change : Change) : Prop :=
  ∀ c fault after, change.run c = (.error fault, after) → after = c

theorem atomic_throw (fault : ConfigFault) : Atomic (throw fault) := by
  intro c _ after h
  exact (congrArg Prod.snd h).symm

theorem atomic_modify (f : Config → Config) : Atomic (modify f) := by
  intro c fault after h
  cases h

/-- What is read before the first change may stop. -/
theorem atomic_read {α : Type} (reading : Except ConfigFault α) (f : α → Config → Config) :
    Atomic (do let value ← reading; modify (f value)) := by
  intro c fault after h
  cases reading with
  | error e => exact (congrArg Prod.snd h).symm
  | ok value => cases h

theorem applySetting_atomic (name value : String) : Atomic (applySetting name value) := by
  unfold applySetting
  split
  all_goals first
    | with_reducible exact atomic_modify _
    | with_reducible exact atomic_read _ _
    | with_reducible exact atomic_throw _

theorem applyLine_atomic (line : String) : Atomic (applyLine line) := by
  unfold applyLine
  split
  · exact atomic_read (readBinding _) fun binding c =>
      { c with bindings := c.bindings.set binding.1 binding.2 }
  · split
    · exact atomic_throw _
    · exact applySetting_atomic _ _

/-! ## One line after the other -/

/-- A line says nothing, changes the configuration, or is reported and changes nothing. -/
theorem applyLines_cons (c : Config) (n : Nat) (raw : String) (rest : List String) :
    (isSilent (Text.trim raw) = true ∧
      applyLines c n (raw :: rest) = applyLines c (n + 1) rest) ∨
    (∃ after, (applyLine (Text.trim raw)).run c = (.ok (), after) ∧
      isSilent (Text.trim raw) = false ∧
      applyLines c n (raw :: rest) = applyLines after (n + 1) rest) ∨
    ∃ fault, applyLines c n (raw :: rest) =
      ((applyLines c (n + 1) rest).1, ⟨n, fault⟩ :: (applyLines c (n + 1) rest).2) := by
  rw [applyLines]
  by_cases hsilent : isSilent (Text.trim raw) = true
  · exact .inl ⟨hsilent, if_pos hsilent⟩
  · refine .inr ?_
    match hrun : (applyLine (Text.trim raw)).run c with
    | (.ok (), after) =>
      refine .inl ⟨after, rfl, Bool.eq_false_iff.mpr hsilent, ?_⟩
      rw [if_neg hsilent]
    | (.error fault, after) =>
      refine .inr ⟨fault, ?_⟩
      rw [if_neg hsilent, applyLine_atomic _ c fault after hrun]

theorem applyLines_silent {raw : String} (h : isSilent (Text.trim raw) = true) (c : Config)
    (n : Nat) (rest : List String) :
    applyLines c n (raw :: rest) = applyLines c (n + 1) rest := by
  rw [applyLines]
  exact if_pos h

theorem applyLines_append_silent {last : String} (h : isSilent (Text.trim last) = true)
    (c : Config) (n : Nat) (lines : List String) :
    applyLines c n (lines ++ [last]) = applyLines c n lines := by
  induction lines generalizing c n with
  | nil => exact applyLines_silent h c n []
  | cons raw rest ih => simp only [List.cons_append, applyLines, ih]

/-- The numbers of the lines that could not be read. -/
def badLines (c : Config) (n : Nat) (lines : List String) : List Nat :=
  (applyLines c n lines).2.map (·.line)

theorem le_of_mem_badLines {c : Config} {n : Nat} {lines : List String} :
    ∀ m ∈ badLines c n lines, n ≤ m := by
  induction lines generalizing c n with
  | nil => simp [badLines, applyLines]
  | cons raw rest ih =>
    intro m hm
    rcases applyLines_cons c n raw rest with ⟨-, h⟩ | ⟨after, -, -, h⟩ | ⟨fault, h⟩
    · rw [badLines, h] at hm
      exact Nat.le_of_succ_le (ih m hm)
    · rw [badLines, h] at hm
      exact Nat.le_of_succ_le (ih m hm)
    · rw [badLines, h, List.map_cons, List.mem_cons] at hm
      rcases hm with rfl | hm
      · exact Nat.le_refl _
      · exact Nat.le_of_succ_le (ih m hm)

theorem badLines_increasing (c : Config) (n : Nat) (lines : List String) :
    (badLines c n lines).Pairwise (· < ·) := by
  induction lines generalizing c n with
  | nil => exact .nil
  | cons raw rest ih =>
    rw [badLines]
    rcases applyLines_cons c n raw rest with ⟨-, h⟩ | ⟨after, -, -, h⟩ | ⟨fault, h⟩
    · rw [h]
      exact ih c (n + 1)
    · rw [h]
      exact ih after (n + 1)
    · rw [h]
      exact List.pairwise_cons.mpr ⟨le_of_mem_badLines, ih c (n + 1)⟩

/-! ## The file without the lines that could not be read -/

theorem isSilent_empty : isSilent (Text.trim "") = true := by
  decide

/-- If the first line is not reported, those reported are the ones after it. -/
theorem eq_false_and_mem_badLines_iff {P : Nat → Bool} {c after : Config} {n : Nat} {raw : String}
    {rest : List String} (hP : ∀ m, n ≤ m → (P m = true ↔ m ∈ badLines c n (raw :: rest)))
    (h : applyLines c n (raw :: rest) = applyLines after (n + 1) rest) :
    P n = false ∧ ∀ m, n + 1 ≤ m → (P m = true ↔ m ∈ badLines after (n + 1) rest) := by
  rw [badLines, h] at hP
  refine ⟨?_, fun m hm => hP m (Nat.le_of_succ_le hm)⟩
  rw [← Bool.not_eq_true, hP n (Nat.le_refl n)]
  exact fun hmem => absurd (le_of_mem_badLines n hmem) (Nat.not_succ_le_self n)

/-- Lines that could not be read can be emptied. -/
theorem applyLines_emptied {P : Nat → Bool} {c : Config} {n : Nat} {lines : List (List Char)}
    (hP : ∀ m, n ≤ m → (P m = true ↔ m ∈ badLines c n (lines.map String.ofList))) :
    applyLines c n ((Text.emptied P n lines).map String.ofList) =
      ((applyLines c n (lines.map String.ofList)).1, []) := by
  induction lines generalizing c n with
  | nil => rfl
  | cons line rest ih =>
    rw [List.map_cons] at hP
    rw [Text.emptied, List.map_cons, List.map_cons]
    rcases applyLines_cons c n (String.ofList line) (rest.map String.ofList) with
      ⟨hsilent, h⟩ | ⟨after, hrun, hloud, h⟩ | ⟨fault, h⟩
    · obtain ⟨hgood, hrest⟩ := eq_false_and_mem_badLines_iff hP h
      rw [h, hgood, if_neg Bool.false_ne_true, applyLines_silent hsilent]
      exact ih hrest
    · obtain ⟨hgood, hrest⟩ := eq_false_and_mem_badLines_iff hP h
      rw [h, hgood, if_neg Bool.false_ne_true, applyLines, if_neg (by simp [hloud]), hrun]
      exact ih hrest
    · have hbad : P n = true := by
        rw [hP n (Nat.le_refl n), badLines, h]
        exact List.mem_cons_self
      rw [h, hbad, if_pos rfl, String.ofList_nil, applyLines_silent isSilent_empty]
      refine ih fun m hm => ?_
      rw [hP m (Nat.le_of_succ_le hm), badLines, h, List.map_cons, List.mem_cons, badLines]
      exact or_iff_right (Nat.ne_of_gt hm)

/-- What applies to the lines of a text with some emptied applies to the text with these
    lines emptied. -/
theorem applyLines_emptyLines (P : Nat → Bool) (c : Config) (text : String) :
    applyLines c 1 (Text.lines (Text.emptyLines P text)) =
      applyLines c 1 ((Text.emptied P 1 (Text.lineChars text.toList)).map String.ofList) := by
  rw [Text.lines, Text.emptyLines, String.toList_ofList]
  rcases Text.lineChars_emptyChars P 1 text.toList with h | h
  · rw [h]
  · rw [h, List.map_append]
    exact (applyLines_append_silent isSilent_empty c 1 _).symm

/-- The lines of a file that cannot be read are reported in order, and the file with
    these lines emptied is read without errors to the same configuration. A line that
    stops at a fault leaves the configuration as it was. -/
theorem faults_unnoticed (text : String) :
    let bad := (read text).2.map (·.line)
    bad.Pairwise (· < ·) ∧
    read (Text.emptyLines (bad.contains ·) text) = ((read text).1, []) ∧
    ∀ c line fault after, (applyLine line).run c = (.error fault, after) → after = c := by
  intro bad
  refine ⟨badLines_increasing _ _ _, ?_, fun c line => applyLine_atomic line c⟩
  rw [read, applyLines_emptyLines]
  exact applyLines_emptied fun m _ => List.contains_iff_mem

/-- Lines that give no duration, no known setting, no value and no binding, with line ends
    of both kinds, and the last one without an end. -/
theorem faults_unnoticed_soon :
    let text := "poll = soon\r\nrows = 30\nbogus = 1\r\n\nset A=1\nrows\nset 9=1"
    let kept := "\r\nrows = 30\n\r\n\nset A=1\n\n"
    (read text).2.map (·.line) = [1, 3, 6, 7] ∧ read kept = ((read text).1, []) ∧
    ((applyLine "poll = soon").run standard).2 = standard := by
  intro text kept
  have hbad : (read text).2.map (·.line) = [1, 3, 6, 7] := by decide +kernel
  have hkept : Text.emptyLines ([1, 3, 6, 7].contains ·) text = kept := by decide +kernel
  have hfails : ((applyLine "poll = soon").run standard).1 =
      .error (.notADuration "poll" "soon") := by
    rfl
  obtain ⟨-, hread, hatomic⟩ := faults_unnoticed text
  rw [hbad, hkept] at hread
  exact ⟨hbad, hread, hatomic standard "poll = soon" _ _ (Prod.ext hfails rfl)⟩

end ConsoleScript.Config
