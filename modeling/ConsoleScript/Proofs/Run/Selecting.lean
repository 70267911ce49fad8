-- SUMMARY: Which of its cases a switch runs, and when it runs its default or nothing.
import ConsoleScript.Proofs.Run.Rehearsing
import ConsoleScript.Proofs.Run.Vigils

/-!
# Selecting a case

A switch keeps a vigil for the patterns of its cases. The last look decides alone what it
does then (`selected`): it runs the body of one case, or its default, or nothing, whatever
running a body does (`run_switch_of_lastLook`). Three orders meet in that: of the looks the
first that shows any pattern, of its rows the lowest, and of the patterns in that row the
one whose case comes first (`switch_runs_chosen_case`).
-/

namespace ConsoleScript.Runner

variable {σ : Type} {r : Runner σ} {fuel n : Nat} {options : SwitchOptions}
  {cases : List (Case Stmt)} {otherwise : Option (List Stmt)} {patterns : List String}
  {scope : Scope} {s : Session σ}

/-- The vigil of a switch that begins in a session. -/
def vigilOf (r : Runner σ) (options : SwitchOptions) (s : Session σ) : Vigil :=
  ⟨options.timeout.getD r.settings.switchTimeout, options.poll.getD r.settings.poll,
    r.machine.clock.elapsed s.world⟩

/-- The pattern that a look shows, by its index. -/
def patternSeen (patterns : List String) (screen : Option Screen) : Option Nat :=
  (screen.bind (Screen.selectCase? patterns)).map (·.case)

/-- What a switch runs after it has seen a pattern, or none. -/
def selected (cases : List (Case Stmt)) (otherwise : Option (List Stmt)) (seen : Option Nat) :
    Option (List Stmt) :=
  match seen.bind (cases[·]?) with
  | some c => some c.body
  | none => otherwise

theorem patternSeen_of_not_offers {screen : Option Screen}
    (h : ∀ shown, screen = some shown → ¬shown.Offers patterns) :
    patternSeen patterns screen = none := by
  cases screen with
  | none => rfl
  | some shown =>
    refine Option.map_eq_none_iff.mpr (Option.not_isSome_iff_eq_none.mp fun hsome => ?_)
    exact h shown rfl (Screen.selectCase?_isSome_iff.mp hsome)

/-- If the screen offers some pattern, the case of the one that is chosen is selected. -/
theorem selected_of_offers {screen : Screen} (hlength : patterns.length = cases.length)
    (h : screen.Offers patterns) :
    ∃ hit c, Screen.Chosen patterns screen hit ∧ cases[hit.case]? = some c ∧
      selected cases otherwise (patternSeen patterns (some screen)) = some c.body := by
  obtain ⟨hit, hhit⟩ := Option.isSome_iff_exists.mp (Screen.selectCase?_isSome_iff.mpr h)
  have hchosen := Screen.chosen_of_selectCase? hhit
  obtain ⟨row, pattern, -, hpattern, -⟩ := hchosen.shown
  have hlt : hit.case < cases.length := by
    rw [← hlength]
    exact (List.getElem?_eq_some_iff.mp hpattern).1
  have hcase : cases[hit.case]? = some cases[hit.case] := List.getElem?_eq_getElem hlt
  have hseen : patternSeen patterns (some screen) = some hit.case := congrArg _ hhit
  refine ⟨hit, cases[hit.case], hchosen, hcase, ?_⟩
  rw [selected, hseen, Option.bind_some, hcase]

section

variable (hlive : r.machine.isDryRun = false)
  (hpatterns : s.scope.expandAll (r.machine.clock.seconds s.world) (cases.map (·.pattern)) =
    (patterns, scope))
include hlive hpatterns

/-- A switch looks for its patterns, and then runs what is selected. -/
theorem run_switch (body : Body σ) :
    (r.switch fuel body options cases otherwise).run s =
      (r.pollCases patterns (r.vigilOf options s).timeout (r.vigilOf options s).poll
        (r.vigilOf options s).start fuel >>= fun seen =>
          match selected cases otherwise seen with
          | some ss => once body ss
          | none => return none).run { s with scope } := by
  have hselects : ∀ seen, (match seen.bind (cases[·]?) with
      | some c => once body c.body
      | none =>
        match otherwise with
        | some ss => once body ss
        | none => return none) =
      match selected cases otherwise seen with
      | some ss => once body ss
      | none => (return none : Run σ (Option Signal)) := by
    intro seen
    unfold selected
    cases seen.bind (cases[·]?) <;> rfl
  unfold switch
  rw [run_expandAll_bind hpatterns]
  simp only [hlive, Bool.false_eq_true, ↓reduceIte]
  rw [Run.run_bind_ok run_clockTime]
  exact congrArg (fun next => (r.pollCases patterns (r.vigilOf options s).timeout
    (r.vigilOf options s).poll (r.vigilOf options s).start fuel >>= next).run { s with scope })
    (funext hselects)

variable (htimeout : r.settings.timeout = none)
include htimeout

theorem run_switch_of_lastLook
    (hlast : r.LastLook (r.vigilOf options s) (·.Offers patterns) s.world n) (hn : n < fuel)
    (body : Body σ) :
    (r.switch fuel body options cases otherwise).run s =
      match selected cases otherwise
        (patternSeen patterns (r.looks (r.vigilOf options s) s.world n).screen) with
      | some ss => (once body ss).run (r.afterLook (r.vigilOf options s) { s with scope } n)
      | none => some (.ok none, r.afterLook (r.vigilOf options s) { s with scope } n) := by
  have hpolls := (pollCases_keeps_vigil htimeout patterns (r.vigilOf options s)).run
    (s := { s with scope }) hlast fuel
  rw [if_pos hn] at hpolls
  rw [run_switch hlive hpatterns body, Run.run_bind_ok hpolls]
  change (match selected cases otherwise (patternSeen patterns _) with
    | some ss => _
    | none => _ : Run σ (Option Signal)).run _ = _
  cases selected cases otherwise
    (patternSeen patterns (r.looks (r.vigilOf options s) s.world n).screen) <;> rfl

theorem exists_lastLook_of_switch {body : Body σ} {out : Except RunError (Option Signal)}
    {t : Session σ} (hrun : (r.switch fuel body options cases otherwise).run s = some (out, t)) :
    ∃ n < fuel, r.LastLook (r.vigilOf options s) (·.Offers patterns) s.world n := by
  rw [run_switch hlive hpatterns body, Run.run_bind] at hrun
  obtain ⟨⟨out', t'⟩, hpolls, -⟩ := Option.bind_eq_some_iff.mp hrun
  exact (pollCases_keeps_vigil htimeout patterns (r.vigilOf options s)).exists_lastLook
    (s := { s with scope }) hpolls

end

/-- A switch that ends, in a run without a deadline that is no dry run, has taken its last
    look and then runs one body or none, whatever running a body does. If that look shows a
    pattern, no look before did, and the body is that of the case that is chosen on its
    screen: the first one in the lowest row that contains a pattern. Otherwise no look has
    shown any pattern, the last one was over when the time was, and it is the default, or
    nothing if there is none: then the switch succeeds. -/
theorem switch_runs_chosen_case {body : Body σ} {out : Except RunError (Option Signal)}
    {u : Session σ} (hlive : r.machine.isDryRun = false) (htimeout : r.settings.timeout = none)
    (hpatterns : s.scope.expandAll (r.machine.clock.seconds s.world) (cases.map (·.pattern)) =
      (patterns, scope))
    (hrun : (r.switch fuel body options cases otherwise).run s = some (out, u)) :
    let v : Vigil := ⟨options.timeout.getD r.settings.switchTimeout,
      options.poll.getD r.settings.poll, r.machine.clock.elapsed s.world⟩
    let look := r.looks v s.world
    ∃ n chosen, r.LastLook v (·.Offers patterns) s.world n ∧
      (∀ body' : Body σ, (r.switch fuel body' options cases otherwise).run s =
        match chosen with
        | some ss => (once body' ss).run (r.afterLook v { s with scope } n)
        | none => some (.ok none, r.afterLook v { s with scope } n)) ∧
      ((∃ screen hit c, (look n).screen = some screen ∧ screen.Offers patterns ∧
          Screen.Chosen patterns screen hit ∧ cases[hit.case]? = some c ∧ chosen = some c.body) ∨
        (∀ m ≤ n, ¬(look m).Finds (·.Offers patterns)) ∧
          v.timeout ≤ r.time v.start (look n).after ∧ chosen = otherwise) := by
  intro v look
  obtain ⟨n, hn, hlast⟩ := exists_lastLook_of_switch hlive hpatterns htimeout hrun
  have hlength : patterns.length = cases.length := by
    have hexpanded := s.scope.length_expandAll (r.machine.clock.seconds s.world)
      (cases.map (·.pattern))
    rwa [hpatterns, List.length_map] at hexpanded
  refine ⟨n, _, hlast, run_switch_of_lastLook hlive hpatterns htimeout hlast hn, ?_⟩
  by_cases hfinds : (look n).Finds (·.Offers patterns)
  · obtain ⟨screen, hscreen, hoffers⟩ := hfinds
    obtain ⟨hit, c, hchosen, hcase, hselected⟩ := selected_of_offers hlength hoffers
    refine .inl ⟨screen, hit, c, hscreen, hoffers, hchosen, hcase, ?_⟩
    rw [← hselected, ← hscreen]
    rfl
  · refine .inr ⟨?_, hlast.ends.resolve_left hfinds, ?_⟩
    · intro m hm
      rcases Nat.lt_or_eq_of_le hm with hlt | rfl
      · exact hlast.misses m hlt
      · exact hfinds
    · have hnone := patternSeen_of_not_offers fun shown hshown hoffers =>
        hfinds ⟨shown, hshown, hoffers⟩
      exact congrArg (selected cases otherwise) hnone

/-- The first look fails. The second one shows all patterns, and of those in its lowest row
    the one that comes first is that of the second case. -/
theorem switch_runs_chosen_case_lowest :
    let r := Runner.slides
    let s : Session Slides := .start .empty
      ⟨0, [(none, 300), (some ["error", "please relogin"], 0), (some ["error"], 0)]⟩
    let first : List Stmt := [.plain ⟨3, "", "a", "", .text, none⟩]
    let second : List Stmt := [.plain ⟨5, "", "b", "", .text, none⟩]
    let third : List Stmt := [.plain ⟨7, "", "c", "", .text, none⟩]
    let cases : List (Case Stmt) :=
      [⟨"error", 2, 3, first⟩, ⟨"login", 4, 5, second⟩, ⟨"relogin", 6, 7, third⟩]
    r.machine.isDryRun = false ∧ r.settings.timeout = none ∧
      ∃ t, ∀ body : Body Slides, (r.switch 5 body ⟨none, none⟩ cases (some [])).run s =
        (once body second).run t := by
  intro r s first second third cases
  refine ⟨rfl, rfl, ?_⟩
  have hends : ((r.switch 5 (fun _ => pure none) ⟨none, none⟩ cases (some [])).run s).isSome
      = true := by
    decide +kernel
  obtain ⟨⟨out, u⟩, hrun⟩ := Option.isSome_iff_exists.mp hends
  have hpatterns : s.scope.expandAll (r.machine.clock.seconds s.world) (cases.map (·.pattern)) =
      (["error", "login", "relogin"], s.scope) := by decide +kernel
  obtain ⟨n, chosen, hlast, hswitch, hchosen⟩ := switch_runs_chosen_case rfl rfl hpatterns hrun
  have hfinds :
      (r.looks ⟨30000, 500, 0⟩ s.world 1).Finds (·.Offers ["error", "login", "relogin"]) :=
    ⟨_, rfl, "error", by decide, "error", by decide, by decide⟩
  obtain rfl : n = 1 := by
    refine hlast.eq ⟨?_, by decide, .inl hfinds⟩
    intro m hm
    obtain rfl := Nat.lt_one_iff.mp hm
    exact Look.not_finds_of_fails rfl
  rcases hchosen with ⟨screen, hit, c, hscreen, -, hhit, hcase, rfl⟩ | ⟨hmisses, -⟩
  · cases hscreen
    have hselects : Screen.selectCase? ["error", "login", "relogin"] ["error", "please relogin"] =
        some ⟨1, 1⟩ := by
      decide +kernel
    rw [Screen.selectCase?_eq_some_iff.mpr hhit] at hselects
    cases hselects
    cases hcase
    exact ⟨_, hswitch⟩
  · exact absurd hfinds (hmisses 1 (Nat.le_refl 1))

end ConsoleScript.Runner
