-- SUMMARY: Validation reports a break as idle exactly if every run without a debugger ignores it.
import ConsoleScript.Proofs.Run.Breaks
import ConsoleScript.Proofs.Run.Checked
import ConsoleScript.Proofs.Run.Deadline
import ConsoleScript.Proofs.Script.Flags

/-!
# Idle breaks

Validation reads off the text whether a loop or a switch is around a break, and a run
counts the loops and switches that it is in, from none again in each call. At every point
of a run the two agree (`Reaches.flagged`): the flag of each statement that comes next
tells whether the count is positive. So the breaks that are reported are those that a run
ignores (`idle_breaks_exact`).
-/

namespace ConsoleScript

/-! ## Flags and surroundings -/

/-- Whether a loop or a switch runs, which a break would end. -/
def Surroundings.isBreakable (a : Surroundings) : Bool := 0 < a.loopDepth

theorem Surroundings.isBreakable_eq_false_iff {a : Surroundings} :
    a.isBreakable = false ↔ a.loopDepth = 0 := by
  simp [isBreakable]

/-- A statement hands down the flag that tells of the surroundings that it makes. -/
theorem Stmt.Surrounds.flagInside_eq {scope : Scope} {a b : Surroundings} {x : Stmt}
    {ss : List Stmt} (h : x.Surrounds scope a b) (hss : ss ∈ x.bodies) :
    x.flagInside a.isBreakable = b.isBreakable := by
  cases h with
  | loop line l body =>
    simp [flagInside, directive, Directive.isBreakable, Surroundings.isBreakable,
      Surroundings.inLoop]
  | switch line options cases otherwise =>
    simp [flagInside, directive, Directive.isBreakable, Surroundings.isBreakable,
      Surroundings.inLoop]
  | branch line c yes no => simp [flagInside, directive, Directive.isBreakable]
  | call line name args now => cases hss
  | file line path key dir hnew => cases hss

namespace Runner

variable {σ : Type} {r : Runner σ} {s t u : Session σ} {script : Script}

/-- What a statement runs has the right flags if the statement has. -/
theorem Enters.flagged {fuel : Nat} {x : Stmt} {ss : List Stmt} (h : r.Enters fuel x s ss t)
    (hinclude : ∀ x ∈ script.nodes, x.IncludesNothing) (hnodes : ∀ y ∈ x.nodes, y ∈ script.nodes)
    (hfunctions : s.functions = script.functions)
    (hx : (x, s.surroundings.isBreakable) ∈ script.flagged) :
    ∀ y ∈ ss, (y, t.surroundings.isBreakable) ∈ script.flagged := by
  have hopens : r.Opens (· = script.functions) s.surroundings x t.surroundings ss :=
    h.opens (g := Regime.confined script hinclude) hnodes hfunctions
  have hinside : ss ∈ x.bodies → ∀ y ∈ ss, (y, t.surroundings.isBreakable) ∈ script.flagged := by
    intro hss y hy
    rw [← h.surrounds.flagInside_eq hss]
    exact Script.mem_flagged_of_body hx hss hy
  generalize t.surroundings = b at hopens hinside ⊢
  cases hopens with
  | own hss => exact hinside hss
  | inLoop hss => exact hinside hss
  | call hknows hf hnew =>
    -- a call begins outside of loops, as the flags of a function do
    intro y hy
    refine Script.mem_flagged_of_function ?_ hy
    rw [← hknows]
    exact List.mem_of_find?_eq_some hf
  | file hnew hknows hread hparse =>
    exact absurd rfl (hinclude _ (hnodes _ (Stmt.mem_nodes_self _)) _ _)

/-- At every point of a run the flags of the statements that come next tell whether a loop
    or a switch runs. -/
theorem Reaches.flagged {fuel : Nat} {p : Point σ}
    (h : r.Reaches (r.beginning fuel script s) p) (hdepth : s.loopDepth = 0)
    (hinclude : ∀ x ∈ script.nodes, x.IncludesNothing) :
    ∀ x ∈ p.next, (x, p.session.surroundings.isBreakable) ∈ script.flagged := by
  induction h with
  | start =>
    intro x hx
    have hflag : (r.beginning fuel script s).session.surroundings.isBreakable = false :=
      Surroundings.isBreakable_eq_false_iff.mpr hdepth
    rw [hflag]
    exact List.mem_append_left _ (Stmt.mem_flaggedAll_of_mem false hx)
  | next _ hrun ih =>
    intro x hx
    rw [stmt_surroundings hrun]
    exact ih x (List.mem_cons_of_mem _ hx)
  | last _ _ _ _ => simp
  | inside hbefore henter ih =>
    obtain ⟨hnodes, hfunctions⟩ := hbefore.confined hinclude
    refine henter.flagged hinclude (fun y hy => hnodes y ?_) hfunctions (ih _ List.mem_cons_self)
    simp [hy]

/-! ## Breaks -/

theorem exists_run_isDebugging (t : Session σ) :
    ∃ debugging, r.isDebugging.run t = some (.ok debugging, t) ∧
      (debugging = false ↔ r.Unwatched t.world) := by
  unfold isDebugging
  cases hd : r.debugger with
  | none => exact ⟨false, rfl, by simp [Unwatched, hd]⟩
  | some d => exact ⟨d.isEnabled t.world, rfl, by simp [Unwatched, hd]⟩

/-- What a break does that is dispatched. -/
theorem run_break (n : Nat) (body : Body σ) {line : Line}
    (h : r.Dispatches (.action line .doBreak) u t) :
    ∃ debugging, (debugging = false ↔ r.Unwatched t.world) ∧
      (r.stmt n body (.action line .doBreak)).run u =
        some (.ok (if 0 < t.loopDepth ∧ ¬debugging then some .doBreak else none),
          { t with linesExecuted := t.linesExecuted + 1 }) := by
  obtain ⟨debugging, hrun, hwatch⟩ := exists_run_isDebugging (r := r) t
  refine ⟨debugging, hwatch, ?_⟩
  rw [run_stmt (x := .action line .doBreak) h.1 h.2]
  have hdispatch : (r.dispatch n body (.action line .doBreak)).run t =
      some (.ok (if 0 < t.loopDepth ∧ ¬debugging then some .doBreak else none), t) := by
    refine (Run.run_bind_ok hrun _).trans ?_
    rw [Run.run_get_bind]
    split <;> rfl
  rw [hdispatch, Option.map_some]

/-- A break that comes next is reported exactly if no loop or switch runs. -/
theorem Reaches.idleBreak_iff {fuel : Nat} {p : Point σ} {line : Line} {scope : Scope}
    (h : r.Reaches (r.beginning fuel script s) p) (hdepth : s.loopDepth = 0)
    (hnumbers : (script.nodes.map (·.line.number)).Nodup)
    (hinclude : ∀ x ∈ script.nodes, x.IncludesNothing)
    (hp : .action line .doBreak ∈ p.next) :
    ⟨line.number, .idleBreak⟩ ∈ script.validate scope ↔ p.session.loopDepth = 0 := by
  have hflag := h.flagged hdepth hinclude _ hp
  have hzero : p.session.surroundings.isBreakable = false ↔ p.session.loopDepth = 0 :=
    Surroundings.isBreakable_eq_false_iff
  rw [Script.idleBreak_mem_validate_iff, ← hzero]
  constructor
  · rintro ⟨line', hidle, hnumber⟩
    exact Script.flagged_unique hnumbers hflag hidle hnumber.symm
  · intro hfalse
    rw [hfalse] at hflag
    exact ⟨line, hflag, rfl⟩

/-- In a run of a script that was parsed and includes no file, validation reports a break
    that is dispatched exactly if no loop or switch runs around it. A break that is reported
    does nothing but count as a line. Any other gives its signal, unless a debugger watches.
    The run leaves no loop behind, so that the same holds of the next one. -/
theorem idle_breaks_exact {now : Int} {scope scope' : Scope} {text : String}
    (hparse : Script.parse now scope text = (.ok script, scope'))
    (hinclude : ∀ x ∈ script.nodes, x.IncludesNothing) (known : Scope) {σ : Type} (r : Runner σ)
    {fuel : Nat} {s : Session σ} (hdepth : s.loopDepth = 0) :
    (∀ {around n line rest} {u t : Session σ},
      r.Reaches (r.beginning fuel script s) ⟨around, n + 1, .action line .doBreak :: rest, u⟩ →
      r.Dispatches (.action line .doBreak) u t →
      (⟨line.number, .idleBreak⟩ ∈ script.validate known ↔ ¬0 < t.loopDepth) ∧
      (⟨line.number, .idleBreak⟩ ∈ script.validate known →
        (r.stmt n (r.exec n) (.action line .doBreak)).run u =
          some (.ok none, { t with linesExecuted := t.linesExecuted + 1 })) ∧
      (⟨line.number, .idleBreak⟩ ∉ script.validate known →
        (∀ d, r.debugger = some d → d.isEnabled t.world = false) →
        (r.stmt n (r.exec n) (.action line .doBreak)).run u =
          some (.ok (some .doBreak), { t with linesExecuted := t.linesExecuted + 1 }))) ∧
    ∀ report t, r.execute fuel script s = some (report, t) → t.loopDepth = 0 := by
  have hnumbers := Script.nodup_numbers_of_parse hparse
  constructor
  · intro around n line rest u t hreaches hdispatch
    have hkept : t.loopDepth = u.loopDepth :=
      congrArg (fun v => v.2.loopDepth) ((approach_keeps _).2 _ t hdispatch.2)
    have hiff : ⟨line.number, .idleBreak⟩ ∈ script.validate known ↔ ¬0 < t.loopDepth := by
      rw [hkept, Nat.not_lt, Nat.le_zero]
      exact hreaches.idleBreak_iff hdepth hnumbers hinclude List.mem_cons_self
    obtain ⟨debugging, hwatch, hrun⟩ := run_break n (r.exec n) hdispatch
    refine ⟨hiff, fun hidle => ?_, fun hlive hunwatched => ?_⟩
    · rw [hrun, if_neg fun h => hiff.mp hidle h.1]
    · have hin : 0 < t.loopDepth := Classical.not_not.mp fun hout => hlive (hiff.mpr hout)
      rw [hrun, if_pos ⟨hin, by simp [hwatch.mpr hunwatched]⟩]
  · intro report t hrun
    exact (congrArg Surroundings.loopDepth (execute_surroundings hrun)).trans hdepth

/-- The break of a function that is called inside of a switch, and one of the switch
    itself. -/
def breaksTwice : Script where
  body := [.switch (directiveLine 4 "<switch timeout=0s>") ⟨some 0, none⟩ []
    (some [.action (directiveLine 6 "<call f>") (.call "f" []),
      .action (directiveLine 7 "<break>") .doBreak])]
  functions := [⟨"f", 1, 3, [.action (directiveLine 2 "<break>") .doBreak]⟩]
  summary := ⟨8, 0, 8, 0, 0, 0, [], ["f"]⟩
where
  directiveLine (number : Nat) (text : String) : Line :=
    ⟨number, text, text, text, .directive, none⟩

theorem parse_breaksTwice :
    Script.parse 0 .empty ("<function f>\n<break>\n<end-function>\n" ++
      "<switch timeout=0s>\n<default>\n<call f>\n<break>\n<end-switch>") =
        (.ok breaksTwice, .empty) := by
  with_unfolding_all rfl

theorem breaksTwice_reaches :
    let begin := keyLogger.beginning 4 breaksTwice (.start .empty [])
    (∃ around line u t, line.number = 2 ∧ around.length = 2 ∧
      keyLogger.Reaches begin ⟨around, 2, [.action line .doBreak], u⟩ ∧
      keyLogger.Dispatches (.action line .doBreak) u t) ∧
    ∃ around line u t, line.number = 7 ∧ around.length = 1 ∧
      keyLogger.Reaches begin ⟨around, 3, [.action line .doBreak], u⟩ ∧
      keyLogger.Dispatches (.action line .doBreak) u t := by
  intro begin
  have hstart : keyLogger.Reaches begin begin := .start
  have hswitch := Reaches.inside hstart (Enters.of_once rfl rfl fun _ => rfl)
  have hcall := Reaches.inside hswitch (call_enters rfl rfl rfl rfl rfl)
  refine ⟨⟨_, _, _, _, ?_, ?_, hcall, rfl, rfl⟩, _, _, _, _, ?_, ?_, .next hswitch rfl, rfl, rfl⟩
  all_goals rfl

/-- The first break is reported and ignored, although a switch is around the call. The
    second one is not reported and ends the switch. -/
theorem idle_breaks_exact_twice :
    let text := "<function f>\n<break>\n<end-function>\n" ++
      "<switch timeout=0s>\n<default>\n<call f>\n<break>\n<end-switch>"
    let begin := keyLogger.beginning 4 breaksTwice (.start .empty [])
    Script.parse 0 .empty text = (.ok breaksTwice, .empty) ∧
    breaksTwice.validate .empty = [⟨2, .idleBreak⟩] ∧
    (∃ around line u v, line.number = 2 ∧ around.length = 2 ∧
      keyLogger.Reaches begin ⟨around, 2, [.action line .doBreak], u⟩ ∧
      (keyLogger.stmt 1 (keyLogger.exec 1) (.action line .doBreak)).run u = some (.ok none, v)) ∧
    ∃ around line u v, line.number = 7 ∧ around.length = 1 ∧
      keyLogger.Reaches begin ⟨around, 3, [.action line .doBreak], u⟩ ∧
      (keyLogger.stmt 2 (keyLogger.exec 2) (.action line .doBreak)).run u =
        some (.ok (some .doBreak), v) := by
  intro text begin
  have hparse : Script.parse 0 .empty text = (.ok breaksTwice, .empty) := parse_breaksTwice
  have hinclude : ∀ x ∈ breaksTwice.nodes, x.IncludesNothing := by
    intro x hx line path heq
    subst heq
    simp [breaksTwice, Script.nodes, Script.functionsByName, sortBy, insertBy, Stmt.nodes,
      Stmt.nodesCases] at hx
  have hissues : breaksTwice.validate .empty = [⟨2, .idleBreak⟩] := by
    decide +kernel
  have hdepth : (Session.start .empty [] : Session (List String)).loopDepth = 0 := rfl
  have hunwatched : ∀ w, keyLogger.Unwatched w := by
    intro w d hd
    cases hd
  obtain ⟨⟨around, line, u, t, hline, haround, hidle, hdispatch⟩,
    around', line', u', t', hline', haround', hlive, hdispatch'⟩ := breaksTwice_reaches
  have hreported : ⟨line.number, .idleBreak⟩ ∈ breaksTwice.validate .empty := by
    simp [hissues, hline]
  have hsilent : ⟨line'.number, .idleBreak⟩ ∉ breaksTwice.validate .empty := by
    simp [hissues, hline']
  have hignored := ((idle_breaks_exact hparse hinclude .empty keyLogger hdepth).1
    hidle hdispatch).2.1 hreported
  have hgiven := ((idle_breaks_exact hparse hinclude .empty keyLogger hdepth).1
    hlive hdispatch').2.2 hsilent (hunwatched _)
  exact ⟨hparse, hissues, ⟨around, line, u, _, hline, haround, hidle, hignored⟩,
    around', line', u', _, hline', haround', hlive, hgiven⟩

end Runner

end ConsoleScript
