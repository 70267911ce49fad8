-- SUMMARY: The single steps of a run do as a conduct expects.
import ConsoleScript.Proofs.Run.Conduct

/-!
# Single steps of a conduct

Each step is taken in two runs at once, in a runner and in the one that waits and
looks in another way. A look at the screen asks for `Ready` and gives `Rest`; a
deadline that is not over, and a pause that is long enough, give `Ready` back.
-/

namespace ConsoleScript

namespace Conduct

variable {σ α : Type} {C : Conduct σ} {r : Runner σ} {wait' : Duration → σ → σ}
  {capture' : Operation σ Screen} {a : Surroundings} {P : Duration → σ → Prop} {s : Session σ}

namespace Governs

variable (hC : C.Governs r wait' capture')
include hC

theorem at_rest (hs : C.At a C.Ready s) : C.At a C.Rest s := hs.mono hC.rest

omit hC in
/-- Dry runs and others may do different things. -/
theorem cases_dry {x x' y y' : Run σ α} (hdry : r.machine.isDryRun = true → C.Holds a P x y s)
    (hlive : r.machine.isDryRun = false → C.Holds a P x' y' s) :
    C.Holds a P (if r.machine.isDryRun then x else x')
      (if (r.swapped wait' capture').machine.isDryRun then y else y') s := by
  rw [Runner.swapped_isDryRun]
  split
  · next h => exact hdry h
  · next h => exact hlive (by simpa using h)

theorem operate {op : Operation σ Unit} (hop : r.machine.IsDeed op) (hs : C.At a C.Ready s) :
    C.Holds a C.Ready (Runner.operate op) (Runner.operate op) s := by
  have hready := hC.acts hop hs.2.2
  refine .get ?_
  rcases hout : op s.world with ⟨out, w⟩
  rw [hout] at hready
  cases out with
  | ok v => exact .of_run rfl rfl ⟨hs.1, hs.2.1, hready⟩
  | error e =>
    refine .of_run rfl rfl ⟨⟨hs.1, hs.2.1, hC.rest hready⟩, ?_⟩
    exact hC.outside (.machine e) (by simp)

theorem narrate (text : String) (hdry : r.machine.isDryRun = true) (hs : C.At a C.Rest s) :
    C.Holds a C.Rest (r.narrate text) ((r.swapped wait' capture').narrate text) s :=
  .of_run rfl rfl ⟨hs.1, hs.2.1, hC.tells text hdry hs.2.2⟩

omit hC in
theorem expand (text : String) (hs : C.At a P s) :
    C.Holds a P (r.expand text) ((r.swapped wait' capture').expand text) s :=
  .rescope rfl rfl (Scope.expand_readOnly _ _ text) hs

omit hC in
theorem expandAll (texts : List String) (hs : C.At a P s) :
    C.Holds a P (r.expandAll texts) ((r.swapped wait' capture').expandAll texts) s :=
  .rescope rfl rfl (Scope.expandAll_readOnly _ _ texts) hs

omit hC in
theorem bind (name value : String) (hs : C.At a P s) :
    C.Holds a P (Runner.bind name value) (Runner.bind name value) s :=
  .rescope rfl rfl (Scope.set_readOnly _ name value) hs

omit hC in
theorem assign (line : String) (hs : C.At a P s) :
    C.Holds a P (r.assign line) ((r.swapped wait' capture').assign line) s := by
  change C.Holds a P (r.assign line) (r.assign line) s
  refine .get ?_
  split
  · exact .pure hs ()
  · next name value scope hread =>
    refine .rescope rfl rfl ?_ hs
    exact (Scope.set_readOnly scope name value).trans (Scope.readAssignment?_readOnly hread)

omit hC in
theorem clockTime (hs : C.At a P s) :
    C.Holds a P r.clockTime (r.swapped wait' capture').clockTime s :=
  .of_run rfl rfl hs

omit hC in
theorem elapsedSince (start : Duration) (hs : C.At a P s) :
    C.Holds a P (r.elapsedSince start) ((r.swapped wait' capture').elapsedSince start) s :=
  .of_run rfl rfl hs

omit hC in
theorem isDebugging (hs : C.At a P s) :
    C.Holds a P r.isDebugging (r.swapped wait' capture').isDebugging s := by
  unfold Runner.isDebugging
  rw [Runner.swapped_debugger]
  cases r.debugger with
  | none => exact .pure hs false
  | some d => exact .of_run rfl rfl hs

/-- Where the deadline is not over the screen may be looked at. -/
theorem checkDeadline (hs : C.At a C.Rest s) :
    C.Holds a C.Ready r.checkDeadline (r.swapped wait' capture').checkDeadline s := by
  refine .of_run Runner.run_checkDeadline Runner.run_checkDeadline ?_
  split
  · next hin => exact ⟨hs.1, hs.2.1, hC.inTime hs.2.2 hin⟩
  · next hover => exact ⟨hs, hC.late hs.2.2 hover⟩

/-- Sleeping, given what holds after a pause that was granted as a whole. -/
theorem sleep_of {d : Duration} (hs : C.At a C.Rest s)
    (hgranted : r.granted s.started s.world d = d → P s.started (r.machine.wait d s.world)) :
    C.Holds a P (r.sleep d) ((r.swapped wait' capture').sleep d) s := by
  obtain ⟨hsame, hrest⟩ := hC.waits d hs.2.2
  have hrun : ((r.swapped wait' capture').sleep d).run s = (r.sleep d).run s := by
    rw [Runner.run_sleep, Runner.run_sleep]
    change _ = some (if _ then _ else _, { s with world := _ })
    rw [← hsame]
    rfl
  refine .of_run (Runner.run_sleep d) (hrun.trans (Runner.run_sleep d)) ?_
  dsimp only
  split
  · next hcut => exact ⟨⟨hs.1, hs.2.1, hrest⟩, hC.cut hs.2.2 hcut⟩
  · next hall =>
    have heq : r.granted s.started s.world d = d :=
      Nat.le_antisymm (Runner.granted_le _ _ _) (Nat.le_of_not_lt hall)
    refine ⟨hs.1, hs.2.1, ?_⟩
    rw [heq]
    exact hgranted heq

theorem sleep (d : Duration) (hs : C.At a C.Rest s) :
    C.Holds a C.Rest (r.sleep d) ((r.swapped wait' capture').sleep d) s := by
  refine hC.sleep_of hs fun heq => ?_
  have hrest := (hC.waits d hs.2.2).2
  rwa [heq] at hrest

theorem sleep_ready (d : Duration) (hs : C.At a C.Ready s) :
    C.Holds a C.Ready (r.sleep d) ((r.swapped wait' capture').sleep d) s := by
  refine hC.sleep_of (hC.at_rest hs) fun heq => ?_
  have hready := hC.sleeps d hs.2.2
  rwa [heq] at hready

/-- After a pause that is long enough the screen may be looked at again. -/
theorem pause {d : Duration} (hd : C.Paces d) (hs : C.At a C.Rest s) :
    C.Holds a C.Ready (r.sleep d) ((r.swapped wait' capture').sleep d) s :=
  hC.sleep_of hs fun heq => hC.pauses hs.2.2 hd heq

theorem capture (hlive : r.machine.isDryRun = false) (hs : C.At a C.Ready s) :
    C.Holds a C.Rest r.capture (r.swapped wait' capture').capture s := by
  obtain ⟨hsame, hrest⟩ := hC.looks hlive hs.2.2
  have hrun : (r.swapped wait' capture').capture.run s = r.capture.run s := by
    rw [Runner.run_capture, Runner.run_capture, ← hsame]
    rfl
  exact .of_run Runner.run_capture (hrun.trans Runner.run_capture) ⟨hs.1, hs.2.1, hrest⟩

theorem probe (text : String) (hlive : r.machine.isDryRun = false) (hs : C.At a C.Ready s) :
    C.Holds a C.Rest (r.probe text) ((r.swapped wait' capture').probe text) s := by
  refine (hC.capture hlive hs).bind fun screen t ht => ?_
  cases screen with
  | none => exact .pure ht none
  | some screen => exact .of_run rfl rfl ht

theorem pollFor (text : String) (timeout start : Duration) (fuel : Nat)
    (hlive : r.machine.isDryRun = false) (hs : C.At a C.Ready s) :
    C.Holds a C.Rest (r.pollFor text timeout start fuel)
      ((r.swapped wait' capture').pollFor text timeout start fuel) s := by
  induction fuel generalizing s with
  | zero => exact .outOfFuel fun htotal => by simp [hC.dry htotal] at hlive
  | succ fuel ih =>
    refine (hC.probe text hlive hs).bind fun found t ht => ?_
    split
    · exact .pure ht true
    · refine (elapsedSince start ht).bind fun elapsed t ht => ?_
      split
      · exact .pure ht false
      · refine (hC.checkDeadline ht).bind fun _ t ht => ?_
        exact (hC.sleep_ready _ ht).bind fun _ t ht => ih ht

theorem watch (fuel : Nat) {line : Line} {text : String} {limit : Option Duration}
    (shown : String) (timeout : Duration) (hlive : r.machine.isDryRun = false)
    (hx : C.Allows (.action line (.watch text limit))) (hs : C.At a C.Ready s) :
    C.Holds a C.Rest (r.watch fuel shown timeout)
      ((r.swapped wait' capture').watch fuel shown timeout) s := by
  refine (clockTime hs).bind fun start t ht => ?_
  refine (hC.pollFor shown timeout start fuel hlive ht).bind fun found t ht => ?_
  cases found with
  | true => exact .pure ht ()
  | false =>
    refine (elapsedSince start ht).bind fun elapsed t ht => .throw ht ?_
    exact hC.raised ht.2.1 hx (.watch ..)

theorem probeCases (patterns : List String) (hlive : r.machine.isDryRun = false)
    (hs : C.At a C.Ready s) :
    C.Holds a C.Rest (r.probeCases patterns) ((r.swapped wait' capture').probeCases patterns) s := by
  refine (hC.capture hlive hs).bind fun screen t ht => ?_
  cases screen with
  | none => exact .pure ht none
  | some screen => exact .of_run rfl rfl ht

theorem pollCases (patterns : List String) (timeout poll start : Duration) (fuel : Nat)
    (hpoll : ∀ left, 0 < left → C.Paces (min poll left)) (hlive : r.machine.isDryRun = false)
    (hs : C.At a C.Ready s) :
    C.Holds a C.Rest (r.pollCases patterns timeout poll start fuel)
      ((r.swapped wait' capture').pollCases patterns timeout poll start fuel) s := by
  induction fuel generalizing s with
  | zero => exact .outOfFuel fun htotal => by simp [hC.dry htotal] at hlive
  | succ fuel ih =>
    refine (hC.probeCases patterns hlive hs).bind fun hit t ht => ?_
    cases hit with
    | some hit => exact .pure ht _
    | none =>
      refine (elapsedSince start ht).bind fun elapsed t ht => ?_
      split
      · exact .pure ht none
      · next hleft =>
        have hpaces := hpoll (timeout - elapsed) (Nat.sub_pos_of_lt (Nat.lt_of_not_le hleft))
        exact (hC.pause hpaces ht).bind fun _ t ht => ih ht

theorem consult (e : Entry) (hs : C.At a C.Ready s) :
    C.Holds a C.Ready (r.consult e) ((r.swapped wait' capture').consult e) s := by
  change C.Holds a C.Ready (r.consult e) (r.consult e) s
  unfold Runner.consult
  cases hdebugger : r.debugger with
  | none => exact .pure hs ()
  | some d =>
    refine .get ?_
    dsimp only
    split
    · have ht : C.At a C.Ready { s with world := (d.decide e s.scope s.world).2 } :=
        ⟨hs.1, hs.2.1, hC.asks e s.scope hdebugger hs.2.2⟩
      refine .set ?_
      split
      · exact .throw (hC.at_rest ht) (hC.outside (.debugger _) (by simp))
      · exact .throw (hC.at_rest ht) (hC.outside .stopped (by simp))
      · exact hC.operate (.screenshot _ _) ht
      · exact .pure ht ()
    · exact .pure hs ()

end Governs

end Conduct

end ConsoleScript
