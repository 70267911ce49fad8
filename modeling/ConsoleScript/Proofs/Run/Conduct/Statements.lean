-- SUMMARY: Statements do as a conduct expects, if the lists do that they open, and so do whole runs.
import ConsoleScript.Proofs.Run.Conduct.Steps

/-!
# Statements of a conduct

For each kind of statement it is shown that it does as is expected, given that of
the lists it opens. A statement starts between two statements, in `Rest`; once
the deadline is checked it is `Ready` to act, and it leaves `Rest` behind.
-/

namespace ConsoleScript

namespace Conduct

open Runner (Body)

variable {σ α : Type} {C : Conduct σ} {r : Runner σ} {wait' : Duration → σ → σ}
  {capture' : Operation σ Screen} {a : Surroundings} {P : Duration → σ → Prop} {s : Session σ}
  {body body' : Body σ}

namespace Governs

variable (hC : C.Governs r wait' capture')
include hC

/-! ## Lists inside a statement -/

omit hC in
theorem breakable {ss : List Stmt} (h : C.BodyHolds a.inLoop ss body body')
    (hs : C.At a C.Rest s) :
    C.Holds a C.Rest (Runner.breakable body ss) (Runner.breakable body' ss) s := by
  refine Holds.framed (b := a.inLoop) (h _ ⟨congrArg Surroundings.inLoop hs.1, hs.2⟩) ?_ fun _ => rfl
  intro t ht
  refine ⟨?_, ht.2⟩
  exact congrArg (fun b : Surroundings => { b with loopDepth := b.loopDepth - 1 }) ht.1

omit hC in
theorem once {ss : List Stmt} (h : C.BodyHolds a.inLoop ss body body') (hs : C.At a C.Rest s) :
    C.Holds a C.Rest (Runner.once body ss) (Runner.once body' ss) s :=
  (breakable h hs).then_pure

theorem branch {fuel fuel' : Nat} (hfuel : r.machine.isDryRun = false → fuel = fuel')
    (c : Condition) {yes no : List Stmt} (hyes : C.BodyHolds a yes body body')
    (hno : C.BodyHolds a no body body') (hs : C.At a C.Ready s) :
    C.Holds a C.Rest (r.branch fuel body c yes no)
      ((r.swapped wait' capture').branch fuel' body' c yes no) s := by
  refine (expand c.text hs).bind fun text t ht => cases_dry (fun hdry => ?_) fun hlive => ?_
  · refine (hC.narrate _ hdry (hC.at_rest ht)).bind fun _ t ht => ?_
    refine (hyes t ht).bind fun signal t ht => ?_
    cases signal with
    | some signal => exact .pure ht _
    | none =>
      dsimp only
      split
      · exact (hC.narrate _ hdry ht).bind fun _ t ht => hno t ht
      · exact hno t ht
  · refine (clockTime ht).bind fun start t ht => ?_
    rw [hfuel hlive]
    refine (hC.pollFor text c.timeout start fuel' hlive ht).bind fun found t ht => ?_
    split
    · exact hyes t ht
    · exact hno t ht

/-! ## Loops -/

theorem retry {ss : List Stmt} (h : C.BodyHolds a.inLoop ss body body') (total left : Nat)
    (hs : C.At a C.Rest s) :
    C.Holds a C.Rest (r.retry body ss total left)
      ((r.swapped wait' capture').retry body' ss total left) s := by
  induction left generalizing s with
  | zero => exact .pure hs _
  | succ left ih =>
    refine (breakable h hs).attempt_bind ?_ (fun signal t ht => .pure ht _) ?_
    · intro e t he
      simp [(hC.fatal he).isFatal]
    · intro e t ht he
      dsimp only
      split
      · exact .throw ht he
      · next hfatal =>
        split
        · exact .throw ht (hC.exhausted total (by simpa using hfatal) he)
        · exact (hC.sleep _ ht).bind fun _ t ht => ih ht

theorem repeatTimes {ss : List Stmt} (h : C.BodyHolds a.inLoop ss body body') (total left : Nat)
    (hs : C.At a C.Rest s) :
    C.Holds a C.Rest (Runner.repeatTimes body ss total left)
      (Runner.repeatTimes body' ss total left) s := by
  induction left generalizing s with
  | zero => exact .pure hs _
  | succ left ih =>
    refine (breakable h hs).attempt_bind ?_ (fun signal t ht => ?_) ?_
    · intro e t he
      simp [(hC.fatal he).isFatal]
    · split
      · exact .pure ht _
      · exact .pure ht _
      · exact ih ht
      · next heq => cases heq
    · intro e t ht he
      dsimp only
      split
      · exact .throw ht he
      · next hfatal => exact .throw ht (hC.failed _ total (by simpa using hfatal) he)

theorem whileScreen {ss : List Stmt} (h : C.BodyHolds a.inLoop ss body body')
    (presence : Presence) (text : String) (timeout poll start : Duration) (fuel : Nat)
    (hpoll : ∀ left, 0 < left → C.Paces (min poll left))
    (hlate : ∀ elapsed, C.Fails (.whileTimeout presence text timeout elapsed))
    (hlive : r.machine.isDryRun = false) (hs : C.At a C.Ready s) :
    C.Holds a C.Rest (r.whileScreen body ss presence text timeout poll start fuel)
      ((r.swapped wait' capture').whileScreen body' ss presence text timeout poll start fuel) s := by
  induction fuel generalizing s with
  | zero => exact .outOfFuel fun htotal => by simp [hC.dry htotal] at hlive
  | succ fuel ih =>
    refine (hC.probe text hlive hs).bind fun found t ht => ?_
    split
    · exact .pure ht none
    · refine Holds.bind (P := C.Rest) ?_ fun signal t ht => ?_
      · split
        · exact breakable h ht
        · exact .pure ht none
      · cases signal with
        | some signal => exact .pure ht _
        | none =>
          refine (elapsedSince start ht).bind fun elapsed t ht => ?_
          split
          · exact .throw ht (hlate elapsed)
          · next hleft =>
            have hpaces := hpoll (timeout - elapsed) (Nat.sub_pos_of_lt (Nat.lt_of_not_le hleft))
            exact (hC.pause hpaces ht).bind fun _ t ht => ih ht

theorem loop {fuel fuel' : Nat} (hfuel : r.machine.isDryRun = false → fuel = fuel') {line : Line}
    {l : Loop} {ss : List Stmt} (hx : C.Allows (.loop line l ss))
    (h : C.BodyHolds a.inLoop ss body body') (hs : C.At a C.Ready s) :
    C.Holds a C.Rest (r.loop fuel body ss l)
      ((r.swapped wait' capture').loop fuel' body' ss l) s := by
  cases l with
  | retry attempts =>
    refine cases_dry (fun hdry => ?_) fun hlive => ?_
    · exact (hC.narrate _ hdry (hC.at_rest hs)).bind fun _ t ht => once h ht
    · exact hC.retry h attempts attempts (hC.at_rest hs)
  | repeatTimes count =>
    refine cases_dry (fun hdry => ?_) fun hlive => ?_
    · exact (hC.narrate _ hdry (hC.at_rest hs)).bind fun _ t ht => once h ht
    · exact hC.repeatTimes h count count (hC.at_rest hs)
  | whileScreen presence text timeout poll =>
    refine (expand text hs).bind fun shown t ht => cases_dry (fun hdry => ?_) fun hlive => ?_
    · exact (hC.narrate _ hdry (hC.at_rest ht)).bind fun _ t ht => once h ht
    · refine (clockTime ht).bind fun start t ht => ?_
      rw [hfuel hlive]
      refine hC.whileScreen h presence shown timeout _ start fuel' (fun left hleft => ?_)
        (fun elapsed => ?_) hlive ht
      · exact hC.loops hx hleft
      · exact hC.raised ht.2.1 hx (.whileScreen ..)

/-! ## Switches -/

theorem tellCases (cases : List (Case Stmt × String))
    (h : ∀ c ∈ cases, C.BodyHolds a.inLoop c.1.body body body')
    (hdry : r.machine.isDryRun = true) (hs : C.At a C.Rest s) :
    C.Holds a C.Rest (r.tellCases body cases)
      ((r.swapped wait' capture').tellCases body' cases) s := by
  induction cases generalizing s with
  | nil => exact .pure hs none
  | cons head rest ih =>
    obtain ⟨c, pattern⟩ := head
    obtain ⟨hhead, hrest⟩ := List.forall_mem_cons.mp h
    refine (hC.narrate _ hdry hs).bind fun _ t ht => ?_
    refine (once hhead ht).bind fun signal t ht => ?_
    cases signal with
    | some signal => exact .pure ht _
    | none => exact ih hrest ht

theorem switch {fuel fuel' : Nat} (hfuel : r.machine.isDryRun = false → fuel = fuel') {line : Line}
    {options : SwitchOptions} {cases : List (Case Stmt)} {otherwise : Option (List Stmt)}
    (hx : C.Allows (.switch line options cases otherwise))
    (hcases : ∀ c ∈ cases, C.BodyHolds a.inLoop c.body body body')
    (hotherwise : ∀ ss, otherwise = some ss → C.BodyHolds a.inLoop ss body body')
    (hs : C.At a C.Ready s) :
    C.Holds a C.Rest (r.switch fuel body options cases otherwise)
      ((r.swapped wait' capture').switch fuel' body' options cases otherwise) s := by
  refine (expandAll _ hs).bind fun patterns t ht => cases_dry (fun hdry => ?_) fun hlive => ?_
  · refine (hC.narrate _ hdry (hC.at_rest ht)).bind fun _ t ht => ?_
    have hzip : ∀ c ∈ cases.zip patterns, C.BodyHolds a.inLoop c.1.body body body' :=
      fun c hc => hcases c.1 (List.of_mem_zip hc).1
    refine (hC.tellCases _ hzip hdry ht).bind fun signal t ht => ?_
    cases signal with
    | some signal => exact .pure ht _
    | none =>
      cases otherwise with
      | none => exact .pure ht none
      | some ss => exact (hC.narrate _ hdry ht).bind fun _ t ht => once (hotherwise ss rfl) ht
  · refine (clockTime ht).bind fun start t ht => ?_
    rw [hfuel hlive]
    refine (hC.pollCases patterns _ _ start fuel' (fun left hleft => ?_) hlive ht).bind
      fun hit t ht => ?_
    · exact hC.switches hx hleft
    · split
      · next c hc =>
        obtain ⟨i, -, hi⟩ := Option.bind_eq_some_iff.mp hc
        exact once (hcases c (List.mem_of_getElem? hi)) ht
      · cases otherwise with
        | none => exact .pure ht none
        | some ss => exact once (hotherwise ss rfl) ht

/-! ## Calls and files -/

omit hC in
theorem enterFunction (call : Call) {ss : List Stmt}
    (h : C.BodyHolds (a.inCall call) ss body body') (hs : C.At a C.Rest s) :
    C.Holds a C.Rest (Runner.enterFunction body call ss) (Runner.enterFunction body' call ss) s := by
  refine Holds.then_pure (Holds.framed (b := a.inCall call) (h _ ?_) ?_ fun _ => rfl)
  · refine ⟨?_, hs.2⟩
    rw [← hs.1]
    rfl
  · intro t ht
    refine ⟨?_, ht.2⟩
    have hkept := ht.1
    rw [← hs.1] at hkept ⊢
    simp only [Session.surroundings, Surroundings.inCall, Surroundings.mk.injEq] at hkept ⊢
    simp [hkept]

theorem invoke {call : Call} {ss : List Stmt}
    (h : (r.machine.isDryRun = true → a.calls.any (·.name == call.name) = false) →
      C.BodyHolds (a.inCall call) ss body body')
    (hs : C.At a C.Rest s) :
    C.Holds a C.Rest (r.invoke body call ss) ((r.swapped wait' capture').invoke body' call ss) s := by
  refine cases_dry (fun hdry => ?_) fun hlive => ?_
  · refine (hC.narrate _ hdry hs).bind fun _ t ht => .get ?_
    split
    · exact (hC.narrate _ hdry ht).then_pure
    · next hnew =>
      refine enterFunction call (h fun _ => ?_) ht
      rw [← ht.1]
      simpa [Session.surroundings] using hnew
  · exact enterFunction call (h fun hdry => by simp [hdry] at hlive) hs

theorem call {line : Line} {name : String} {args : List String}
    (hx : C.Allows (.action line (.call name args)))
    (h : ∀ b ss, r.Opens C.Knows a (.action line (.call name args)) b ss →
      C.BodyHolds b ss body body')
    (hs : C.At a C.Rest s) :
    C.Holds a C.Rest (r.call body line.number name args)
      ((r.swapped wait' capture').call body' line.number name args) s := by
  refine .get ?_
  split
  · next hnone => exact .throw hs (hC.raised hs.2.1 hx (.call hnone))
  · next f hf =>
    refine (expandAll args hs).bind fun outs t ht => ?_
    refine hC.invoke (fun hnew => h _ _ (.call hs.2.1 hf hnew)) ht

omit hC in
theorem enterFile {path key : String} {ss : List Stmt}
    (h : C.BodyHolds (a.inFile key ((Path.parent? path).getD "")) ss body body')
    (hs : C.At a C.Rest s) :
    C.Holds a C.Rest (Runner.enterFile body path key ss) (Runner.enterFile body' path key ss) s := by
  refine Holds.then_pure (Holds.framed (b := a.inFile key _) (h _ ?_) ?_ fun _ => rfl)
  · refine ⟨?_, hs.2⟩
    rw [← hs.1]
    rfl
  · intro t ht
    refine ⟨?_, ht.2⟩
    have hkept := ht.1
    rw [← hs.1] at hkept ⊢
    simp only [Session.surroundings, Surroundings.inFile, Surroundings.mk.injEq] at hkept ⊢
    simp [hkept]

theorem includeFile {line : Line} {path : String}
    (hx : C.Allows (.action line (.includeFile path)))
    (h : ∀ b ss, r.Opens C.Knows a (.action line (.includeFile path)) b ss →
      C.BodyHolds b ss body body')
    (hs : C.At a C.Rest s) :
    C.Holds a C.Rest (r.includeFile body path)
      ((r.swapped wait' capture').includeFile body' path) s := by
  change C.Holds a C.Rest (r.includeFile body path) (r.includeFile body' path) s
  refine Holds.bind (expand path hs) fun shown t ht => .get ?_
  dsimp only
  split
  · exact .throw ht (hC.raised ht.2.1 hx (.cycle ..))
  · next hnew =>
    split
    · exact .throw ht (hC.raised ht.2.1 hx (.unreadable ..))
    · next text hread =>
      split
      · exact .throw ht (hC.raised ht.2.1 hx (.malformed ..))
      · next script hparse =>
        have hknows := (hC.included ht.2.1 hx hread (Prod.ext hparse rfl)).1
        have hu : C.At a C.Rest { t with functions := script.functions ++ t.functions } :=
          ⟨ht.1, hknows, ht.2.2⟩
        refine Holds.bind (.modify hu) fun _ u hu => ?_
        refine enterFile (h _ _ (.file ?_ ht.2.1 hread (Prod.ext hparse rfl))) hu
        rw [← ht.1]
        simpa [Session.surroundings] using hnew

/-! ## Statements -/

theorem action {fuel fuel' : Nat} (hfuel : r.machine.isDryRun = false → fuel = fuel') {line : Line}
    {act : Action} (hx : C.Allows (.action line act))
    (h : ∀ b ss, r.Opens C.Knows a (.action line act) b ss → C.BodyHolds b ss body body')
    (hs : C.At a C.Ready s) :
    C.Holds a C.Rest (r.action fuel body line.number act)
      ((r.swapped wait' capture').action fuel' body' line.number act) s := by
  cases act with
  | key name =>
    simp only [Runner.action]
    split
    · next hunknown =>
      exact .throw (hC.at_rest hs) (hC.raised hs.2.1 hx (.key hunknown))
    · exact ((hC.operate (.pressKey _) hs).mono hC.rest).then_pure
  | watch text limit =>
    refine (expand text hs).bind fun shown t ht => cases_dry (fun hdry => ?_) fun hlive => ?_
    · exact (hC.narrate _ hdry (hC.at_rest ht)).then_pure
    · rw [hfuel hlive]
      exact (hC.watch fuel' shown _ hlive hx ht).then_pure
  | console number => exact ((hC.operate (.switchConsole number) hs).mono hC.rest).then_pure
  | wait duration => exact (hC.sleep duration (hC.at_rest hs)).then_pure
  | exit code => exact .pure (hC.at_rest hs) _
  | endIf => exact .pure (hC.at_rest hs) _
  | doReturn => exact .pure (hC.at_rest hs) _
  | doBreak =>
    refine (isDebugging (hC.at_rest hs)).bind fun debugging t ht => .get ?_
    split
    · exact .pure ht _
    · exact .pure ht _
  | includeFile path => exact hC.includeFile hx h (hC.at_rest hs)
  | screenshot path format =>
    refine (expand path hs).bind fun shown t ht => ?_
    exact ((hC.operate (.screenshot _ format) ht).mono hC.rest).then_pure
  | call name args => exact hC.call hx h (hC.at_rest hs)
  | bind name value =>
    refine (expand value hs).bind fun shown t ht => ?_
    exact ((bind name shown ht).mono hC.rest).then_pure

theorem plain {line : Line} (hx : C.Allows (.plain line)) (hs : C.At a C.Ready s) :
    C.Holds a C.Rest (r.plain line) ((r.swapped wait' capture').plain line) s := by
  change C.Holds a C.Rest (r.plain line) (r.plain line) s
  unfold Runner.plain
  cases hkind : line.kind with
  | text =>
    refine Holds.bind (expand line.trimmed hs) fun text t ht => ?_
    exact ((hC.operate (.typeText _) ht).mono hC.rest).then_pure
  | assignment => exact ((assign line.trimmed hs).mono hC.rest).then_pure
  | directive =>
    exact .throw (hC.at_rest hs) (hC.raised hs.2.1 hx (.unread (by rw [hkind]; rfl)))
  | conditional =>
    exact .throw (hC.at_rest hs) (hC.raised hs.2.1 hx (.unread (by rw [hkind]; rfl)))
  | comment => exact .pure (hC.at_rest hs) none
  | blank => exact .pure (hC.at_rest hs) none

theorem dispatch {fuel fuel' : Nat} (hfuel : r.machine.isDryRun = false → fuel = fuel') {x : Stmt}
    (hx : C.Allows x)
    (h : ∀ b ss, r.Opens C.Knows a x b ss → C.BodyHolds b ss body body')
    (hs : C.At a C.Ready s) :
    C.Holds a C.Rest (r.dispatch fuel body x)
      ((r.swapped wait' capture').dispatch fuel' body' x) s := by
  cases x with
  | plain line => exact hC.plain hx hs
  | action line act => exact hC.action hfuel hx h hs
  | loop line l ss => exact hC.loop hfuel hx (h _ ss (.inLoop (by simp [Stmt.bodies]))) hs
  | branch line c yes no =>
    exact hC.branch hfuel c (h _ yes (.own (by simp [Stmt.bodies])))
      (h _ no (.own (by simp [Stmt.bodies]))) hs
  | switch line options cases otherwise =>
    refine hC.switch hfuel hx (fun c hc => ?_) (fun ss hss => ?_) hs
    · exact h _ c.body (.inLoop (List.mem_append_left _ (List.mem_map_of_mem hc)))
    · exact h _ ss (.inLoop (List.mem_append_right _ (by simp [hss])))

theorem approach (x : Stmt) (hs : C.At a C.Rest s) :
    C.Holds a C.Ready (r.approach x) ((r.swapped wait' capture').approach x) s := by
  refine (hC.checkDeadline hs).bind fun _ t ht => ?_
  have hu : C.At a C.Ready { t with line := x.line.number } := ht
  exact Holds.bind (.modify hu) fun _ u hu => hC.consult x.entry hu

/-- A statement that may run does as is expected if the lists do that it opens. -/
theorem stmt {fuel fuel' : Nat} (hfuel : r.machine.isDryRun = false → fuel = fuel') {x : Stmt}
    (hx : C.Allows x)
    (h : ∀ b ss, r.Opens C.Knows a x b ss → C.BodyHolds b ss body body')
    (hs : C.At a C.Rest s) :
    C.Holds a C.Rest (r.stmt fuel body x) ((r.swapped wait' capture').stmt fuel' body' x) s := by
  unfold Runner.stmt
  split
  · exact .pure hs none
  · refine (hC.approach x hs).bind fun _ t ht => ?_
    refine Holds.bind (P := C.Rest) ?_ fun signal u hu => ?_
    · refine (hC.dispatch hfuel hx h ht).attempt_bind ?_ (fun v t ht => .pure ht v) ?_
      · intro e t he
        simp [(hC.fatal he).positioned_eq]
      · exact fun e t ht he => .throw ht (hC.positioned _ he)
    · have hv : C.At a C.Rest { u with linesExecuted := u.linesExecuted + 1 } := hu
      exact Holds.bind (.modify hv) fun _ t ht => .pure ht signal

omit hC in
theorem stmts {one one' : Stmt → Run σ (Option Signal)} {ss : List Stmt}
    (h : ∀ x ∈ ss, ∀ t, C.At a C.Rest t → C.Holds a C.Rest (one x) (one' x) t)
    (hs : C.At a C.Rest s) :
    C.Holds a C.Rest (Runner.stmts one ss) (Runner.stmts one' ss) s := by
  induction ss generalizing s with
  | nil => exact .pure hs none
  | cons x rest ih =>
    obtain ⟨hx, hrest⟩ := List.forall_mem_cons.mp h
    refine (hx s hs).bind fun signal t ht => ?_
    cases signal with
    | some signal => exact .pure ht _
    | none => exact ih hrest ht

/-- The lists that a statement opens may run if the statement and all inside of it
    may. -/
theorem opened {x : Stmt} {b : Surroundings} {ss : List Stmt} (hx : ∀ y ∈ x.nodes, C.Allows y)
    (h : r.Opens C.Knows a x b ss) : ∀ y ∈ Stmt.nodesAll ss, C.Allows y := by
  cases h with
  | own hss => exact fun y hy => hx y (Stmt.mem_nodes_of_body hss hy)
  | inLoop hss => exact fun y hy => hx y (Stmt.mem_nodes_of_body hss hy)
  | call hknows hf _ => exact hC.called hknows (List.mem_of_find?_eq_some hf)
  | file _ hknows hread hparse =>
    exact (hC.included hknows (hx _ (Stmt.mem_nodes_self _)) hread hparse).2

/-- Everything that may run does as is expected. -/
theorem exec (hpartial : ¬C.Total) (fuel : Nat) (a : Surroundings) {ss : List Stmt}
    (hss : ∀ x ∈ Stmt.nodesAll ss, C.Allows x) :
    C.BodyHolds a ss (r.exec fuel) ((r.swapped wait' capture').exec fuel) := by
  induction fuel generalizing a ss with
  | zero => exact fun s hs => .outOfFuel hpartial
  | succ fuel ih =>
    refine fun s hs => stmts (fun x hx t ht => ?_) hs
    have hnodes : ∀ y ∈ x.nodes, C.Allows y := fun y hy => hss y (Stmt.mem_nodesAll.mpr ⟨x, hx, hy⟩)
    refine hC.stmt (fun _ => rfl) (hnodes x x.mem_nodes_self) (fun b inner hopens => ?_) ht
    exact ih b (hC.opened hnodes hopens)

end Governs

end Conduct

end ConsoleScript
