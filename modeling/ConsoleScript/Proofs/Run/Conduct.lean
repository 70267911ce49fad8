-- SUMMARY: One account of what a statement does with the lists it runs, from which facts about whole runs follow.
import ConsoleScript.Proofs.Run.Failing
import ConsoleScript.Proofs.Run.Nesting
import ConsoleScript.Proofs.Run.Timing
import ConsoleScript.Proofs.Script.Nodes

/-!
# Conducts

A conduct says what is expected of a run: which statements and functions may be
there, what holds of the world between two statements (`Rest`) and where the
screen may be looked at (`Ready`), and how anything may fail. `Conduct.Governs`
lists what the single steps of a runner have to do for that. Then it holds of
every statement, if it holds of the lists that the statement opens
(`Governs.stmt`), and so of whole runs (`Governs.exec`). These are proved in the
modules that follow, along the text of the steps and of the statements.

Two runs are followed side by side. They may differ in what the lists do, and in
waits and looks at the screen that the conduct rules out.
-/

namespace ConsoleScript

/-- What is expected of a run in a world of type `σ`. -/
structure Conduct (σ : Type) where
  /-- Statements that may run. -/
  Allows : Stmt → Prop
  /-- Functions that may be there. -/
  Knows : List Function → Prop
  /-- What holds between two statements, of the time at which the run began and
      the world. -/
  Rest : Duration → σ → Prop
  /-- What holds where the screen may be looked at. -/
  Ready : Duration → σ → Prop
  /-- Pauses after which the screen may be looked at again. -/
  Paces : Duration → Prop
  /-- Errors with which anything may fail. -/
  Fails : RunError → Prop
  /-- Errors that end everything at once, with the world that they leave. -/
  Escapes : RunError → σ → Prop
  /-- Whether everything ends. -/
  Total : Prop

namespace Conduct

variable {σ α β : Type}

/-- In surroundings `a`, with functions that may be there, and a world as `P` says. -/
def At (C : Conduct σ) (a : Surroundings) (P : Duration → σ → Prop) (s : Session σ) : Prop :=
  s.surroundings = a ∧ C.Knows s.functions ∧ P s.started s.world

/-- An outcome that is as expected: `P` holds after a success. -/
def Ends (C : Conduct σ) (a : Surroundings) (P : Duration → σ → Prop) :
    Option (Except RunError α × Session σ) → Prop
  | none => ¬C.Total
  | some (.ok _, t) => C.At a P t
  | some (.error e, t) => C.At a C.Rest t ∧ C.Fails e

/-- From `s` on, `x` does as `y`, and as is expected, unless an error ends it that
    ends everything. -/
def Holds (C : Conduct σ) (a : Surroundings) (P : Duration → σ → Prop) (x y : Run σ α)
    (s : Session σ) : Prop :=
  (∃ e t, x.run s = some (.error e, t) ∧ C.Escapes e t.world) ∨
    (x.run s = y.run s ∧ C.Ends a P (y.run s))

variable {C : Conduct σ} {a b : Surroundings} {P Q : Duration → σ → Prop} {s : Session σ}
  {x y : Run σ α} {f g : α → Run σ β}

theorem At.mono (h : C.At a P s) (hPQ : ∀ {started w}, P started w → Q started w) :
    C.At a Q s :=
  ⟨h.1, h.2.1, hPQ h.2.2⟩

/-! ## Putting computations together -/

namespace Holds

/-- Two computations with one outcome. -/
theorem of_run {out : Option (Except RunError α × Session σ)} (hx : x.run s = out)
    (hy : y.run s = out) (hout : C.Ends a P out) : C.Holds a P x y s :=
  .inr ⟨hx.trans hy.symm, hy ▸ hout⟩

theorem pure (hs : C.At a P s) (v : α) : C.Holds a P (pure v) (pure v) s :=
  of_run rfl rfl hs

theorem throw {e : RunError} (hs : C.At a C.Rest s) (he : C.Fails e) :
    C.Holds a P (throw e : Run σ α) (throw e) s :=
  of_run rfl rfl ⟨hs, he⟩

theorem outOfFuel (hpartial : ¬C.Total) :
    C.Holds a P (Run.outOfFuel : Run σ α) Run.outOfFuel s :=
  of_run rfl rfl hpartial

theorem bind (hx : C.Holds a P x y s) (hf : ∀ v t, C.At a P t → C.Holds a Q (f v) (g v) t) :
    C.Holds a Q (x >>= f) (y >>= g) s := by
  rcases hx with ⟨e, t, hrun, hescapes⟩ | ⟨hrun, hends⟩
  · exact .inl ⟨e, t, by rw [Run.run_bind, hrun, Option.bind_some], hescapes⟩
  · unfold Holds
    rw [Run.run_bind, Run.run_bind, hrun]
    cases hy : y.run s with
    | none =>
      rw [hy] at hends
      exact .inr ⟨rfl, hends⟩
    | some result =>
      obtain ⟨out, t⟩ := result
      rw [hy] at hends
      cases out with
      | error e => exact .inr ⟨rfl, hends⟩
      | ok v => exact hf v t hends

theorem then_pure {f : α → β} (hx : C.Holds a P x y s) :
    C.Holds a P (x >>= fun v => Pure.pure (f v)) (y >>= fun v => Pure.pure (f v)) s :=
  hx.bind fun _ _ ht => pure ht _

/-- Less may be said of a success. -/
theorem mono (hx : C.Holds a P x y s) (hPQ : ∀ {started w}, P started w → Q started w) :
    C.Holds a Q x y s := by
  rcases hx with hescapes | ⟨hrun, hends⟩
  · exact .inl hescapes
  · refine .inr ⟨hrun, ?_⟩
    cases hy : y.run s with
    | none =>
      rw [hy] at hends
      exact hends
    | some result =>
      obtain ⟨out, t⟩ := result
      rw [hy] at hends
      cases out with
      | error e => exact hends
      | ok v => exact At.mono hends hPQ

theorem get {f g : Session σ → Run σ α} (h : C.Holds a P (f s) (g s) s) :
    C.Holds a P (get >>= f) (get >>= g) s := h

theorem set {t : Session σ} {f g : Unit → Run σ α} (h : C.Holds a P (f ()) (g ()) t) :
    C.Holds a P (set t >>= f) (set t >>= g) s := h

theorem modify {m : Session σ → Session σ} (h : C.At a P (m s)) :
    C.Holds a P (modify m) (modify m) s :=
  of_run rfl rfl h

/-- A step that gives a result and changes the script's own variables only. -/
theorem rescope {v : α} {scope : Scope} (hx : x.run s = some (.ok v, { s with scope }))
    (hy : y.run s = some (.ok v, { s with scope })) (hscope : scope.readOnly = s.scope.readOnly)
    (hs : C.At a P s) : C.Holds a P x y s := by
  refine of_run hx hy ⟨?_, hs.2⟩
  exact (Runner.surroundings_of_readOnly hscope).trans hs.1

/-- What catches errors has to pass those on that end everything. -/
theorem attempt_bind {f g : Except RunError α → Run σ β} (hx : C.Holds a P x y s)
    (hescapes : ∀ e t, C.Escapes e t.world → (f (.error e)).run t = some (.error e, t))
    (hok : ∀ v t, C.At a P t → C.Holds a Q (f (.ok v)) (g (.ok v)) t)
    (herror : ∀ e t, C.At a C.Rest t → C.Fails e →
      C.Holds a Q (f (.error e)) (g (.error e)) t) :
    C.Holds a Q (Run.attempt x >>= f) (Run.attempt y >>= g) s := by
  unfold Holds
  rw [Run.run_bind, Run.run_bind, Run.run_attempt, Run.run_attempt]
  rcases hx with ⟨e, t, hrun, he⟩ | ⟨hrun, hends⟩
  · refine .inl ⟨e, t, ?_, he⟩
    rw [hrun]
    exact hescapes e t he
  · rw [hrun]
    cases hy : y.run s with
    | none =>
      rw [hy] at hends
      exact .inr ⟨rfl, hends⟩
    | some result =>
      obtain ⟨out, t⟩ := result
      rw [hy] at hends
      cases out with
      | error e => exact herror e t hends.1 hends.2
      | ok v => exact hok v t hends

/-- Around a list that runs in surroundings `b`. -/
theorem framed {enter : Session σ → Session σ} {leave : Session σ → Session σ → Session σ}
    (hx : C.Holds b C.Rest x y (enter s))
    (hleave : ∀ t, C.At b C.Rest t → C.At a C.Rest (leave s t))
    (hworld : ∀ t, (leave s t).world = t.world) :
    C.Holds a C.Rest (Run.framed enter leave x) (Run.framed enter leave y) s := by
  unfold Holds
  rw [Run.run_framed, Run.run_framed]
  rcases hx with ⟨e, t, hrun, he⟩ | ⟨hrun, hends⟩
  · refine .inl ⟨e, leave s t, by rw [hrun]; rfl, ?_⟩
    rw [hworld]
    exact he
  · rw [hrun]
    cases hy : y.run (enter s) with
    | none =>
      rw [hy] at hends
      exact .inr ⟨rfl, hends⟩
    | some result =>
      obtain ⟨out, t⟩ := result
      rw [hy] at hends
      cases out with
      | error e => exact .inr ⟨rfl, hleave t hends.1, hends.2⟩
      | ok v => exact .inr ⟨rfl, hleave t hends⟩

end Holds

end Conduct

/-! ## What a conduct asks of a runner -/

/-- The operations that a statement asks of the machine once. -/
inductive Machine.IsDeed {σ : Type} (m : Machine σ) : Operation σ Unit → Prop where
  | typeText (text : String) : IsDeed m (m.typeText text)
  | pressKey (key : KeyCode) : IsDeed m (m.pressKey key)
  | switchConsole (number : Nat) : IsDeed m (m.switchConsole number)
  | screenshot (path : String) (format : ImageFormat) : IsDeed m (m.screenshot path format)

namespace Runner

variable {σ : Type}

/-- The runner with another way of waiting and of looking at the screen. -/
def swapped (r : Runner σ) (wait : Duration → σ → σ) (capture : Operation σ Screen) : Runner σ :=
  { r with machine := { r.machine with wait, capture } }

section

variable (r : Runner σ) (wait : Duration → σ → σ) (capture : Operation σ Screen)

@[simp] theorem swapped_isDryRun :
    (r.swapped wait capture).machine.isDryRun = r.machine.isDryRun := rfl

@[simp] theorem swapped_debugger : (r.swapped wait capture).debugger = r.debugger := rfl

@[simp] theorem swapped_self : r.swapped r.machine.wait r.machine.capture = r := rfl

end

end Runner

/-- What the conduct asks of the world: how the single steps of a runner, and of one
    that waits and looks in another way, change it. -/
structure Conduct.Watches {σ : Type} (C : Conduct σ) (r : Runner σ) (wait' : Duration → σ → σ)
    (capture' : Operation σ Screen) : Prop where
  rest : ∀ {started w}, C.Ready started w → C.Rest started w
  inTime : ∀ {started w}, C.Rest started w → r.InTime started w → C.Ready started w
  waits : ∀ {started w} d, C.Rest started w →
    wait' (r.granted started w d) w = r.machine.wait (r.granted started w d) w ∧
      C.Rest started (r.machine.wait (r.granted started w d) w)
  sleeps : ∀ {started w} d, C.Ready started w →
    C.Ready started (r.machine.wait (r.granted started w d) w)
  pauses : ∀ {started w d}, C.Rest started w → C.Paces d → r.granted started w d = d →
    C.Ready started (r.machine.wait d w)
  looks : ∀ {started w}, r.machine.isDryRun = false → C.Ready started w →
    capture' w = r.machine.capture w ∧ C.Rest started (r.machine.capture w).2
  acts : ∀ {started w op}, r.machine.IsDeed op → C.Ready started w → C.Ready started (op w).2
  asks : ∀ {started w d} e scope, r.debugger = some d → C.Ready started w →
    C.Ready started (d.decide e scope w).2
  tells : ∀ {started w} text, r.machine.isDryRun = true → C.Rest started w →
    C.Rest started (r.machine.narrate text w)
  /-- Loops and switches pause long enough between two looks. -/
  loops : ∀ {line presence text timeout poll body left},
    C.Allows (.loop line (.whileScreen presence text timeout poll) body) → 0 < left →
    C.Paces (min (poll.getD r.settings.poll) left)
  switches : ∀ {line options cases otherwise left},
    C.Allows (.switch line options cases otherwise) → 0 < left →
    C.Paces (min (options.poll.getD r.settings.poll) left)

/-- What the conduct asks of errors: those that arise are expected, and so they are
    once they have been passed outwards. -/
structure Conduct.Judges {σ : Type} (C : Conduct σ) (r : Runner σ) : Prop where
  late : ∀ {started w}, C.Rest started w → ¬r.InTime started w →
    C.Fails (.timeout (r.time started w))
  cut : ∀ {started w d}, C.Rest started w → r.granted started w d < d →
    C.Fails (.timeout (r.time started (r.machine.wait (r.granted started w d) w)))
  outside : ∀ {e}, e.FromOutside → (∀ elapsed, e ≠ .timeout elapsed) → C.Fails e
  raised : ∀ {functions x e}, C.Knows functions → C.Allows x → x.Raises functions e → C.Fails e
  positioned : ∀ {e} line, C.Fails e → C.Fails (e.positioned line)
  exhausted : ∀ {e} attempts, e.isFatal = false → C.Fails e → C.Fails (.retryExhausted attempts e)
  failed : ∀ {e} i n, e.isFatal = false → C.Fails e → C.Fails (.repeatFailed i n e)

/-- All that a conduct asks of a runner, and of one that waits and looks in another
    way. -/
structure Conduct.Governs {σ : Type} (C : Conduct σ) (r : Runner σ) (wait' : Duration → σ → σ)
    (capture' : Operation σ Screen) : Prop extends C.Watches r wait' capture', C.Judges r where
  dry : C.Total → r.machine.isDryRun = true
  fatal : ∀ {e w}, C.Escapes e w → e.Fatal
  /-- The statements of functions that are there may run. -/
  called : ∀ {functions f}, C.Knows functions → f ∈ functions →
    ∀ x ∈ Stmt.nodesAll f.body, C.Allows x
  /-- The functions of a file that is included may be there, and its statements run. -/
  included : ∀ {functions line path w resolved text now scope scope' script},
    C.Knows functions → C.Allows (.action line (.includeFile path)) →
    (r.filesIn w).readText resolved = .ok text →
    Script.parse now scope text = (.ok script, scope') →
    C.Knows (script.functions ++ functions) ∧ ∀ x ∈ Stmt.nodesAll script.body, C.Allows x

namespace Conduct

variable {σ : Type} {C : Conduct σ} {r : Runner σ}

/-- A conduct that does not mind the world. -/
theorem Watches.of_forall (hready : ∀ started w, C.Ready started w)
    (hrest : ∀ started w, C.Rest started w) (hpaces : ∀ d, C.Paces d) :
    C.Watches r r.machine.wait r.machine.capture where
  rest _ := hrest _ _
  inTime _ _ := hready _ _
  waits _ _ := ⟨rfl, hrest _ _⟩
  sleeps _ _ := hready _ _
  pauses _ _ _ := hready _ _
  looks _ _ := ⟨rfl, hrest _ _⟩
  acts _ _ := hready _ _
  asks _ _ _ _ := hready _ _
  tells _ _ _ := hrest _ _
  loops _ _ := hpaces _
  switches _ _ := hpaces _

/-- A conduct that does not mind errors. -/
theorem Judges.of_forall (h : ∀ e, C.Fails e) : C.Judges r where
  late _ _ := h _
  cut _ _ := h _
  outside _ _ := h _
  raised _ _ _ := h _
  positioned _ _ := h _
  exhausted _ _ _ := h _
  failed _ _ _ _ := h _

/-- A conduct that minds the causes of errors only. -/
theorem Judges.of_cause (Permits : RunError → Prop) (hfails : ∀ {e}, C.Fails e ↔ Permits e.cause)
    (late : ∀ {started w}, C.Rest started w → ¬r.InTime started w →
      Permits (.timeout (r.time started w)))
    (cut : ∀ {started w d}, C.Rest started w → r.granted started w d < d →
      Permits (.timeout (r.time started (r.machine.wait (r.granted started w d) w))))
    (outside : ∀ {e}, e.FromOutside → (∀ elapsed, e ≠ .timeout elapsed) → Permits e)
    (raised : ∀ {functions x e}, C.Knows functions → C.Allows x → x.Raises functions e →
      Permits e) : C.Judges r where
  late hrest hover := hfails.mpr (late hrest hover)
  cut hrest hcut := hfails.mpr (cut hrest hcut)
  outside he hne := hfails.mpr (by rw [he.cause_eq]; exact outside he hne)
  raised hknows hx he := hfails.mpr (by rw [he.cause_eq]; exact raised hknows hx he)
  positioned line he := hfails.mpr (by rw [RunError.cause_positioned]; exact hfails.mp he)
  exhausted _ _ he := hfails.mpr (by rw [RunError.cause]; exact hfails.mp he)
  failed _ _ _ he := hfails.mpr (by rw [RunError.cause]; exact hfails.mp he)

end Conduct

/-- The lists that a statement opens in surroundings `a`, and the surroundings in
    which it runs them. -/
inductive Runner.Opens {σ : Type} (r : Runner σ) (Knows : List Function → Prop)
    (a : Surroundings) : Stmt → Surroundings → List Stmt → Prop where
  | own {x : Stmt} {ss : List Stmt} (hss : ss ∈ x.bodies) : Opens r Knows a x a ss
  | inLoop {x : Stmt} {ss : List Stmt} (hss : ss ∈ x.bodies) : Opens r Knows a x a.inLoop ss
  /-- A dry run does not enter a function that it is in already. -/
  | call {line : Line} {name : String} {args outs : List String} {functions : List Function}
      {f : Function} (hknows : Knows functions)
      (hf : functions.find? (·.name == name) = some f)
      (hnew : r.machine.isDryRun = true → a.calls.any (·.name == name) = false) :
      Opens r Knows a (.action line (.call name args)) (a.inCall ⟨name, outs, line.number⟩) f.body
  | file {line : Line} {path resolved text dir : String} {w : σ} {now : Int}
      {scope scope' : Scope} {script : Script} {functions : List Function}
      (hnew : a.includes.any (Path.alike (Session.fileKey (r.filesIn w) resolved)) = false)
      (hknows : Knows functions) (hread : (r.filesIn w).readText resolved = .ok text)
      (hparse : Script.parse now scope text = (.ok script, scope')) :
      Opens r Knows a (.action line (.includeFile path))
        (a.inFile (Session.fileKey (r.filesIn w) resolved) dir) script.body

/-- In surroundings `a` the bodies do the same with `ss`, and as is expected. -/
def Conduct.BodyHolds {σ : Type} (C : Conduct σ) (a : Surroundings) (ss : List Stmt)
    (body body' : Runner.Body σ) : Prop :=
  ∀ s, C.At a C.Rest s → C.Holds a C.Rest (body ss) (body' ss) s

end ConsoleScript
