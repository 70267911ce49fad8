-- SUMMARY: How often a run looks at the screen once its deadline is over.
import ConsoleScript.Proofs.Run.Conduct.Points
import ConsoleScript.Proofs.Run.Files

/-!
# Late looks

A loop or a switch looks at the screen, sleeps, and looks again. Sleeping notices
that the deadline is over, unless it is for no time at all. So where all loops and
switches pause between two looks, at most one look of the whole run begins once the
deadline is over (`late_looks_at_most_one`), and where one does not, there is no
such bound (`looks_go_on_late`).

The looks are counted in the world itself: `Tallies` says that a view of the world
is such a count, and `tallied` gives every runner one.
-/

namespace ConsoleScript

namespace Runner

variable {σ : Type} {r : Runner σ}

/-! ## Counting late looks -/

/-- In a run with a deadline, `count` is the number of looks at the screen that began
    once it was over. Neither a look nor a pause sets the clock back. -/
structure Tallies (r : Runner σ) (timeout started : Duration) (count : σ → Nat) : Prop where
  isLive : r.machine.isDryRun = false
  hasTimeout : r.settings.timeout = some timeout
  capture_forward : ∀ w, r.machine.clock.elapsed w ≤ r.machine.clock.elapsed (r.machine.capture w).2
  wait_forward : ∀ d w, r.machine.clock.elapsed w ≤ r.machine.clock.elapsed (r.machine.wait d w)
  capture : ∀ w, count (r.machine.capture w).2 =
    count w + if timeout ≤ r.time started w then 1 else 0
  wait : ∀ d w, count (r.machine.wait d w) = count w
  deed : ∀ {op} w, r.machine.IsDeed op → count (op w).2 = count w
  decide : ∀ {d} e scope w, r.debugger = some d → count (d.decide e scope w).2 = count w

/-- The operation, with a number beside the world that it does not touch. -/
def uncounted {α : Type} (op : Operation σ α) : Operation (σ × Nat) α := fun w =>
  ((op w.1).1, (op w.1).2, w.2)

/-- The runner with a number beside the world that counts the late looks. -/
def tallied (r : Runner σ) (timeout started : Duration) : Runner (σ × Nat) where
  machine :=
    { typeText text := uncounted (r.machine.typeText text)
      pressKey key := uncounted (r.machine.pressKey key)
      switchConsole number := uncounted (r.machine.switchConsole number)
      wait d w := (r.machine.wait d w.1, w.2)
      screenshot path format := uncounted (r.machine.screenshot path format)
      capture w :=
        ((r.machine.capture w.1).1, (r.machine.capture w.1).2,
          w.2 + if timeout ≤ r.time started w.1 then 1 else 0)
      isDryRun := r.machine.isDryRun
      narrate text w := (r.machine.narrate text w.1, w.2)
      clock := ⟨fun w => r.machine.clock.elapsed w.1, fun w => r.machine.clock.seconds w.1⟩ }
  debugger := r.debugger.map fun d =>
    { isEnabled w := d.isEnabled w.1
      stopsAt e w := d.stopsAt e w.1
      decide e scope w := ((d.decide e scope w.1).1, (d.decide e scope w.1).2, w.2) }
  settings := r.settings
  files := r.files
  filesIn w := r.filesIn w.1

theorem tallied_tallies {timeout : Duration} (started : Duration)
    (hlive : r.machine.isDryRun = false) (htimeout : r.settings.timeout = some timeout)
    (hforward : r.machine.Forward) :
    (r.tallied timeout started).Tallies timeout started Prod.snd where
  isLive := hlive
  hasTimeout := htimeout
  capture_forward w := hforward.capture w.1
  wait_forward d w := hforward.wait d w.1
  capture _ := rfl
  wait _ _ := rfl
  deed w hop := by cases hop <;> rfl
  decide e scope w hd := by
    obtain ⟨d, -, rfl⟩ := Option.map_eq_some_iff.mp hd
    rfl

/-! ## Pausing between two looks -/

/-- A loop or a switch does not look again at once. -/
def Paced (r : Runner σ) : Stmt → Prop
  | .loop _ (.whileScreen _ _ _ poll) _ => poll.getD r.settings.poll ≠ 0
  | .switch _ options _ _ => options.poll.getD r.settings.poll ≠ 0
  | _ => True

/-- All loops and switches of the script pause between two looks. -/
structure PacedScript (r : Runner σ) (script : Script) : Prop where
  body : ∀ x ∈ Stmt.nodesAll script.body, r.Paced x
  functions : ∀ f ∈ script.functions, ∀ x ∈ Stmt.nodesAll f.body, r.Paced x

/-- So do those of all files that can be included. -/
def PacedFiles (r : Runner σ) : Prop :=
  ∀ {w path text now scope scope' script}, (r.filesIn w).readText path = .ok text →
    Script.parse now scope text = (.ok script, scope') → r.PacedScript script

end Runner

/-- At most one look is late, and after a late one there is none. -/
def Conduct.sparing {σ : Type} (r : Runner σ) (timeout started : Duration) (count : σ → Nat)
    (before : Nat) : Conduct σ where
  Allows := r.Paced
  Knows functions := ∀ f ∈ functions, ∀ x ∈ Stmt.nodesAll f.body, r.Paced x
  Rest started' w := started' = started ∧
    (count w = before ∨ count w = before + 1 ∧ timeout ≤ r.time started w)
  Ready started' w := started' = started ∧ count w = before
  Paces d := d ≠ 0
  Fails _ := True
  Escapes _ _ := False
  Total := False

namespace Conduct

variable {σ : Type} {r : Runner σ} {timeout started : Duration} {count : σ → Nat} {before : Nat}
  {capture' : Operation σ Screen}

theorem sparing_le {started' : Duration} {w : σ}
    (hrest : (sparing r timeout started count before).Rest started' w) : count w ≤ before + 1 := by
  rcases hrest.2 with hnone | ⟨hone, -⟩
  · omega
  · omega

/-- A look that is made where none was late is either in time or the first late one. -/
theorem sparing_look (h : r.Tallies timeout started count) {w : σ} (hcount : count w = before) :
    (sparing r timeout started count before).Rest started (r.machine.capture w).2 := by
  refine ⟨rfl, ?_⟩
  rw [h.capture, hcount]
  split
  · next hlate =>
    exact .inr ⟨rfl, Nat.le_trans hlate (Nat.sub_le_sub_right (h.capture_forward w) started)⟩
  · exact .inl rfl

theorem sparing_wait (h : r.Tallies timeout started count) {started' : Duration} {w : σ}
    (d : Duration) (hrest : (sparing r timeout started count before).Rest started' w) :
    (sparing r timeout started count before).Rest started' (r.machine.wait d w) := by
  obtain ⟨rfl, hcount⟩ := hrest
  refine ⟨rfl, ?_⟩
  rw [h.wait]
  refine hcount.imp_right fun ⟨hone, hlate⟩ => ⟨hone, ?_⟩
  exact Nat.le_trans hlate (Nat.sub_le_sub_right (h.wait_forward d w) _)

/-- A pause that is granted is granted in time. -/
theorem sparing_pause (h : r.Tallies timeout started count) {started' d : Duration} {w : σ}
    (hrest : (sparing r timeout started count before).Rest started' w) (hd : d ≠ 0)
    (hgranted : r.granted started' w d = d) :
    (sparing r timeout started count before).Ready started' (r.machine.wait d w) := by
  obtain ⟨rfl, hcount⟩ := hrest
  refine ⟨rfl, ?_⟩
  rw [h.wait]
  rcases hcount with hnone | ⟨-, hlate⟩
  · exact hnone
  · have hleft := Runner.granted_le_left h.isLive h.hasTimeout started' w d
    rw [hgranted, Nat.sub_eq_zero_of_le hlate] at hleft
    exact absurd (Nat.le_zero.mp hleft) hd

theorem sparing_watches (h : r.Tallies timeout started count)
    (hcapture : ∀ w, count w = before → capture' w = r.machine.capture w) :
    (sparing r timeout started count before).Watches r r.machine.wait capture' where
  rest hready := ⟨hready.1, .inl hready.2⟩
  inTime hrest hin := by
    obtain ⟨rfl, hcount⟩ := hrest
    refine ⟨rfl, hcount.resolve_right fun ⟨_, hlate⟩ => ?_⟩
    exact Nat.not_lt_of_le hlate (hin timeout h.hasTimeout)
  waits d hrest := ⟨rfl, sparing_wait h _ hrest⟩
  sleeps d hready := ⟨hready.1, (h.wait _ _).trans hready.2⟩
  pauses hrest hd hgranted := sparing_pause h hrest hd hgranted
  looks _ hready := by
    obtain ⟨rfl, hcount⟩ := hready
    exact ⟨hcapture _ hcount, sparing_look h hcount⟩
  acts hop hready := ⟨hready.1, (h.deed _ hop).trans hready.2⟩
  asks e scope hd hready := ⟨hready.1, (h.decide e scope _ hd).trans hready.2⟩
  tells _ hdry _ := by simp [h.isLive] at hdry
  loops hx hleft := by
    have hpoll : _ ≠ 0 := hx
    simp only [sparing, Duration] at *
    omega
  switches hx hleft := by
    have hpoll : _ ≠ 0 := hx
    simp only [sparing, Duration] at *
    omega

theorem sparing_governs (h : r.Tallies timeout started count) (hfiles : r.PacedFiles)
    (before : Nat) (capture' : Operation σ Screen)
    (hcapture : ∀ w, count w = before → capture' w = r.machine.capture w) :
    (sparing r timeout started count before).Governs r r.machine.wait capture' where
  toWatches := sparing_watches h hcapture
  toJudges := .of_forall fun _ => trivial
  dry htotal := htotal.elim
  fatal h := h.elim
  called hknows hf := hknows _ hf
  included hknows _ hread hparse := by
    have hscript := hfiles hread hparse
    refine ⟨fun f hf => ?_, hscript.body⟩
    exact (List.mem_append.mp hf).elim (hscript.functions f) (hknows f)

end Conduct

namespace Runner

variable {σ : Type} {r : Runner σ} {timeout : Duration} {count : σ → Nat}

/-- Where all loops and switches pause between two looks at the screen, at most one
    look of the whole run begins once the deadline is over: so it is at every point of
    the run and at its end, and once there was a late look no other one is asked for,
    whatever the screen would show then. -/
theorem late_looks_at_most_one {script : Script} {s : Session σ}
    (h : r.Tallies timeout (r.machine.clock.elapsed s.world) count) (hscript : r.PacedScript script)
    (hfiles : r.PacedFiles) (fuel : Nat) :
    (∀ p, r.Reaches (r.beginning fuel script s) p →
      count p.session.world ≤ count s.world + 1) ∧
    (∀ report t, r.execute fuel script s = some (report, t) →
      count t.world ≤ count s.world + 1) ∧
    (∀ capture' : Operation σ Screen,
      (∀ w, count w = count s.world → capture' w = r.machine.capture w) →
      (r.swapped r.machine.wait capture').execute fuel script s = r.execute fuel script s) := by
  have hC := Conduct.sparing_governs h hfiles (count s.world) r.machine.capture fun _ _ => rfl
  have hstart : (Conduct.sparing r timeout (r.machine.clock.elapsed s.world) count
      (count s.world)).At _ _ (r.beginScript script s) :=
    ⟨rfl, hscript.functions, hC.rest ⟨rfl, rfl⟩⟩
  refine ⟨?_, ?_, ?_⟩
  · intro p hp
    exact Conduct.sparing_le (hC.reaches id (fun _ _ => id) hp hscript.body hstart).2.2.2
  · intro report t hrun
    rw [execute_eq, if_pos (begins_of_live h.isLive)] at hrun
    obtain ⟨⟨out, u⟩, hexec, heq⟩ := Option.map_eq_some_iff.mp hrun
    cases heq
    have hends := hC.ends id (fun _ _ => id) fuel script.body hscript.body hstart
    rw [hexec] at hends
    exact Conduct.sparing_le hends.at.2.2
  · intro capture' hcapture
    exact (Conduct.sparing_governs h hfiles _ capture' hcapture).execute id (fun _ _ => id)
      hscript.body hstart

/-- A loop that looks at the screen, with a pause between two looks. -/
def looking (poll : Duration) : Script where
  body := [.loop ⟨1, "", "", "", .directive, none⟩ (.whileScreen .found "x" 2000 (some poll)) []]
  functions := []
  summary := .of [] []

/-- The second look begins just when the deadline is over, and there is no third one. -/
theorem late_looks_at_most_one_looking :
    let r := (ticking 600 ["x"] 1000).tallied 1000 0
    ∃ report t, r.execute 9 (looking 400) (.start .empty (0, 0)) = some (report, t) ∧
      t.world.2 = 1 ∧ t.world.2 ≤ 0 + 1 := by
  intro r
  have hlooks :
      (r.execute 9 (looking 400) (.start .empty (0, 0))).map (·.2.world.2) = some 1 := by
    decide +kernel
  obtain ⟨⟨report, t⟩, hrun, hcount⟩ := Option.map_eq_some_iff.mp hlooks
  have htallies : r.Tallies 1000 0 Prod.snd :=
    tallied_tallies 0 rfl rfl (Machine.ticking_forward 600 ["x"])
  have hscript : r.PacedScript (looking 400) := by
    constructor
    · simp [looking, Paced, Stmt.nodes_eq_cons, Stmt.bodies]
    · simp [looking]
  have hfiles : r.PacedFiles := by
    intro w path text now scope scope' script hread
    have hnone := FileSystem.readText_mem_texts hread
    cases hnone
  exact ⟨report, t, hrun, hcount,
    (late_looks_at_most_one htallies hscript hfiles 9).2.1 report t hrun⟩

/-- A loop that looks again at once goes on looking once the deadline is over. -/
theorem looks_go_on_late :
    let r := (ticking 600 ["x"] 1000).tallied 1000 0
    ∃ script scope' report t,
      Script.parse 0 .empty "<while-found \"x\" 2s poll 0s>" = (.ok script, scope') ∧
      r.Tallies 1000 0 Prod.snd ∧ r.execute 9 script (.start .empty (0, 0)) = some (report, t) ∧
      ¬t.world.2 ≤ 0 + 1 := by
  intro r
  have hlooks : ((Script.parse 0 .empty "<while-found \"x\" 2s poll 0s>").1.toOption.bind
      fun script => (r.execute 9 script (.start .empty (0, 0))).map (·.2.world.2)) = some 2 := by
    decide +kernel
  rcases hparse : Script.parse 0 .empty "<while-found \"x\" 2s poll 0s>" with ⟨_ | script, scope'⟩
  · simp [hparse, Except.toOption] at hlooks
  · simp only [hparse, Except.toOption, Option.bind_some] at hlooks
    obtain ⟨⟨report, t⟩, hrun, hcount⟩ := Option.map_eq_some_iff.mp hlooks
    refine ⟨script, scope', report, t, rfl, ?_, hrun, ?_⟩
    · exact tallied_tallies 0 rfl rfl (Machine.ticking_forward 600 ["x"])
    · rw [hcount]
      decide

end Runner

end ConsoleScript
