-- SUMMARY: Dry runs end, however functions and files refer to each other.
import ConsoleScript.Machine.DryRun
import ConsoleScript.Proofs.Run.Conduct.Points
import ConsoleScript.Proofs.Run.Files
import ConsoleScript.Proofs.Script.Extent

/-!
# Dry runs

A dry run goes through every loop once, but it follows calls and included files, and
these may lead back to where they came from. It does not enter a function that it is
in already, nor a file that is running. Functions may be redefined while they run;
still there are only so many names, and only so many files, so that each call and
each file leaves fewer to be entered: these are counted by `room`. In between, a
statement goes on with one inside of it, which is smaller. So there is an amount of
fuel that is enough (`need`), and with more than that a dry run does nothing else.
-/

namespace ConsoleScript

namespace Runner

variable {σ : Type} {r : Runner σ}

/-- All files that can be read at any time are listed, each with the name under which
    it counts as running and with its text. -/
def ReadsOnly (r : Runner σ) (files : List (String × String)) : Prop :=
  ∀ {w path text}, (r.filesIn w).readText path = .ok text →
    (Session.fileKey (r.filesIn w) path, text) ∈ files

/-- Files that stay as they are can be listed. -/
theorem readsOnly_texts (hfiles : ∀ w, r.filesIn w = r.files) : r.ReadsOnly r.files.texts := by
  intro w path text hread
  rw [hfiles] at hread ⊢
  exact FileSystem.readText_mem_texts hread

end Runner

/-! ## What is left to be entered -/

/-- The names that functions may have, the files that may be included, and how many
    statements their bodies may have. -/
structure Horizon where
  names : List String
  files : List (String × String)
  size : Nat

namespace Horizon

/-- What can come up in a run of a script: its own functions, and those of the files. -/
def of (script : Script) (files : List (String × String)) : Horizon where
  names := script.functions.map (·.name) ++ files.flatMap fun file => Script.functionNames file.2
  files := files
  size := (script.functions.flatMap fun f => Stmt.nodesAll f.body).length +
    (files.flatMap fun file => Text.lines file.2).length

/-- Whether a name or a file can be entered. -/
def isFree (a : Surroundings) : String ⊕ String → Bool
  | .inl name => !a.calls.any (·.name == name)
  | .inr key => !a.includes.any (Path.alike key)

/-- All names and files. -/
def entrances (h : Horizon) : List (String ⊕ String) :=
  h.names.map .inl ++ h.files.map fun file => .inr file.1

/-- How many functions and files can still be entered, one inside of the other. -/
def room (h : Horizon) (a : Surroundings) : Nat := (h.entrances.filter (isFree a)).length

/-- An amount of fuel that is enough for a list of statements. -/
def need (h : Horizon) (a : Surroundings) (ss : List Stmt) : Nat :=
  h.room a * (h.size + 1) + (Stmt.nodesAll ss).length + 1

variable {h : Horizon} {a b : Surroundings}

theorem need_pos (ss : List Stmt) : 0 < h.need a ss := Nat.succ_pos _

/-- What is entered cannot be entered again, and nothing becomes free. -/
theorem room_lt {x : String ⊕ String} (hx : x ∈ h.entrances) (hfree : isFree a x = true)
    (htaken : isFree b x = false) (hmono : ∀ y, isFree b y = true → isFree a y = true) :
    h.room b < h.room a := by
  have hfilter :
      h.entrances.filter (isFree b) = (h.entrances.filter (isFree a)).filter (isFree b) := by
    rw [List.filter_filter]
    refine List.filter_congr fun y _ => ?_
    cases hb : isFree b y with
    | false => rfl
    | true => rw [hmono y hb, Bool.and_self]
  rw [room, room, hfilter, List.length_filter_lt_length_iff_exists]
  exact ⟨x, List.mem_filter.mpr ⟨hx, hfree⟩, by simp [htaken]⟩

theorem room_inCall {call : Call} (hname : call.name ∈ h.names)
    (hnew : a.calls.any (·.name == call.name) = false) : h.room (a.inCall call) < h.room a := by
  refine room_lt (x := .inl call.name) ?_ ?_ ?_ ?_
  · exact List.mem_append_left _ (List.mem_map_of_mem hname)
  · simp [isFree, hnew]
  · simp [isFree, Surroundings.inCall]
  · intro y hy
    cases y with
    | inl name =>
      simp only [isFree, Surroundings.inCall, List.any_cons, Bool.not_or, Bool.and_eq_true] at hy
      exact hy.2
    | inr key => exact hy

theorem room_inFile {key dir text : String} (hfile : (key, text) ∈ h.files)
    (hnew : a.includes.any (Path.alike key) = false) : h.room (a.inFile key dir) < h.room a := by
  refine room_lt (x := .inr key) ?_ ?_ ?_ ?_
  · exact List.mem_append_right _ (List.mem_map.mpr ⟨_, hfile, rfl⟩)
  · simp [isFree, hnew]
  · simp [isFree, Surroundings.inFile, Path.alike]
  · intro y hy
    cases y with
    | inl name => exact hy
    | inr other =>
      simp only [isFree, Surroundings.inFile, List.any_cons, Bool.not_or, Bool.and_eq_true] at hy
      exact hy.2

/-- Entering something leaves enough fuel for a body of the greatest size. -/
theorem need_lt_of_room {ss inner : List Stmt} (hroom : h.room b < h.room a)
    (hsize : (Stmt.nodesAll inner).length ≤ h.size) : h.need b inner < h.need a ss := by
  have hmul : (h.room b + 1) * (h.size + 1) ≤ h.room a * (h.size + 1) :=
    Nat.mul_le_mul_right _ hroom
  rw [Nat.add_mul, Nat.one_mul] at hmul
  unfold need
  omega

/-- A statement inside of another one needs less, where the same can be entered. -/
theorem need_lt_of_body {x : Stmt} {ss inner : List Stmt} (hx : x ∈ ss) (hinner : inner ∈ x.bodies)
    (hroom : h.room b = h.room a) : h.need b inner < h.need a ss := by
  have hbody : (Stmt.nodesAll inner).Sublist (x.bodies.flatMap Stmt.nodesAll) :=
    List.sublist_flatten_of_mem (List.mem_map_of_mem hinner)
  have hnodes : x.nodes.Sublist (Stmt.nodesAll ss) := by
    rw [Stmt.nodesAll_eq_flatMap]
    exact List.sublist_flatten_of_mem (List.mem_map_of_mem hx)
  have hinner := hbody.length_le
  have hx := hnodes.length_le
  rw [Stmt.nodes_eq_cons, List.length_cons] at hx
  unfold need
  rw [hroom]
  omega

/-- The size is enough for every file. -/
theorem lines_length_le {script : Script} {files : List (String × String)} {key text : String}
    (hfile : (key, text) ∈ files) :
    (Text.lines text).length ≤ (of script files).size := by
  have hlines : (Text.lines text).Sublist (files.flatMap fun file => Text.lines file.2) :=
    List.sublist_flatten_of_mem (List.mem_map_of_mem hfile)
  exact Nat.le_trans hlines.length_le (Nat.le_add_left _ _)

end Horizon

/-! ## The conduct of dry runs -/

/-- Functions have names that can come up, and bodies that are not too large.
    Everything ends. -/
def Conduct.finite (σ : Type) (h : Horizon) : Conduct σ where
  Allows _ := True
  Knows functions := ∀ f ∈ functions, f.name ∈ h.names ∧ (Stmt.nodesAll f.body).length ≤ h.size
  Rest _ _ := True
  Ready _ _ := True
  Paces _ := True
  Fails _ := True
  Escapes _ _ := False
  Total := True

namespace Conduct

variable {σ : Type} {r : Runner σ} {script : Script} {files : List (String × String)}

theorem finite_knows (files : List (String × String)) :
    (finite σ (.of script files)).Knows script.functions := by
  intro f hf
  have hbody : (Stmt.nodesAll f.body).Sublist
      (script.functions.flatMap fun f => Stmt.nodesAll f.body) :=
    List.sublist_flatten_of_mem (List.mem_map_of_mem hf)
  refine ⟨List.mem_append_left _ (List.mem_map_of_mem hf), ?_⟩
  exact Nat.le_trans hbody.length_le (Nat.le_add_right _ _)

theorem finite_governs (script : Script) (hdry : r.machine.isDryRun = true)
    (hfiles : r.ReadsOnly files) :
    (finite σ (.of script files)).Governs r r.machine.wait r.machine.capture where
  toWatches := .of_forall (fun _ _ => trivial) (fun _ _ => trivial) fun _ => trivial
  toJudges := .of_forall fun _ => trivial
  dry _ := hdry
  fatal h := h.elim
  called _ _ _ _ := trivial
  included hknows _ hread hparse := by
    refine ⟨fun f hf => ?_, fun _ _ => trivial⟩
    rcases List.mem_append.mp hf with hf | hf
    · have hfile := hfiles hread
      constructor
      · exact List.mem_append_right _
          (List.mem_flatMap.mpr ⟨_, hfile, Script.parse_functionNames hparse hf⟩)
      · exact Nat.le_trans (Script.parse_function_length hparse hf) (Horizon.lines_length_le hfile)
    · exact hknows f hf

/-- Each list that a statement opens needs less fuel than the list in which the
    statement stands. -/
theorem opens_need (hdry : r.machine.isDryRun = true) (hfiles : r.ReadsOnly files) {x : Stmt}
    {ss inner : List Stmt} {a b : Surroundings} (hx : x ∈ ss)
    (h : r.Opens (finite σ (.of script files)).Knows a x b inner) :
    (Horizon.of script files).need b inner < (Horizon.of script files).need a ss := by
  cases h with
  | own hinner => exact Horizon.need_lt_of_body hx hinner rfl
  | inLoop hinner => exact Horizon.need_lt_of_body hx hinner rfl
  | @call line name args outs functions f hknows hf hnew =>
    obtain ⟨hname, hsize⟩ := hknows f (List.mem_of_find?_eq_some hf)
    have heq : f.name = name := by simpa using List.find?_some hf
    rw [heq] at hname
    exact Horizon.need_lt_of_room (Horizon.room_inCall hname (hnew hdry)) hsize
  | file hnew hknows hread hparse =>
    have hfile := hfiles hread
    refine Horizon.need_lt_of_room (Horizon.room_inFile hfile hnew) ?_
    exact Nat.le_trans (Script.parse_body_length hparse) (Horizon.lines_length_le hfile)

end Conduct

namespace Runner

variable {σ : Type} {r : Runner σ} {script : Script} {files : List (String × String)}

/-- With enough fuel a list of statements ends, and with more it ends in the same way. -/
theorem exec_ends (hdry : r.machine.isDryRun = true) (hfiles : r.ReadsOnly files)
    {fuel fuel' : Nat} {a : Surroundings} {ss : List Stmt}
    (hfuel : (Horizon.of script files).need a ss ≤ fuel)
    (hfuel' : (Horizon.of script files).need a ss ≤ fuel') :
    (Conduct.finite σ (.of script files)).BodyHolds a ss (r.exec fuel) (r.exec fuel') := by
  have hC := Conduct.finite_governs script hdry hfiles
  induction fuel generalizing fuel' a ss with
  | zero => exact absurd hfuel (Nat.not_le_of_lt (Horizon.need_pos ss))
  | succ fuel ih =>
    cases fuel' with
    | zero => exact absurd hfuel' (Nat.not_le_of_lt (Horizon.need_pos ss))
    | succ fuel' =>
      refine fun s hs => Conduct.Governs.stmts (fun x hx t ht => ?_) hs
      refine hC.stmt (fun hlive => by simp [hdry] at hlive) trivial (fun b inner hopens => ?_) ht
      have hless := Conduct.opens_need hdry hfiles hx hopens
      exact ih (by omega) (by omega)

theorem exec_outcome (hdry : r.machine.isDryRun = true) (hfiles : r.ReadsOnly files)
    {s : Session σ} (hknows : (Conduct.finite σ (.of script files)).Knows s.functions)
    (ss : List Stmt) : ∃ out n, ∀ fuel ≥ n, (r.exec fuel ss).run s = some out := by
  have hs : (Conduct.finite σ (.of script files)).At s.surroundings (fun _ _ => True) s :=
    ⟨rfl, hknows, trivial⟩
  have hends : ∀ fuel ≥ (Horizon.of script files).need s.surroundings ss, _ :=
    fun fuel hfuel => exec_ends hdry hfiles hfuel (Nat.le_refl _) s hs
  cases hrun : (r.exec ((Horizon.of script files).need s.surroundings ss) ss).run s with
  | none =>
    have hsome := (hends _ (Nat.le_refl _)).ends fun _ _ => id
    rw [hrun] at hsome
    exact absurd trivial hsome
  | some out =>
    refine ⟨out, (Horizon.of script files).need s.surroundings ss, fun fuel hfuel => ?_⟩
    exact ((hends fuel hfuel).run_eq fun _ _ => id).trans hrun

/-- A dry run ends. Whatever the functions of the script call, and whatever files it
    includes, if those that can be read are finitely many, then with any amount of fuel
    that is large enough there is one outcome. -/
theorem dry_runs_end (hdry : r.machine.isDryRun = true) (hfiles : r.ReadsOnly files)
    (script : Script) (s : Session σ) :
    ∃ result n, ∀ fuel ≥ n, r.execute fuel script s = some result := by
  by_cases hbegins : r.Begins script s
  · have hknows : (Conduct.finite σ (.of script files)).Knows (r.beginScript script s).functions :=
      Conduct.finite_knows files
    obtain ⟨⟨out, t⟩, n, hruns⟩ := exec_outcome hdry hfiles hknows script.body
    refine ⟨(r.report t (r.findings script s) out, t), n, fun fuel hfuel => ?_⟩
    rw [execute_eq, if_pos hbegins, hruns fuel hfuel, Option.map_some]
  · obtain ⟨result, hresult⟩ : ∃ result, r.execute 0 script s = some result := by
      rw [execute_eq, if_neg hbegins]
      exact ⟨_, rfl⟩
    refine ⟨result, 0, fun fuel _ => ?_⟩
    rw [← hresult, execute_eq, execute_eq, if_neg hbegins, if_neg hbegins]

/-- Tells what it passes, and finds a file that redefines a function and calls it. -/
def rehearser : Runner (List String) where
  machine := DryRun.machine (fun text told => text :: told) ⟨fun _ => 0, fun _ => 0⟩
  debugger := none
  settings := .standard
  files :=
    let text := "<function f>\n<call g>\n<end-function>\n<call f>"
    ⟨[(["again"], .file (Text.Utf8.encode text))], []⟩

/-- Two functions that call each other, and the file on the way. -/
def circular : Script where
  body := [.action ⟨8, "", "", "", .directive, none⟩ (.call "f" [])]
  functions :=
    [⟨"f", 1, 4, [.action ⟨2, "", "", "", .directive, none⟩ (.includeFile "again"),
      .action ⟨3, "", "", "", .directive, none⟩ (.call "g" [])]⟩,
    ⟨"g", 5, 7, [.action ⟨6, "", "", "", .directive, none⟩ (.call "f" [])]⟩]
  summary := .of [] []

theorem dry_runs_end_circular :
    ∃ result n, ∀ fuel ≥ n, rehearser.execute fuel circular (.start .empty []) = some result :=
  dry_runs_end rfl (readsOnly_texts fun _ => rfl) circular _

end Runner

end ConsoleScript
