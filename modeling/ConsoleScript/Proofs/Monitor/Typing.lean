-- SUMMARY: What has been written to a monitor after a text is typed, also when a key fails.
import ConsoleScript.Program
import ConsoleScript.Proofs.Monitor.Keystrokes
import ConsoleScript.Rehearsal.Partner

/-!
# Typing over a monitor

A text is typed key by key until one fails (`Live.Pressed`). A *ledger* tells which bytes
the other side of the connection has taken. By that, typing writes the commands of all
keys if each of them succeeds, and those up to the key that fails otherwise. Only of a
command that cannot be written it is not known how much of it was taken
(`typing_writes_keystrokes`).
-/

namespace ConsoleScript

variable {σ π : Type}

/-! ## Pressing keys one after the other -/

namespace Live

variable {transport : Transport σ} {sleep : Duration → σ → σ} {delay : Duration}
  {world last : σ} {keys rest : List KeyCode}

/-- The keys are pressed one after the other, and each of them succeeds. -/
inductive Pressed (transport : Transport σ) (sleep : Duration → σ → σ) (delay : Duration) :
    σ → List KeyCode → σ → Prop where
  | none (world : σ) : Pressed transport sleep delay world [] world
  | key {world next last : σ} {key : KeyCode} {rest : List KeyCode}
      (hkey : transport.pressKey key world = (.ok (), next))
      (hrest : Pressed transport sleep delay (pause sleep delay next) rest last) :
      Pressed transport sleep delay world (key :: rest) last

/-- Keys that succeed leave the other ones to be pressed. -/
theorem Pressed.pressAll_append (h : Pressed transport sleep delay world keys last)
    (rest : List KeyCode) :
    pressAll transport sleep delay (keys ++ rest) world =
      pressAll transport sleep delay rest last := by
  induction h with
  | none => rfl
  | key hkey hrest ih =>
    rw [List.cons_append, Live.pressAll, hkey]
    exact ih

theorem Pressed.pressAll (h : Pressed transport sleep delay world keys last) :
    pressAll transport sleep delay keys world = (.ok (), last) := by
  have hall := h.pressAll_append []
  rwa [List.append_nil] at hall

/-- The keys before the `i`-th succeed and that one fails. -/
structure Stopped (transport : Transport σ) (sleep : Duration → σ → σ) (delay : Duration)
    (world : σ) (keys : List KeyCode) (i : Fin keys.length) (between : σ) (e : MachineError)
    (last : σ) : Prop where
  before : Pressed transport sleep delay world (keys.take i) between
  fails : transport.pressKey keys[i] between = (.error e, last)

theorem Stopped.pressAll {i : Fin keys.length} {between : σ} {e : MachineError}
    (h : Stopped transport sleep delay world keys i between e last) :
    pressAll transport sleep delay keys world = (.error e, last) := by
  have hkeys : keys = keys.take i ++ keys[i] :: keys.drop (i + 1) := by
    rw [Fin.getElem_fin, List.getElem_cons_drop, List.take_append_drop]
  rw [hkeys, h.before.pressAll_append, Live.pressAll, h.fails]

/-- Either all keys succeed or one is the first to fail. -/
theorem pressed_or_stopped (transport : Transport σ) (sleep : Duration → σ → σ)
    (delay : Duration) (world : σ) (keys : List KeyCode) :
    (∃ last, Pressed transport sleep delay world keys last) ∨
      ∃ i between e last, Stopped transport sleep delay world keys i between e last := by
  induction keys generalizing world with
  | nil => exact .inl ⟨world, .none world⟩
  | cons key rest ih =>
    match hkey : transport.pressKey key world with
    | (.error e, last) => exact .inr ⟨⟨0, Nat.succ_pos _⟩, world, e, last, .none world, hkey⟩
    | (.ok (), next) =>
      rcases ih (pause sleep delay next) with ⟨last, hrest⟩ | ⟨i, between, e, last, hstop⟩
      · exact .inl ⟨last, .key hkey hrest⟩
      · exact .inr ⟨i.succ, between, e, last, .key hkey hstop.before, hstop.fails⟩

end Live

namespace Monitor

/-! ## What was written -/

/-- The bytes that the other side of a connection has taken: a beginning of each line,
    and all of one that can be written. -/
structure Ledger (peer : Peer π) where
  taken : π → List UInt8
  takes : ∀ {line : String}, '\n' ∉ line.toList → ∀ state,
    ∃ part, part <+: Text.Utf8.encode (line ++ "\n") ∧
      taken (peer (line ++ "\n") state).2 = taken state ++ part
  written : ∀ {line : String}, '\n' ∉ line.toList → ∀ {state received},
    (peer (line ++ "\n") state).1 = .ok received →
      taken (peer (line ++ "\n") state).2 = taken state ++ Text.Utf8.encode (line ++ "\n")

namespace Connection

theorem command_peer (peer : Peer π) (text : String) (c : Connection π) :
    (c.command peer text).2.peer = (peer text c.peer).2 := by
  match hpeer : peer text c.peer with
  | (.error e, state) => rw [command, hpeer]
  | (.ok received, state) =>
    simp only [command, hpeer, receive]
    split
    · next h => exact (congrArg (·.2.peer) h).symm
    · next h => exact (congrArg (·.2.peer) h).symm

theorem exists_received_of_command {peer : Peer π} {text : String} {c : Connection π}
    (h : (c.command peer text).1 = .ok ()) : ∃ received, (peer text c.peer).1 = .ok received := by
  match hpeer : peer text c.peer with
  | (.error e, state) => simp [command, hpeer] at h
  | (.ok received, state) => exact ⟨received, rfl⟩

end Connection

/-- A world with a connection in it over which keys are pressed. A pause writes
    nothing. -/
structure Wiring (peer : Peer π) (transport : Transport σ) (sleep : Duration → σ → σ) where
  connection : σ → Connection π
  ledger : Ledger peer
  pressKey : ∀ key world, (connection world).command peer (keyCommand key) =
    ((transport.pressKey key world).1, connection (transport.pressKey key world).2)
  sleep : ∀ d world,
    ledger.taken (connection (sleep d world)).peer = ledger.taken (connection world).peer

namespace Wiring

variable {peer : Peer π} {transport : Transport σ} {sleep : Duration → σ → σ}
  {delay : Duration} {world last : σ} {key : KeyCode} {keys : List KeyCode}

/-- What has been written over the connection. -/
def written (w : Wiring peer transport sleep) (world : σ) : List UInt8 :=
  w.ledger.taken (w.connection world).peer

/-- The command of a key can be written. -/
def Accepts (w : Wiring peer transport sleep) (world : σ) (key : KeyCode) : Prop :=
  ∃ received, (peer (keyCommand key) (w.connection world).peer).1 = .ok received

theorem written_pause (w : Wiring peer transport sleep) (delay : Duration) (world : σ) :
    w.written (Live.pause sleep delay world) = w.written world := by
  rw [Live.pause]
  split
  · rfl
  · exact w.sleep delay world

theorem written_pressKey (w : Wiring peer transport sleep) (key : KeyCode) (world : σ) :
    w.written (transport.pressKey key world).2 =
      w.ledger.taken (peer (keyCommand key) (w.connection world).peer).2 := by
  have hkey := congrArg (·.2.peer) (w.pressKey key world)
  rw [Connection.command_peer] at hkey
  rw [written, hkey]

theorem accepts_of_pressKey (w : Wiring peer transport sleep)
    (h : (transport.pressKey key world).1 = .ok ()) : w.Accepts world key := by
  have hkey := congrArg (·.1) (w.pressKey key world)
  exact Connection.exists_received_of_command (hkey.trans h)

theorem line_of_oneLine (h : key.OneLine) : '\n' ∉ ("sendkey " ++ key.code).toList := by
  have hname : '\n' ∉ "sendkey ".toList := by decide
  rw [String.toList_append]
  exact fun hmem => (List.mem_append.mp hmem).elim hname h

/-- A beginning of the command of a key is written. -/
theorem exists_part (w : Wiring peer transport sleep) (h : key.OneLine) (world : σ) :
    ∃ part, part <+: Text.Utf8.encode (keyCommand key) ∧
      w.written (transport.pressKey key world).2 = w.written world ++ part := by
  rw [w.written_pressKey]
  exact w.ledger.takes (line_of_oneLine h) (w.connection world).peer

/-- The command of a key is written if it can be. -/
theorem written_of_accepts (w : Wiring peer transport sleep) (h : key.OneLine)
    (haccepts : w.Accepts world key) :
    w.written (transport.pressKey key world).2 =
      w.written world ++ Text.Utf8.encode (keyCommand key) := by
  obtain ⟨received, hreceived⟩ := haccepts
  rw [w.written_pressKey]
  exact w.ledger.written (line_of_oneLine h) hreceived

/-- Keys that succeed are written. -/
theorem written_of_pressed (w : Wiring peer transport sleep) (hkeys : ∀ key ∈ keys, key.OneLine)
    (h : Live.Pressed transport sleep delay world keys last) :
    w.written last = w.written world ++ keystrokes keys := by
  induction h with
  | none => simp
  | @key world next last key rest hkey hrest ih =>
    obtain ⟨hfirst, hothers⟩ := List.forall_mem_cons.mp hkeys
    have haccepts : w.Accepts world key := w.accepts_of_pressKey (by rw [hkey])
    have hnext := w.written_of_accepts hfirst haccepts
    rw [hkey] at hnext
    rw [ih hothers, w.written_pause, hnext, keystrokes_cons, List.append_assoc]

end Wiring

open Live (Pressed Stopped)

/-- If every key of a text succeeds, typing it writes the commands of its keys. If one
    fails, typing ends with that error, and the commands up to that key have been written,
    without another byte; but if it is this command that cannot be written, of that one only
    a beginning. One of the two happens. Two texts of characters that have a key are the
    same if typing them writes the same. -/
theorem typing_writes_keystrokes {peer : Peer π} {transport : Transport σ}
    {sleep : Duration → σ → σ} (w : Wiring peer transport sleep)
    (recognise : String → Operation σ Screen) (imageFile : String) (delay : Duration)
    (clock : Clock σ) (text : String) (world : σ) :
    let machine := Live.machine transport recognise imageFile sleep delay clock
    let keys := KeyCode.ofText text
    (∀ last, Pressed transport sleep delay world keys last →
      machine.typeText text world = (.ok (), last) ∧
        w.written last = w.written world ++ keystrokes keys) ∧
    (∀ i between e last, Stopped transport sleep delay world keys i between e last →
      machine.typeText text world = (.error e, last) ∧
        (w.Accepts between keys[i] →
          w.written last = w.written world ++ keystrokes (keys.take (i + 1))) ∧
        ∃ part, part <+: Text.Utf8.encode (keyCommand keys[i]) ∧
          w.written last = w.written world ++ keystrokes (keys.take i) ++ part) ∧
    ((∃ last, Pressed transport sleep delay world keys last) ∨
      ∃ i between e last, Stopped transport sleep delay world keys i between e last) ∧
    ∀ other world' last last' added, KeyCode.Typeable text → KeyCode.Typeable other →
      Pressed transport sleep delay world keys last →
      Pressed transport sleep delay world' (KeyCode.ofText other) last' →
      w.written last = w.written world ++ added → w.written last' = w.written world' ++ added →
        text = other := by
  intro machine keys
  have honeLine : ∀ key ∈ keys, key.OneLine := KeyCode.oneLine_of_ofText
  refine ⟨fun last h => ⟨h.pressAll, w.written_of_pressed honeLine h⟩, ?_,
    Live.pressed_or_stopped transport sleep delay world keys, ?_⟩
  · intro i between e last h
    have hbefore := w.written_of_pressed (fun key hkey => honeLine key (List.mem_of_mem_take hkey))
      h.before
    have hkey : keys[i].OneLine := honeLine _ (List.getElem_mem _)
    have hlast : (transport.pressKey keys[i] between).2 = last := by rw [h.fails]
    refine ⟨h.pressAll, fun haccepts => ?_, ?_⟩
    · rw [← hlast, w.written_of_accepts hkey haccepts, hbefore,
        List.take_succ_eq_append_getElem i.isLt, keystrokes_append, List.append_assoc]
      simp
    · obtain ⟨part, hpart, hwritten⟩ := w.exists_part hkey between
      exact ⟨part, hpart, by rw [← hlast, hwritten, hbefore]⟩
  · intro other world' last last' added htext hother h h' hadded hadded'
    rw [w.written_of_pressed honeLine h, List.append_cancel_left_eq] at hadded
    rw [w.written_of_pressed KeyCode.oneLine_of_ofText h', List.append_cancel_left_eq] at hadded'
    exact keystrokes_ofText_injective htext hother (hadded.trans hadded'.symm)

/-! ## The program's machine behind a socket -/

theorem pieces_append_line {line : List Char} (h : '\n' ∉ line) :
    Text.pieces '\n' (line ++ ['\n']) = [line, []] := by
  induction line with
  | nil => rfl
  | cons c line ih =>
    obtain ⟨hc, hline⟩ := List.ne_and_not_mem_of_not_mem_cons h
    rw [List.cons_append, Text.pieces, if_neg (Ne.symm hc), ih hline]

end Monitor

namespace Rehearsal.Partner

open Monitor

theorem commandLines_line {line : String} (h : '\n' ∉ line.toList) :
    commandLines (line ++ "\n") = [line ++ "\n"] := by
  have hpieces := pieces_append_line h
  simp [commandLines, hpieces, String.ofList_append]

theorem written_hear (command : String) (p : Partner) :
    (p.hear command).2.written = command :: p.written := by
  rw [hear]
  split <;> rfl

/-- A line is heard, unless the connection has ended. -/
theorem written_socket {line : String} (h : '\n' ∉ line.toList) (p : Partner) :
    (socket (line ++ "\n") p).2.written =
      if p.closed then p.written else (line ++ "\n") :: p.written := by
  by_cases hclosed : p.closed = true
  · rw [socket, if_pos hclosed, if_pos hclosed]
  · rw [socket, if_neg hclosed, if_neg hclosed, commandLines_line h, ← written_hear]
    match hhear : p.hear (line ++ "\n") with
    | (none, p) => simp only [hearLines, hhear]
    | (some reply, p) => simp only [hearLines, hhear]

theorem not_closed_of_socket {command : String} {p : Partner} {received : List Received}
    (h : (socket command p).1 = .ok received) : ¬p.closed = true := by
  intro hclosed
  rw [socket, if_pos hclosed] at h
  cases h

/-- What a partner behind a socket has heard. -/
def socketLedger : Ledger socket where
  taken p := p.written.reverse.flatMap Text.Utf8.encode
  takes {line} hline p := by
    by_cases hclosed : p.closed = true
    · exact ⟨[], List.nil_prefix, by simp [written_socket hline, hclosed]⟩
    · exact ⟨_, List.prefix_rfl, by simp [written_socket hline, hclosed]⟩
  written {line} hline p received hreceived := by
    simp [written_socket hline, not_closed_of_socket hreceived]

end Rehearsal.Partner

namespace Program

open Monitor Rehearsal

/-- The way of the program to a monitor. -/
def World.transport (peer : Peer π) : Transport (World (Connection π)) where
  pressKey key := onConnection ((Connection.transport peer).pressKey key)
  screendump path format := onConnection ((Connection.transport peer).screendump path format)

/-- The pauses of the program leave the connection alone. -/
def World.wiring {peer : Peer π} (ledger : Ledger peer) :
    Wiring peer (World.transport peer) World.sleep where
  connection world := world.connection
  ledger := ledger
  pressKey _ _ := rfl
  sleep _ _ := rfl

theorem liveMachine_typeText (host : Host π) (config : Config)
    (recognise : String → Operation (World (Connection π)) Screen) :
    (liveMachine host config).typeText =
      (Live.machine (World.transport host.peer) recognise imageFile World.sleep config.keyDelay
        World.clock).typeText :=
  rfl

end Program

namespace Monitor

open Rehearsal Program
open Live (Stopped)

/-- A partner that answers one key, and ends the connection at the next one. -/
def answersOnce : World (Connection Partner) where
  elapsed := 0
  seconds := 0
  connection :=
    ⟨[], [.silence], .start [[Text.Utf8.encode "sendkey a\r\n" ++ prompt]] false false⟩
  stepper := .start false false [] []

/-- The machine of the program behind such a partner. -/
def remote : Machine (World (Connection Partner)) :=
  Live.machine (World.transport Partner.socket) (fun _ world => (.ok [], world)) imageFile
    World.sleep 20 World.clock

/-- The second key of the text gets no answer, and is written all the same. -/
theorem typing_writes_keystrokes_hungUp :
    ∃ last, remote.typeText "aéb" answersOnce = (.error (.io .closed), last) ∧
      (World.wiring Partner.socketLedger).written last =
        Text.Utf8.encode "sendkey a\nsendkey b\n" := by
  obtain ⟨-, hstopped, -, -⟩ := typing_writes_keystrokes (World.wiring Partner.socketLedger)
    (fun _ world => (.ok [], world)) imageFile 20 World.clock "aéb" answersOnce
  have hstop : Stopped (World.transport Partner.socket) World.sleep 20 answersOnce
      (KeyCode.ofText "aéb") ⟨1, by decide⟩
      (World.sleep 20 ((World.transport Partner.socket).pressKey ⟨"a"⟩ answersOnce).2)
      (.io .closed) (remote.typeText "aéb" answersOnce).2 :=
    ⟨.key rfl (.none _), rfl⟩
  obtain ⟨htype, hwritten, -⟩ := hstopped _ _ _ _ hstop
  refine ⟨_, htype, (hwritten ⟨_, rfl⟩).trans ?_⟩
  decide +kernel

/-- Once the connection has ended, the first key of a text fails and nothing more is
    written. -/
theorem unwritten_key :
    let first := remote.typeText "ab" answersOnce
    let second := remote.typeText "ab" first.2
    let written := (World.wiring Partner.socketLedger).written
    second.1 = .error (.io .brokenPipe) ∧
      written second.2 ≠ written first.2 ++ keystrokes ((KeyCode.ofText "ab").take 1) :=
  ⟨rfl, by decide +kernel⟩

end Monitor

end ConsoleScript
