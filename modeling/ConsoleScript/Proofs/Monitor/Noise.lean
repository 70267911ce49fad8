-- SUMMARY: What a monitor's line editor puts into a reply is taken out again, wherever it stands.
import ConsoleScript.Proofs.Monitor.Framing
import ConsoleScript.Proofs.Text.Lines

/-!
# Noise

The line editor of a monitor repeats each command, and puts control sequences and
carriage returns between the characters (`Noisy`). Cleaning takes out exactly these
(`cleanFrom_noisy`), so what is left of a repeated command is the command, whatever words
it holds, and that is never a complaint (`noise_unheard`).
-/

namespace ConsoleScript

namespace Monitor

variable {π : Type}

/-! ## Cleaning -/

/-- A text with control sequences and carriage returns put between its characters. A
    sequence goes from an escape character and a bracket to the next letter. -/
inductive Noisy : List Char → List Char → Prop where
  | done : Noisy [] []
  | keep (c : Char) {text reply : List Char} (h : Noisy text reply) :
      Noisy (c :: text) (c :: reply)
  | carriageReturn {text reply : List Char} (h : Noisy text reply) : Noisy text ('\r' :: reply)
  | sequence (inside : List Char) (letter : Char) {text reply : List Char}
      (hinside : ∀ c ∈ inside, c.isAlpha = false) (hletter : letter.isAlpha = true)
      (h : Noisy text reply) : Noisy text ('\x1b' :: '[' :: (inside ++ letter :: reply))

/-- No character of the text is one that a line editor puts in. -/
def Plain (text : List Char) : Prop := ∀ c ∈ text, c ≠ '\x1b' ∧ c ≠ '\r'

theorem cleanFrom_sequence {inside : List Char} (hinside : ∀ c ∈ inside, c.isAlpha = false)
    {letter : Char} (hletter : letter.isAlpha = true) (rest : List Char) :
    cleanFrom .sequence (inside ++ letter :: rest) = cleanFrom .text rest := by
  induction inside with
  | nil => rw [List.nil_append, cleanFrom, if_pos hletter]
  | cons c inside ih =>
    obtain ⟨hc, hinside⟩ := List.forall_mem_cons.mp hinside
    rw [List.cons_append, cleanFrom, if_neg (by simp [hc]), ih hinside]

theorem cleanFrom_plain {c : Char} (h : c ≠ '\x1b' ∧ c ≠ '\r') (rest : List Char) :
    cleanFrom .text (c :: rest) = c :: cleanFrom .text rest := by
  simp [cleanFrom, h.1, h.2]

theorem cleanFrom_noisy {text reply : List Char} (hnoisy : Noisy text reply)
    (hplain : Plain text) : cleanFrom .text reply = text := by
  induction hnoisy with
  | done => rfl
  | keep c _ ih =>
    obtain ⟨hc, hplain⟩ := List.forall_mem_cons.mp hplain
    rw [cleanFrom_plain hc, ih hplain]
  | carriageReturn _ ih => exact ih hplain
  | sequence inside letter hinside hletter _ ih =>
    exact (cleanFrom_sequence hinside hletter _).trans (ih hplain)

theorem cleanReply_noisy {text reply : String} (hnoisy : Noisy text.toList reply.toList)
    (hplain : Plain text.toList) : cleanReply reply = text := by
  rw [cleanReply, cleanFrom_noisy hnoisy hplain, String.ofList_toList]

/-! ## Repeated commands -/

/-- A line that a monitor repeats is no complaint. -/
theorem check_echo {line : String} (hline : '\n' ∉ line.toList) (hreturn : '\r' ∉ line.toList) :
    check (line ++ "\n") (line ++ "\n") = .ok () := by
  simp only [check, Text.lines_append_end hline hreturn, Text.trim_append_line]
  simp

/-- A text that can stand in a command. -/
def Writable (text : String) : Prop := ∀ c ∈ text.toList, c ≠ '\n' ∧ c ≠ '\r' ∧ c ≠ '\x1b'

/-- The commands that press a key or write the screen to a file. -/
inductive IsCommand : String → Prop where
  | key (key : KeyCode) (h : Writable key.code) : IsCommand (keyCommand key)
  | dump (path : String) (format : ImageFormat) (h : Writable path) :
      IsCommand (dumpCommand path format)

theorem Writable.append {text more : String} (h : Writable text) (hmore : Writable more) :
    Writable (text ++ more) := by
  intro c hc
  rw [String.toList_append] at hc
  exact (List.mem_append.mp hc).elim (h c) (hmore c)

theorem IsCommand.exists_line {command : String} (h : IsCommand command) :
    ∃ line, Writable line ∧ command = line ++ "\n" := by
  have hkey : Writable "sendkey " := by simp [Writable]
  have hdump : Writable "screendump " := by simp [Writable]
  have hpng : Writable " -f png" := by simp [Writable]
  cases h with
  | key key h => exact ⟨_, hkey.append h, rfl⟩
  | dump path format h =>
    cases format with
    | ppm => exact ⟨_, hdump.append h, rfl⟩
    | png => exact ⟨_, (hdump.append h).append hpng, by simp [dumpCommand, String.append_assoc]⟩

/-- A repeated command is the command again, and no complaint. -/
theorem IsCommand.check_noisy {command body : String} (h : IsCommand command)
    (hnoisy : Noisy command.toList body.toList) :
    cleanReply body = command ∧ check command (cleanReply body) = .ok () := by
  obtain ⟨line, hline, rfl⟩ := h.exists_line
  have hplain : Plain (line ++ "\n").toList := by
    intro c hc
    rw [String.toList_append] at hc
    rcases List.mem_append.mp hc with hc | hc
    · exact ⟨(hline c hc).2.2, (hline c hc).2.1⟩
    · rw [List.mem_singleton.mp hc]
      decide
  have hclean := cleanReply_noisy hnoisy hplain
  refine ⟨hclean, ?_⟩
  rw [hclean]
  exact check_echo (fun hmem => (hline _ hmem).1 rfl) fun hmem => (hline _ hmem).2.1 rfl

/-- A command whose reply is nothing but its noisy repetition succeeds, in whatever reads
    the reply arrives. -/
theorem Connection.command_repeated {peer : Peer π} {x : Exchange} {c : Connection π}
    {received later : List Received} {state : π} (hcommand : IsCommand x.command)
    (hnoisy : Noisy x.command.toList (Text.Utf8.decodeLossy x.body).toList)
    (hbuffer : c.buffer = []) (hpeer : peer x.command c.peer = (.ok received, state))
    (hreads : c.incoming.filter (· ≠ .silence) ++ received = x.reads ++ later) :
    c.command peer x.command = (.ok (), ⟨[], later, state⟩) := by
  have hresult : x.result = .ok () := (hcommand.check_noisy hnoisy).2
  rw [Connection.command_exchange hbuffer hpeer hreads, hresult]

/-- Whatever a line editor puts into the repetition of a command is taken out again, and
    the command does not fail by it. The same holds of any other text of a reply without
    escape characters and carriage returns. -/
theorem noise_unheard :
    (∀ command body, IsCommand command → Noisy command.toList body.toList →
      cleanReply body = command ∧ check command (cleanReply body) = .ok ()) ∧
    ∀ text body, Plain text.toList → Noisy text.toList body.toList → cleanReply body = text :=
  ⟨fun _ _ hcommand hnoisy => hcommand.check_noisy hnoisy,
    fun _ _ hplain hnoisy => cleanReply_noisy hnoisy hplain⟩

/-- The path looks like a complaint. Sequences stand side by side, around an escape
    character, and before a bracket of the path. -/
theorem noise_unheard_path :
    IsCommand "screendump Error[\n" ∧
    cleanReply "\x1b[K\r\x1b[1;\x1b[Dscreendump Error\x1b[\r0m[\r\n\r" = "screendump Error[\n" ∧
    check "screendump Error[\n" "screendump Error[\n" = .ok () ∧
    cleanReply "\r\x1b[K[no" = "[no" := by
  have hdump : dumpCommand "Error[" .ppm = "screendump Error[\n" := by decide +kernel
  have hcommand : IsCommand "screendump Error[\n" := by
    rw [← hdump]
    exact .dump "Error[" .ppm (by simp [Writable])
  have hnoisy : Noisy "screendump Error[\n".toList
      "\x1b[K\r\x1b[1;\x1b[Dscreendump Error\x1b[\r0m[\r\n\r".toList := by
    simp only [String.reduceToList]
    refine .sequence [] 'K' (by simp) (by decide) (.carriageReturn ?_)
    refine .sequence ['1', ';', '\x1b', '['] 'D' (by simp) (by decide) ?_
    iterate 16 refine .keep _ ?_
    refine .sequence ['\r', '0'] 'm' (by simp) (by decide) ?_
    exact .keep _ (.carriageReturn (.keep _ (.carriageReturn .done)))
  have hreply : Noisy "[no".toList "\r\x1b[K[no".toList := by
    simp only [String.reduceToList]
    refine .carriageReturn (.sequence [] 'K' (by simp) (by decide) ?_)
    exact .keep _ (.keep _ (.keep _ .done))
  obtain ⟨hcommands, htexts⟩ := noise_unheard
  obtain ⟨hclean, hcheck⟩ := hcommands _ _ hcommand hnoisy
  rw [hclean] at hcheck
  exact ⟨hcommand, hclean, hcheck, htexts _ _ (by simp [Plain]) hreply⟩

end Monitor

end ConsoleScript
