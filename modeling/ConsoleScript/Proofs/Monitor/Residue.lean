-- SUMMARY: What replies that break off leave behind, and when a later command does not notice.
import ConsoleScript.Proofs.Monitor.Framing
import ConsoleScript.Proofs.Text.Lines

/-!
# Residues

A reply that breaks off leaves its bytes on the connection, and they stand in front
of the next reply (`readReply_cases`). There they can decide the outcome of a command
that they do not belong to (`residue_decides`). They do not if they are whole lines
and none of these is a complaint: then a later command has the outcome that it would
have on a new connection (`later_outcome_fresh`).
-/

namespace ConsoleScript

/-! ## Texts with a line feed inside -/

namespace Text.Utf8

/-- Only bytes outside of ASCII continue the character. -/
def Pending.Continued : Pending → Prop
  | .none => True
  | .some _ low _ _ => 0x80 ≤ low

theorem start_continued (b : Nat) : (start b).1.Continued := by
  unfold start
  repeat' split
  all_goals simp [Pending.Continued]

theorem step_continued (pending : Pending) (b : Nat) : (step pending b).1.Continued := by
  unfold step
  split
  · exact start_continued b
  · split
    · split
      · trivial
      · exact Nat.le_refl _
    · exact start_continued b

theorem step_line {pending : Pending} (h : pending.Continued) :
    step pending 10 = (.none, piecesFrom pending [] ++ [some '\n']) := by
  cases pending with
  | none => rfl
  | some value low high more =>
    have hlow : ¬low ≤ 10 := fun hle => absurd (Nat.le_trans h hle) (by decide)
    simp [step, hlow, start, piecesFrom]

/-- A line feed ends a character, broken or not. -/
theorem piecesFrom_append_line {pending : Pending} (h : pending.Continued)
    (front rest : List UInt8) :
    piecesFrom pending (front ++ 10 :: rest) =
      piecesFrom pending front ++ some '\n' :: piecesFrom .none rest := by
  induction front generalizing pending with
  | nil =>
    have hline : piecesFrom pending (10 :: rest) =
        (step pending 10).2 ++ piecesFrom (step pending 10).1 rest := by
      cases pending <;> rfl
    rw [List.nil_append, hline, step_line h, List.append_assoc, List.singleton_append]
  | cons b front ih =>
    simp only [List.cons_append, piecesFrom, ih (step_continued pending b.toNat),
      List.append_assoc]

theorem toList_decodeLossy_append_line (front rest : List UInt8) :
    (decodeLossy (front ++ 10 :: rest)).toList =
      (decodeLossy front).toList ++ '\n' :: (decodeLossy rest).toList := by
  simp [decodeLossy, pieces, @piecesFrom_append_line .none trivial]

end Text.Utf8

namespace Monitor

variable {π : Type}

/-! ## Whole lines -/

/-- Where `cleanFrom` stands after a character. -/
def CleanState.next : CleanState → Char → CleanState
  | .sequence, c => if c.isAlpha then .text else .sequence
  | .escape, '[' => .sequence
  | _, '\x1b' => .escape
  | _, _ => .text

theorem cleanFrom_cons (state : CleanState) (c : Char) (rest : List Char) :
    cleanFrom state (c :: rest) = cleanFrom state [c] ++ cleanFrom (state.next c) rest := by
  cases state with
  | sequence => rfl
  | text =>
    by_cases hescape : c = '\x1b'
    · rw [hescape]; rfl
    by_cases hreturn : c = '\r'
    · rw [hreturn]; rfl
    simp [cleanFrom, CleanState.next]
  | escape =>
    by_cases hbracket : c = '['
    · rw [hbracket]; rfl
    by_cases hescape : c = '\x1b'
    · rw [hescape]; rfl
    by_cases hreturn : c = '\r'
    · rw [hreturn]; rfl
    simp [cleanFrom, CleanState.next, hbracket]

theorem cleanFrom_append (state : CleanState) (front rest : List Char) :
    cleanFrom state (front ++ rest) =
      cleanFrom state front ++ cleanFrom (front.foldl CleanState.next state) rest := by
  induction front generalizing state with
  | nil => cases state <;> rfl
  | cons c front ih =>
    rw [List.cons_append, cleanFrom_cons, cleanFrom_cons state c front, ih, List.append_assoc]
    rfl

/-- Nothing, or lines of which the last one is whole: it ends with a line feed that
    does not stand inside a control sequence. -/
inductive Whole : List UInt8 → Prop where
  | nothing : Whole []
  | lines (front : List UInt8)
      (hopen : (Text.Utf8.decodeLossy front).toList.foldl CleanState.next .text ≠ .sequence) :
      Whole (front ++ [10])

theorem cleanFrom_line {state : CleanState} (h : state ≠ .sequence) (rest : List Char) :
    cleanFrom state ('\n' :: rest) = '\n' :: cleanFrom .text rest := by
  cases state with
  | sequence => exact absurd rfl h
  | text | escape => rfl

theorem replyOf_append_line {front : List UInt8} (rest : List UInt8)
    (hopen : (Text.Utf8.decodeLossy front).toList.foldl CleanState.next .text ≠ .sequence) :
    replyOf (front ++ 10 :: rest) = replyOf front ++ "\n" ++ replyOf rest := by
  rw [replyOf, cleanReply, Text.Utf8.toList_decodeLossy_append_line, cleanFrom_append,
    cleanFrom_line hopen, ← List.singleton_append, String.ofList_append, String.ofList_append,
    ← String.append_assoc]
  rfl

theorem replyOf_nil : replyOf [] = "" := by
  decide

namespace Whole

variable {residue rest : List UInt8}

theorem replyOf_append (h : Whole residue) (rest : List UInt8) :
    replyOf (residue ++ rest) = replyOf residue ++ replyOf rest := by
  cases h with
  | nothing => rw [List.nil_append, replyOf_nil, String.empty_append]
  | lines front hopen =>
    rw [List.append_assoc, List.singleton_append, replyOf_append_line rest hopen,
      replyOf_append_line [] hopen, replyOf_nil, String.append_empty]

theorem lines_replyOf_append (h : Whole residue) (rest : List UInt8) :
    Text.lines (replyOf (residue ++ rest)) =
      Text.lines (replyOf residue) ++ Text.lines (replyOf rest) := by
  rw [h.replyOf_append]
  cases h with
  | nothing =>
    have hnone : Text.lines "" = [] := by decide
    rw [replyOf_nil, String.empty_append, hnone, List.nil_append]
  | lines front hopen =>
    rw [replyOf_append_line [] hopen, replyOf_nil, String.append_empty, Text.lines_append_line]

/-- Lines are a complaint if and only if one of their parts is. -/
theorem check_append (h : Whole residue) {command : String} (rest : List UInt8)
    (hquiet : check command (replyOf residue) = .ok ()) :
    check command (replyOf (residue ++ rest)) = check command (replyOf rest) := by
  simp only [check] at hquiet
  split at hquiet
  · cases hquiet
  · next hnone =>
    simp only [check, h.lines_replyOf_append, List.map_append, List.filter_append,
      List.find?_append, hnone, Option.none_or]

theorem append (h : Whole residue) (hrest : Whole rest) : Whole (residue ++ rest) := by
  cases hrest with
  | nothing => rwa [List.append_nil]
  | lines last hlast =>
    cases h with
    | nothing => exact .lines last hlast
    | lines front hopen =>
      rw [← List.append_assoc]
      refine .lines _ ?_
      rw [List.append_assoc, List.singleton_append, Text.Utf8.toList_decodeLossy_append_line,
        List.foldl_append, List.foldl_cons]
      have hline : ∀ {state : CleanState}, state ≠ .sequence → state.next '\n' = .text := by
        intro state hstate
        cases state <;> first | rfl | exact absurd rfl hstate
      rwa [hline hopen]

/-- The prompt has no line feed, so it does not begin in whole lines. -/
theorem prompt_suffix (h : Whole residue) {received : List UInt8} :
    prompt <:+ residue ++ received ↔ prompt <:+ received := by
  refine ⟨fun hends => ?_, fun hends => hends.trans (List.suffix_append residue received)⟩
  cases h with
  | nothing => exact hends
  | lines front hopen =>
    rw [List.append_assoc] at hends
    have hline : 10 :: received <:+ front ++ ([10] ++ received) :=
      List.suffix_append front (10 :: received)
    have hnot : 10 ∉ prompt := by decide
    rcases List.suffix_or_suffix_of_suffix hends hline with hprompt | hlong
    · refine (List.suffix_cons_iff.mp hprompt).resolve_left fun heq => hnot ?_
      rw [heq]
      exact List.mem_cons_self
    · exact absurd (hlong.subset List.mem_cons_self) hnot

end Whole

/-! ## Reading after whole lines -/

/-- The bytes that can be read before the connection ends or falls silent. -/
def arrived : List Received → List UInt8
  | .bytes (b :: more) :: rest => b :: more ++ arrived rest
  | _ => []

theorem feed_cases (buffer bytes : List UInt8) :
    (∀ residue, Whole residue →
      feed (residue ++ buffer) bytes = (none, residue ++ (buffer ++ bytes))) ∨
    ∃ body, ∀ residue, Whole residue →
      feed (residue ++ buffer) bytes = (some (replyOf (residue ++ body)), []) := by
  by_cases hends : prompt <:+ buffer ++ bytes
  · obtain ⟨body, hbody⟩ := hends
    refine .inr ⟨body, fun residue _ => feed_complete ?_⟩
    rw [List.append_assoc, ← hbody, List.append_assoc]
  · refine .inl fun residue hwhole => ?_
    rw [← hwhole.prompt_suffix, ← List.append_assoc, ← List.isSuffixOf_iff_suffix] at hends
    rw [feed, ← List.append_assoc]
    exact if_neg hends

/-- Reading goes the same way after whole lines. A reply that breaks off is kept, and
    one that is complete has the lines in front. -/
theorem readReply_cases (buffer : List UInt8) (incoming : List Received) :
    (∃ e rest, ∀ residue, Whole residue → readReply (residue ++ buffer) incoming =
      (.error e, residue ++ (buffer ++ arrived incoming), rest)) ∨
    ∃ body rest, ∀ residue, Whole residue →
      readReply (residue ++ buffer) incoming = (.ok (replyOf (residue ++ body)), [], rest) := by
  induction incoming generalizing buffer with
  | nil => exact .inl ⟨.closed, [], fun residue _ => by simp [readReply, arrived]⟩
  | cons received rest ih =>
    cases received with
    | silence =>
      exact .inl ⟨.wouldBlock, .silence :: rest, fun residue _ => by simp [readReply, arrived]⟩
    | bytes chunk =>
      cases chunk with
      | nil => exact .inl ⟨.closed, rest, fun residue _ => by simp [readReply, arrived]⟩
      | cons b more =>
        rcases feed_cases buffer (b :: more) with hfeed | ⟨body, hfeed⟩
        · rcases ih (buffer ++ (b :: more)) with ⟨e, later, hread⟩ | ⟨body, later, hread⟩
          · refine .inl ⟨e, later, fun residue hwhole => ?_⟩
            rw [readReply.eq_4 _ _ _ (List.cons_ne_nil b more), hfeed residue hwhole]
            simpa only [arrived, List.append_assoc] using hread residue hwhole
          · refine .inr ⟨body, later, fun residue hwhole => ?_⟩
            rw [readReply.eq_4 _ _ _ (List.cons_ne_nil b more), hfeed residue hwhole]
            exact hread residue hwhole
        · refine .inr ⟨body, rest, fun residue hwhole => ?_⟩
          rw [readReply.eq_4 _ _ _ (List.cons_ne_nil b more), hfeed residue hwhole]

/-! ## Commands after whole lines -/

namespace Connection

/-- What arrives of the reply to a command if it breaks off. -/
def partialReply (peer : Peer π) (text : String) (c : Connection π) : List UInt8 :=
  match peer text c.peer with
  | (.error _, _) => []
  | (.ok received, _) => arrived (c.incoming.filter (· ≠ .silence) ++ received)

theorem command_cases (peer : Peer π) (text : String) (c : Connection π) :
    (∃ e incoming state, ∀ residue, Whole residue →
      { c with buffer := residue }.command peer text =
        (.error (.io e), ⟨residue ++ c.partialReply peer text, incoming, state⟩)) ∨
    ∃ body incoming state, ∀ residue, Whole residue →
      { c with buffer := residue }.command peer text =
        (check text (replyOf (residue ++ body)), ⟨[], incoming, state⟩) := by
  match hpeer : peer text c.peer with
  | (.error e, state) =>
    refine .inl ⟨e, c.incoming, state, fun residue _ => ?_⟩
    simp only [command, partialReply, hpeer, List.append_nil]
  | (.ok received, state) =>
    rcases readReply_cases [] (c.incoming.filter (· ≠ .silence) ++ received) with
      ⟨e, rest, hread⟩ | ⟨body, rest, hread⟩
    · refine .inl ⟨e, rest, state, fun residue hwhole => ?_⟩
      have h := hread residue hwhole
      rw [List.append_nil, List.nil_append] at h
      simp only [command, partialReply, hpeer, receive, h]
    · refine .inr ⟨body, rest, state, fun residue hwhole => ?_⟩
      have h := hread residue hwhole
      rw [List.append_nil] at h
      simp only [command, hpeer, receive, h]

/-- The connection after some commands. -/
def after (peer : Peer π) (texts : List String) (c : Connection π) : Connection π :=
  texts.foldl (fun c text => (c.command peer text).2) c

/-- What has arrived of the replies that break off satisfies `P`. -/
def BreaksOff (P : List UInt8 → Prop) (peer : Peer π) : List String → Connection π → Prop
  | [], _ => True
  | text :: rest, c =>
    ((∃ e, (c.command peer text).1 = .error (.io e)) → P (c.partialReply peer text)) ∧
      BreaksOff P peer rest (c.command peer text).2

end Connection

/-- Whole lines that a command does not take for a complaint. -/
structure Harmless (text : String) (residue : List UInt8) : Prop where
  whole : Whole residue
  quiet : check text (replyOf residue) = .ok ()

theorem Harmless.append {text : String} {residue rest : List UInt8} (h : Harmless text residue)
    (hrest : Harmless text rest) : Harmless text (residue ++ rest) where
  whole := h.whole.append hrest.whole
  quiet := (h.whole.check_append rest h.quiet).trans hrest.quiet

theorem harmless_nil (text : String) : Harmless text [] where
  whole := .nothing
  quiet := by rw [replyOf_nil]; rfl

namespace Connection

variable {peer : Peer π} {text : String}

/-- What is on the connection stays harmless if what breaks off is. -/
theorem harmless_command {c : Connection π} {earlier : String} (hbuffer : Harmless text c.buffer)
    (hpartial : (∃ e, (c.command peer earlier).1 = .error (.io e)) →
      Harmless text (c.partialReply peer earlier)) :
    Harmless text (c.command peer earlier).2.buffer := by
  rcases command_cases peer earlier c with ⟨e, incoming, state, h⟩ | ⟨body, incoming, state, h⟩
  · have hcommand := h c.buffer hbuffer.whole
    rw [hcommand]
    exact hbuffer.append (hpartial ⟨e, by rw [hcommand]⟩)
  · rw [h c.buffer hbuffer.whole]
    exact harmless_nil text

theorem harmless_after {c : Connection π} {earlier : List String}
    (hbuffer : Harmless text c.buffer) (hbreaks : c.BreaksOff (Harmless text) peer earlier) :
    Harmless text (c.after peer earlier).buffer := by
  induction earlier generalizing c with
  | nil => exact hbuffer
  | cons first rest ih => exact ih (harmless_command hbuffer hbreaks.1) hbreaks.2

theorem check_ne_io (text reply : String) (e : SystemError) :
    check text reply ≠ .error (.io e) := by
  simp only [check]
  split <;> simp

/-- After harmless lines a command has the outcome that it has without them. -/
theorem command_harmless (peer : Peer π) {c : Connection π} (hbuffer : Harmless text c.buffer) :
    (c.command peer text).1 = ({ c with buffer := [] }.command peer text).1 ∧
    ∀ {result : Except MachineError Unit} {rest : Connection π}, (∀ e, result ≠ .error (.io e)) →
      { c with buffer := [] }.command peer text = (result, rest) →
        c.command peer text = (result, rest) := by
  rcases command_cases peer text c with ⟨e, incoming, state, h⟩ | ⟨body, incoming, state, h⟩
  · have hnew := h [] .nothing
    refine ⟨by rw [hnew, h c.buffer hbuffer.whole], fun hresult hrun => ?_⟩
    rw [hrun] at hnew
    exact absurd (congrArg Prod.fst hnew) (hresult e)
  · have hquiet := hbuffer.whole.check_append body hbuffer.quiet
    have hsame := h c.buffer hbuffer.whole
    rw [hquiet] at hsame
    rw [hsame, h [] .nothing]
    exact ⟨rfl, fun _ hrun => hrun⟩

end Connection

/-- If the replies that broke off before left harmless lines, a command has the outcome
    that it has on a new connection. Where its own reply is complete, that is what the
    body of the reply stands for, and nothing is left on the connection. -/
theorem later_outcome_fresh {peer : Peer π} {c : Connection π} {earlier : List String}
    {text : String} (hbuffer : c.buffer = [])
    (hbreaks : c.BreaksOff (Harmless text) peer earlier) :
    ((c.after peer earlier).command peer text).1 =
      ({ c.after peer earlier with buffer := [] }.command peer text).1 ∧
    ∀ (x : Exchange) (received later : List Received) (state : π), x.command = text →
      peer text (c.after peer earlier).peer = (.ok received, state) →
      (c.after peer earlier).incoming.filter (· ≠ .silence) ++ received = x.reads ++ later →
        (c.after peer earlier).command peer text =
          (check text (replyOf x.body), ⟨[], later, state⟩) := by
  have hharmless : Harmless text (c.after peer earlier).buffer :=
    Connection.harmless_after (hbuffer ▸ harmless_nil text) hbreaks
  obtain ⟨hsame, hcomplete⟩ := Connection.command_harmless peer hharmless
  refine ⟨hsame, ?_⟩
  rintro x received later state rfl hpeer hreads
  exact hcomplete (Connection.check_ne_io _ _) (Connection.command_exchange rfl hpeer hreads)

/-- The other side sends a reply after each command. -/
def replying : Peer (List (List Received)) := fun _ replies =>
  (.ok (replies.headD []), replies.tail)

/-- The echo of a key arrives without the prompt, and the next command is refused for
    its own reply only. -/
theorem later_outcome_fresh_echo :
    let c : Connection (List (List Received)) :=
      ⟨[], [], [[.bytes (Text.Utf8.encode "sendkey \x1b[Ka\r\n"), .silence], refused.reads]⟩
    (c.command replying "sendkey a\n").1 = .error (.io .wouldBlock) ∧
    (c.after replying ["sendkey a\n"]).buffer = Text.Utf8.encode "sendkey \x1b[Ka\r\n" ∧
    (c.after replying ["sendkey a\n"]).command replying "screendump /x\n" =
      (.error (.refused "screendump /x: Error: no space"), ⟨[], [], []⟩) := by
  intro c
  have hok : (check "screendump /x\n" (replyOf (c.partialReply replying "sendkey a\n"))).isOk =
      true := by
    decide +kernel
  have hquiet : check "screendump /x\n" (replyOf (c.partialReply replying "sendkey a\n")) =
      .ok () := by
    cases hcheck : check "screendump /x\n" (replyOf (c.partialReply replying "sendkey a\n")) with
    | error e =>
      rw [hcheck] at hok
      cases hok
    | ok value => rfl
  have hharmless : Harmless "screendump /x\n" (c.partialReply replying "sendkey a\n") :=
    ⟨.lines (Text.Utf8.encode "sendkey \x1b[Ka\r") (by decide +kernel), hquiet⟩
  have hbreaks : c.BreaksOff (Harmless "screendump /x\n") replying ["sendkey a\n"] :=
    ⟨fun _ => hharmless, trivial⟩
  obtain ⟨-, hcomplete⟩ := later_outcome_fresh rfl hbreaks
  refine ⟨rfl, rfl, ?_⟩
  exact (hcomplete refused refused.reads [] [] rfl rfl rfl).trans rfl

/-- What is left of a reply that broke off inside a line makes the next command fail,
    which succeeds on a new connection. -/
theorem residue_decides :
    let c : Connection (List (List Received)) :=
      ⟨[], [], [[.bytes (Text.Utf8.encode "Error")],
        [.bytes (Text.Utf8.encode "sendkey b\r\n" ++ prompt)]]⟩
    (c.command replying "sendkey a\n").1 = .error (.io .closed) ∧
    ((c.after replying ["sendkey a\n"]).command replying "sendkey b\n").1 =
      .error (.refused "sendkey b: Errorsendkey b") ∧
    ({ c.after replying ["sendkey a\n"] with buffer := [] }.command replying "sendkey b\n").1 =
      .ok () :=
  ⟨rfl, rfl, rfl⟩

end Monitor

end ConsoleScript
