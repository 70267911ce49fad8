-- SUMMARY: However the replies of a monitor are cut into reads, each command gets its own.
import ConsoleScript.Monitor

/-!
# Framing

A reply is a body with the prompt after it, and arrives in reads of any size. The
prompt has no end that is also its beginning, so where the body does not contain it,
what was received ends with the prompt only once the reply is complete
(`infix_of_suffix`). The bytes of a reply are therefore put together again before
they are decoded, and nothing of them is left for the next command
(`replies_unmixed`).
-/

namespace ConsoleScript.Monitor

variable {π : Type}

/-! ## The prompt -/

theorem prompt_drop_not_isPrefixOf :
    ∀ k < prompt.length, 0 < k → (prompt.drop k).isPrefixOf prompt = false := by
  decide

/-- What stands before a prompt that overlaps with another one holds all of that. -/
theorem isPrefix_of_overlap {before after : List UInt8} (hbefore : before ≠ [])
    (h : prompt ++ after = before ++ prompt) : prompt <+: before := by
  have hwhole : prompt <+: before ++ prompt := ⟨after, h⟩
  refine List.prefix_of_prefix_length_le hwhole (List.prefix_append before prompt) ?_
  refine Nat.le_of_not_lt fun hk => ?_
  -- else the rest of the one prompt would begin the other
  have hrest : prompt.drop before.length ++ after = prompt := by
    have hdrop := congrArg (List.drop before.length) h
    rwa [List.drop_append_of_le_length (Nat.le_of_lt hk), List.drop_left] at hdrop
  have hnot := prompt_drop_not_isPrefixOf _ hk (List.length_pos_iff.mpr hbefore)
  have hyes : prompt.drop before.length <+: prompt := ⟨after, hrest⟩
  rw [List.isPrefixOf_iff_prefix.mpr hyes] at hnot
  cases hnot

/-- If less than a whole reply ends with the prompt, the body contains it. -/
theorem infix_of_suffix {received rest body : List UInt8} (h : received ++ rest = body ++ prompt)
    (hrest : rest ≠ []) (hends : prompt <:+ received) : prompt <:+: body := by
  obtain ⟨before, rfl⟩ := hends
  have hlength := congrArg List.length h
  have hpos : 0 < rest.length := List.length_pos_iff.mpr hrest
  simp only [List.length_append] at hlength
  rw [List.append_assoc] at h
  have hbefore : before <+: body :=
    List.prefix_of_prefix_length_le ⟨_, h⟩ (List.prefix_append body prompt) (by omega)
  obtain ⟨middle, rfl⟩ := hbefore
  rw [List.append_assoc, List.append_cancel_left_eq] at h
  have hmiddle : middle ≠ [] := by
    rintro rfl
    simp only [List.append_nil] at hlength
    omega
  exact (isPrefix_of_overlap hmiddle h).isInfix.trans (List.suffix_append before middle).isInfix

/-! ## Reading one reply -/

/-- The reply that a body stands for. -/
def replyOf (body : List UInt8) : String := cleanReply (Text.Utf8.decodeLossy body)

theorem feed_incomplete {buffer bytes rest body : List UInt8} (hclear : ¬prompt <:+: body)
    (h : buffer ++ bytes ++ rest = body ++ prompt) (hrest : rest ≠ []) :
    feed buffer bytes = (none, buffer ++ bytes) := by
  refine if_neg fun hends => hclear (infix_of_suffix h hrest ?_)
  exact List.isSuffixOf_iff_suffix.mp hends

theorem feed_complete {buffer bytes body : List UInt8} (h : buffer ++ bytes = body ++ prompt) :
    feed buffer bytes = (some (replyOf body), []) := by
  have hends : prompt.isSuffixOf (buffer ++ bytes) = true := by
    rw [h, List.isSuffixOf_iff_suffix]
    exact List.suffix_append body prompt
  have hbody : (buffer ++ bytes).take ((buffer ++ bytes).length - prompt.length) = body := by
    rw [h, List.length_append, Nat.add_sub_cancel, List.take_left]
  simp only [feed, hends, ↓reduceIte, hbody, replyOf]

theorem flatten_ne_nil {chunks : List (List UInt8)} (hchunks : ∀ chunk ∈ chunks, chunk ≠ [])
    (hne : chunks ≠ []) : chunks.flatten ≠ [] := by
  intro hnil
  obtain ⟨chunk, rest, rfl⟩ := List.exists_cons_of_ne_nil hne
  exact hchunks chunk List.mem_cons_self (List.flatten_eq_nil_iff.mp hnil chunk List.mem_cons_self)

/-- Reading goes on until the last read of a reply, and leaves the reads after it. -/
theorem readReply_chunks {chunks : List (List UInt8)} {buffer body : List UInt8}
    (later : List Received) (hclear : ¬prompt <:+: body)
    (hchunks : ∀ chunk ∈ chunks, chunk ≠ []) (hne : chunks ≠ [])
    (h : buffer ++ chunks.flatten = body ++ prompt) :
    readReply buffer (chunks.map .bytes ++ later) = (.ok (replyOf body), [], later) := by
  induction chunks generalizing buffer with
  | nil => exact absurd rfl hne
  | cons chunk rest ih =>
    obtain ⟨hchunk, hrest⟩ := List.forall_mem_cons.mp hchunks
    rw [List.map_cons, List.cons_append, readReply.eq_4 _ _ _ hchunk]
    rw [List.flatten_cons] at h
    cases rest with
    | nil =>
      rw [List.flatten_nil, List.append_nil] at h
      rw [feed_complete h]
      rfl
    | cons next more =>
      rw [← List.append_assoc] at h
      rw [feed_incomplete hclear h (flatten_ne_nil hrest (List.cons_ne_nil next more))]
      exact ih hrest (List.cons_ne_nil next more) h

/-! ## Commands one after the other -/

/-- A command, the body of the reply to it, and the reads in which that and the
    prompt arrive. -/
structure Exchange where
  command : String
  body : List UInt8
  chunks : List (List UInt8)
  clear : ¬prompt <:+: body
  nonempty : ∀ chunk ∈ chunks, chunk ≠ []
  whole : chunks.flatten = body ++ prompt

namespace Exchange

/-- What is read after the command. -/
def reads (x : Exchange) : List Received := x.chunks.map .bytes

/-- The outcome of the command. -/
def result (x : Exchange) : Except MachineError Unit := check x.command (replyOf x.body)

theorem chunks_ne_nil (x : Exchange) : x.chunks ≠ [] := by
  intro hnil
  have hwhole := x.whole
  rw [hnil, List.flatten_nil] at hwhole
  exact List.append_ne_nil_of_right_ne_nil x.body (List.cons_ne_nil _ _) hwhole.symm

/-- Every read but the last leaves the reply incomplete. -/
theorem feed_chunk (x : Exchange) (i : Nat) (hi : i < x.chunks.length) :
    feed (x.chunks.take i).flatten x.chunks[i] =
      if i + 1 < x.chunks.length then (none, (x.chunks.take (i + 1)).flatten)
      else (some (replyOf x.body), []) := by
  have hnext : (x.chunks.take i).flatten ++ x.chunks[i] = (x.chunks.take (i + 1)).flatten := by
    rw [List.take_succ_eq_append_getElem hi, List.flatten_append, List.flatten_singleton]
  have hsplit : (x.chunks.take (i + 1)).flatten ++ (x.chunks.drop (i + 1)).flatten =
      x.body ++ prompt := by
    rw [← List.flatten_append, List.take_append_drop, x.whole]
  split
  · next hmore =>
    rw [← hnext] at hsplit ⊢
    refine feed_incomplete x.clear hsplit (flatten_ne_nil (fun chunk hchunk => ?_) ?_)
    · exact x.nonempty chunk (List.mem_of_mem_drop hchunk)
    · simpa using hmore
  · next hlast =>
    rw [List.drop_eq_nil_of_le (Nat.le_of_not_lt hlast), List.flatten_nil, List.append_nil,
      ← hnext] at hsplit
    exact feed_complete hsplit

end Exchange

/-- After each command the reads of the reply to it come first: what was waiting and
    what the other side sends then. `waiting` is there before the first command. -/
inductive Serves (peer : Peer π) : List Received → π → List Exchange → Prop where
  | done (waiting : List Received) (state : π) : Serves peer waiting state []
  | next {waiting received later : List Received} {state state' : π} {x : Exchange}
      {rest : List Exchange} (hpeer : peer x.command state = (.ok received, state'))
      (hreads : waiting.filter (· ≠ .silence) ++ received = x.reads ++ later)
      (hrest : Serves peer later state' rest) : Serves peer waiting state (x :: rest)

namespace Connection

/-- The outcomes of commands, each with the connection that it leaves. -/
def history (peer : Peer π) : List String → Connection π →
    List (Except MachineError Unit × Connection π)
  | [], _ => []
  | text :: rest, c => c.command peer text :: history peer rest (c.command peer text).2

theorem command_exchange {peer : Peer π} {x : Exchange} {c : Connection π}
    {received later : List Received} {state : π} (hbuffer : c.buffer = [])
    (hpeer : peer x.command c.peer = (.ok received, state))
    (hreads : c.incoming.filter (· ≠ .silence) ++ received = x.reads ++ later) :
    c.command peer x.command = (x.result, ⟨[], later, state⟩) := by
  have hread : readReply [] (x.reads ++ later) = (.ok (replyOf x.body), [], later) :=
    readReply_chunks later x.clear x.nonempty x.chunks_ne_nil x.whole
  simp only [command, hpeer, receive, hbuffer, hreads, hread]
  rfl

end Connection

open Connection (history)

/-- Each command gets the outcome that the body of its own reply stands for, and leaves
    no bytes behind, however the replies are cut into reads. No read but the last one of
    a reply gives anything. -/
theorem replies_unmixed {peer : Peer π} {exchanges : List Exchange} {c : Connection π}
    (hbuffer : c.buffer = []) (hserves : Serves peer c.incoming c.peer exchanges) :
    ((history peer (exchanges.map (·.command)) c).map fun (result, after) =>
      (result, after.buffer)) =
        exchanges.map (fun x => (check x.command (replyOf x.body), [])) ∧
    ∀ x ∈ exchanges, ∀ i (hi : i < x.chunks.length),
      feed (x.chunks.take i).flatten x.chunks[i] =
        if i + 1 < x.chunks.length then (none, (x.chunks.take (i + 1)).flatten)
        else (some (replyOf x.body), []) := by
  refine ⟨?_, fun x _ => x.feed_chunk⟩
  induction exchanges generalizing c with
  | nil => rfl
  | cons x rest ih =>
    cases hserves with
    | next hpeer hreads hrest =>
      have hcommand := Connection.command_exchange hbuffer hpeer hreads
      rw [List.map_cons, history, List.map_cons, List.map_cons, hcommand]
      exact congrArg _ (ih rfl hrest)

/-- A key whose reply arrives cut inside a character and inside the prompt. -/
def pressed : Exchange where
  command := "sendkey a\n"
  body := Text.Utf8.encode "sendkey a\r\né"
  chunks := [Text.Utf8.encode "sendkey a\r\n" ++ [0xC3], [0xA9, 40, 113], [101, 109, 117, 41], [32]]
  clear := by decide +kernel
  nonempty := by decide +kernel
  whole := by decide +kernel

/-- A screen that is not written, with the reply in one piece. -/
def refused : Exchange where
  command := "screendump /x\n"
  body := Text.Utf8.encode "screendump /x\r\nError: no space"
  chunks := [Text.Utf8.encode "screendump /x\r\nError: no space" ++ prompt]
  clear := by decide +kernel
  nonempty := by decide +kernel
  whole := by decide +kernel

/-- The second reply is there before the second command is given. -/
theorem replies_unmixed_pressed_refused :
    let peer : Peer (List (List Received)) := fun _ replies => (.ok (replies.headD []), replies.tail)
    let c : Connection (List (List Received)) := ⟨[], [], [pressed.reads ++ refused.reads]⟩
    ((history peer ["sendkey a\n", "screendump /x\n"] c).map fun (result, after) =>
      (result, after.buffer)) =
        [(.ok (), []), (.error (.refused "screendump /x: Error: no space"), [])] ∧
    feed (Text.Utf8.encode "sendkey a\r\n" ++ [0xC3]) [0xA9, 40, 113] =
      (none, Text.Utf8.encode "sendkey a\r\né(q") := by
  intro peer c
  have hserves : Serves peer c.incoming c.peer [pressed, refused] :=
    .next rfl rfl (.next rfl rfl (.done _ _))
  obtain ⟨hresults, hfeed⟩ := replies_unmixed rfl hserves
  refine ⟨hresults.trans ?_, (hfeed pressed (by simp) 1 (by decide)).trans ?_⟩
  · rfl
  · decide +kernel

end ConsoleScript.Monitor
