import HnefServer.Network.Pass

/-!
# Receiving

`Server::readClient` reads a socket chunk by chunk into the buffer of the server.  What the system
calls answer is an input: one `Answer` for each round of the loop.  The loop is over when it
returns; on a list of answers that is used up before, it is still running.
-/

namespace HnefServer

/-- A C string: the characters of an array up to the first NUL. -/
def Text.cString (s : Text) : Text := s.takeWhile (· != '\x00')

namespace Server

/-- Default size of buffer. -/
def SIZE_BUFF : ℕ := 1024

/-- Default length of messages for receiving. -/
def SIZE_RECV : ℕ := SIZE_BUFF - 1

/-- Longest valid message server may accept (chat). -/
def LONGEST_MSG : ℕ := 106

/-- `char[SIZE_BUFF]`. -/
structure Buffer where
  chars : Text
  size : chars.length = SIZE_BUFF

/-- Newline characters. -/
def isNewline (c : Char) : Bool := c == '\n' || c == '\r'

/-- The loop of `insertToBuffer`.  Behind the end of the destination nothing is written. -/
def copyChars : Text → Text → Text
  | p_dst, [] => p_dst
  | p_dst, c :: p_src =>
    if c = '\x00' then p_dst
    else if isNewline c then copyChars p_dst p_src
    else match p_dst with
      | [] => []
      | _ :: p_dst => c :: copyChars p_dst p_src

theorem length_copyChars (p_dst p_src : Text) :
    (copyChars p_dst p_src).length = p_dst.length := by
  induction p_src generalizing p_dst with
  | nil => simp [copyChars]
  | cons c p_src ih =>
    simp only [copyChars]
    split_ifs
    · rfl
    · exact ih p_dst
    · cases p_dst with
      | nil => rfl
      | cons d p_dst => simp [ih]

namespace Buffer

/-- All NUL: the initial value of an array. -/
def zeros : Buffer := ⟨List.replicate SIZE_BUFF '\x00', List.length_replicate⟩

/-- `Server::clearBuffer`. -/
def clearBuffer (_ : Buffer) : Buffer := zeros

/-- `Server::insertToBuffer`. -/
def insertToBuffer (p_dst p_src : Buffer) : Buffer :=
  ⟨copyChars p_dst.chars p_src.chars, by rw [length_copyChars, p_dst.size]⟩

/-- `recv` writes a chunk to the beginning of an array. -/
def write (b : Buffer) (chunk : Text) : Buffer :=
  ⟨(chunk ++ b.chars.drop chunk.length).take SIZE_BUFF, by
    have := b.size
    simp only [List.length_take, List.length_append, List.length_drop]
    omega⟩

end Buffer

/-- What `readClient` reads and writes of the server. -/
structure Receiver where
  buffer : Buffer
  bytesRecv : ℤ

/-- The answers of the system calls in one round of the loop: the number of bytes `ioctl` reports,
and the chunk `recv` takes off the socket, if it does not fail. -/
structure Answer where
  in_buffer : ℤ
  recv : Option Text

/-- `recv` does not fail. -/
def Answer.Receives (a : Answer) : Prop := 0 < a.in_buffer → a.recv.isSome

instance : DecidablePred Answer.Receives := fun a =>
  inferInstanceAs (Decidable (0 < a.in_buffer → a.recv.isSome))

/-- The variables of `readClient`, with the chunks that were taken off the socket so far and those
of them that were copied to the buffer. -/
structure Reader extends Receiver where
  received : ℤ
  received_total : ℤ
  step_buffer : Buffer
  taken : List Text
  stored : List Text

namespace Reader

/-- The call of `recv`. -/
def recv (s : Reader) : Option Text → Reader
  | none => { s with received := -1 }
  | some chunk => { s with
      received := chunk.length
      step_buffer := s.step_buffer.write chunk
      taken := s.taken ++ [chunk] }

/-- Copies what `recv` has left in the step buffer, until the limit is reached. -/
def store (s : Reader) (chunk : Option Text) : Reader :=
  if s.received_total < SIZE_RECV - LONGEST_MSG ∧ 0 ≤ s.received then
    let received_total := s.received_total + s.received
    { s with
      received_total
      bytesRecv := s.bytesRecv + received_total
      buffer := s.buffer.insertToBuffer s.step_buffer
      step_buffer := s.step_buffer.clearBuffer
      stored := s.stored ++ chunk.toList }
  else s

/-- The branch of a round in which something is there to read. -/
def receive (s : Reader) (chunk : Option Text) : Reader := (s.recv chunk).store chunk

/-- The loop of `readClient`: its result, and the variables at its end. -/
def loop : List Answer → Reader → Option (ℤ × Reader)
  | [], _ => none
  | a :: answers, s =>
    -- end of receiving
    if a.in_buffer = 0 then some (s.received_total, s)
    else
      let s := if 0 < a.in_buffer then s.receive a.recv else s
      -- client is flooding the server
      if SIZE_RECV - LONGEST_MSG < s.received_total ∨ a.in_buffer < 0 ∨ s.received < 0 then
        some (-1, { s with received_total := -1 })
      else loop answers s

end Reader

/-- The variables `readClient` starts with. -/
def Receiver.start (r : Receiver) : Reader where
  buffer := r.buffer.clearBuffer
  bytesRecv := r.bytesRecv
  received := 0
  received_total := 0
  step_buffer := Buffer.zeros
  taken := []
  stored := []

/-- `Server::readClient`. -/
def readClient (r : Receiver) (answers : List Answer) : Option (ℤ × Reader) :=
  r.start.loop answers

/-- Calls of `readClient`, one after the other: the server after them, and all the chunks that
were taken off the sockets. -/
def readCalls : Receiver → List (List Answer) → Option (Receiver × List Text)
  | r, [] => some (r, [])
  | r, answers :: calls => do
    let (_, s) ← readClient r answers
    let (r', taken) ← readCalls s.toReceiver calls
    return (r', s.taken ++ taken)

/-- What a pass of the main loop makes of the result of `readClient`. -/
def reading (result : ℤ × Reader) : Reading :=
  if 0 < result.1 then .message result.2.buffer.chars.cString else .nothing

end Server

namespace Server

variable {a : Answer} {c : Text} {cs : List Text} {s : Reader}

/-! ### The copy -/

/-- A text without its newline characters. -/
def stripped (t : Text) : Text := t.filter fun c => !isNewline c

theorem length_stripped_le (t : Text) : (stripped t).length ≤ t.length :=
  List.length_filter_le _ _

theorem stripped_append (t u : Text) : stripped (t ++ u) = stripped t ++ stripped u :=
  List.filter_append ..

/-- What is left of a text when another one is written over its beginning. -/
def overlay (t u : Text) : Text := u ++ t.drop u.length

theorem overlay_nil (t : Text) : overlay t [] = t := by simp [overlay]

theorem nil_overlay (u : Text) : overlay [] u = u := by simp [overlay]

theorem length_overlay (t u : Text) : (overlay t u).length = max t.length u.length := by
  simp only [overlay, List.length_append, List.length_drop]
  omega

/-- The copy ends at the first NUL, and goes to the beginning of the destination. -/
theorem copyChars_eq (rest : Text) {p_dst : Text} (hnul : '\x00' ∉ c)
    (hlen : (stripped c).length ≤ p_dst.length) :
    copyChars p_dst (c ++ '\x00' :: rest) = overlay p_dst (stripped c) := by
  induction c generalizing p_dst with
  | nil => simp [copyChars, stripped, overlay]
  | cons d c ih =>
    obtain ⟨hd, hc⟩ := not_or.1 (mt List.mem_cons.2 hnul)
    simp only [List.cons_append, copyChars]
    rw [if_neg (Ne.symm hd)]
    by_cases hline : isNewline d = true
    · have hskip : stripped (d :: c) = stripped c := by simp [stripped, hline]
      rw [if_pos hline, hskip]
      exact ih hc (hskip ▸ hlen)
    · have hkeep : stripped (d :: c) = d :: stripped c := by simp [stripped, hline]
      rw [hkeep, List.length_cons] at hlen
      rw [if_neg hline, hkeep]
      cases p_dst with
      | nil => simp at hlen
      | cons e p_dst =>
        show d :: copyChars p_dst (c ++ '\x00' :: rest) = _
        rw [ih hc (by simpa using hlen)]
        simp [overlay]

/-- A buffer holds a text: it starts with it, and NUL follows up to the end. -/
structure Buffer.Holds (b : Buffer) (t : Text) : Prop where
  nul : '\x00' ∉ t
  length_lt : t.length < SIZE_BUFF
  chars : b.chars = t ++ List.replicate (SIZE_BUFF - t.length) '\x00'

theorem Buffer.zeros_holds : zeros.Holds [] :=
  ⟨List.not_mem_nil, by decide, by simp [zeros]⟩

theorem Buffer.Holds.chars_eq {b : Buffer} (h : b.Holds c) :
    b.chars = c ++ '\x00' :: List.replicate (SIZE_BUFF - c.length - 1) '\x00' := by
  have hlt := h.length_lt
  rw [h.chars, ← List.replicate_succ]
  congr 2
  omega

theorem Buffer.Holds.cString {b : Buffer} (h : b.Holds c) : b.chars.cString = c := by
  have hpos : ∀ d ∈ c, (d != '\x00') = true := by
    intro d hd
    rw [bne_iff_ne]
    rintro rfl
    exact h.nul hd
  rw [h.chars_eq, Text.cString, List.takeWhile_append_of_pos hpos]
  simp

theorem Buffer.write_holds (hnul : '\x00' ∉ c) (hlen : c.length ≤ SIZE_RECV) :
    (zeros.write c).Holds c := by
  have hlt : c.length < SIZE_BUFF := by
    simp only [SIZE_RECV, SIZE_BUFF] at hlen ⊢
    omega
  refine ⟨hnul, hlt, ?_⟩
  simp only [write, zeros, List.drop_replicate]
  rw [List.take_of_length_le]
  simp only [List.length_append, List.length_replicate]
  omega

/-- The copy of a chunk is written over the beginning of what the buffer holds. -/
theorem Buffer.Holds.insertToBuffer {b step : Buffer} {t : Text} (h : b.Holds t)
    (hstep : step.Holds c) : (b.insertToBuffer step).Holds (overlay t (stripped c)) := by
  have hlen : (stripped c).length < SIZE_BUFF :=
    lt_of_le_of_lt (length_stripped_le c) hstep.length_lt
  have ht := h.length_lt
  refine ⟨?_, ?_, ?_⟩
  · intro hmem
    obtain hmem | hmem := List.mem_append.1 hmem
    · exact hstep.nul (List.mem_filter.1 hmem).1
    · exact h.nul (List.mem_of_mem_drop hmem)
  · rw [length_overlay]
    omega
  · show copyChars b.chars step.chars = _
    rw [hstep.chars_eq, copyChars_eq _ hstep.nul (by rw [b.size]; omega), h.chars,
      length_overlay, overlay, overlay, List.drop_append, List.drop_replicate,
      ← List.append_assoc]
    congr 2
    omega

/-- What `insertToBuffer` makes of an empty buffer, given some chunks one after the other. -/
def Buffer.insertAll (cs : List Text) : Buffer :=
  cs.foldl (fun b c => b.insertToBuffer (zeros.write c)) zeros

theorem Buffer.insertAll_snoc (cs : List Text) (c : Text) :
    insertAll (cs ++ [c]) = (insertAll cs).insertToBuffer (zeros.write c) := by
  rw [insertAll, List.foldl_append]
  rfl

/-! ### The loop -/

/-- Where `readClient` stops storing, and behind which it gives a client up. -/
def limit : ℕ := SIZE_RECV - LONGEST_MSG

theorem limit_cast : (SIZE_RECV : ℤ) - LONGEST_MSG = limit := by decide

/-- A round in which a chunk arrives. -/
structure Delivers (a : Answer) (c : Text) : Prop where
  in_buffer : 0 < a.in_buffer
  recv : a.recv = some c
  ne_nil : c ≠ []
  length_le : c.length ≤ SIZE_RECV

namespace Reader

/-- The variables after some chunks have been received. -/
def receiveAll (s : Reader) (cs : List Text) : Reader :=
  cs.foldl (fun s c => s.receive (some c)) s

theorem receive_of_lt (h : s.received_total < limit) :
    s.receive (some c) = { s with
      received := c.length
      received_total := s.received_total + c.length
      bytesRecv := s.bytesRecv + (s.received_total + c.length)
      step_buffer := Buffer.zeros
      buffer := s.buffer.insertToBuffer (s.step_buffer.write c)
      taken := s.taken ++ [c]
      stored := s.stored ++ [c] } := by
  have hc : s.received_total < (SIZE_RECV : ℤ) - LONGEST_MSG ∧ (0 : ℤ) ≤ c.length :=
    ⟨limit_cast ▸ h, Int.natCast_nonneg _⟩
  exact if_pos hc

/-- From the limit on, a chunk is taken off the socket and dropped. -/
theorem receive_of_ge (h : limit ≤ s.received_total) :
    s.receive (some c) = { s with
      received := c.length
      step_buffer := s.step_buffer.write c
      taken := s.taken ++ [c] } := by
  have hc : ¬(s.received_total < (SIZE_RECV : ℤ) - LONGEST_MSG ∧ (0 : ℤ) ≤ c.length) :=
    fun hlt => not_lt.2 h (limit_cast ▸ hlt.1)
  exact if_neg hc

theorem receive_received : (s.receive (some c)).received = c.length := by
  obtain h | h := lt_or_ge s.received_total limit
  · rw [receive_of_lt h]
  · rw [receive_of_ge h]

/-- The loop ends when nothing is left to read. -/
theorem loop_end {answers : List Answer} (ha : a.in_buffer = 0) :
    loop (a :: answers) s = some (s.received_total, s) := if_pos ha

/-- A round in which `recv` does not fail. -/
theorem loop_chunk {answers : List Answer} (hpos : 0 < a.in_buffer) (hrecv : a.recv = some c) :
    loop (a :: answers) s = if limit < (s.receive (some c)).received_total then
      some (-1, { s.receive (some c) with received_total := -1 })
      else loop answers (s.receive (some c)) := by
  have hrec : ¬(s.receive (some c)).received < 0 := by
    rw [receive_received]
    omega
  rw [loop, if_neg hpos.ne', if_pos hpos, hrecv, limit_cast]
  simp only [not_lt.2 hpos.le, hrec, or_false]

theorem loop_deliver {answers : List Answer} (ha : Delivers a c) :
    loop (a :: answers) s = if limit < (s.receive (some c)).received_total then
      some (-1, { s.receive (some c) with received_total := -1 })
      else loop answers (s.receive (some c)) := loop_chunk ha.in_buffer ha.recv

/-- All chunks taken off the socket were counted and copied. -/
structure Counted (s : Reader) (cs : List Text) : Prop where
  received_total : s.received_total = cs.flatten.length
  taken : s.taken = cs
  stored : s.stored = cs
  step_buffer : s.step_buffer = Buffer.zeros
  buffer : s.buffer = Buffer.insertAll cs

theorem Counted.receive (h : s.Counted cs) (hlt : cs.flatten.length < limit) :
    (s.receive (some c)).Counted (cs ++ [c]) := by
  have hs : s.received_total < limit := by
    rw [h.received_total]
    exact_mod_cast hlt
  rw [receive_of_lt hs]
  refine ⟨?_, ?_, ?_, rfl, ?_⟩
  · simp [h.received_total]
  · rw [h.taken]
  · rw [h.stored]
  · rw [Buffer.insertAll_snoc, ← h.buffer, ← h.step_buffer]

theorem flatten_lt_flatten {cs cs' : List Text} {c : Text} (hc : c ≠ []) :
    cs.flatten.length < (cs ++ c :: cs').flatten.length := by
  have hpos := List.length_pos_of_ne_nil hc
  simp only [List.flatten_append, List.flatten_cons, List.length_append]
  omega

/-- Up to the limit every chunk is counted and copied, and the loop goes on. -/
theorem Counted.loop {answers : List Answer} {cs' : List Text} (h : s.Counted cs)
    (harr : List.Forall₂ Delivers answers cs') (hle : (cs ++ cs').flatten.length ≤ limit)
    (rest : List Answer) :
    (s.receiveAll cs').Counted (cs ++ cs') ∧
      Reader.loop (answers ++ rest) s = Reader.loop rest (s.receiveAll cs') := by
  induction harr generalizing s cs with
  | nil => exact ⟨by simpa [receiveAll] using h, rfl⟩
  | @cons a c answers cs' ha harr ih =>
    have happ : cs ++ c :: cs' = cs ++ [c] ++ cs' := by simp
    have h' : (s.receive (some c)).Counted (cs ++ [c]) :=
      h.receive (lt_of_lt_of_le (flatten_lt_flatten ha.ne_nil) hle)
    have htotal : ¬limit < (s.receive (some c)).received_total := by
      rw [h'.received_total]
      rw [happ, List.flatten_append, List.length_append] at hle
      omega
    obtain ⟨hcount, hloop⟩ := ih h' (happ ▸ hle)
    refine ⟨happ ▸ hcount, ?_⟩
    rw [List.cons_append, loop_deliver ha, if_neg htotal]
    exact hloop

/-- The chunk that exceeds the limit is the last one. -/
theorem Counted.flood {answers : List Answer} (h : s.Counted cs) (ha : Delivers a c)
    (hlt : cs.flatten.length < limit) (hgt : limit < (cs ++ [c]).flatten.length) :
    Reader.loop (a :: answers) s =
      some (-1, { s.receive (some c) with received_total := -1 }) := by
  rw [loop_deliver ha, if_pos]
  rw [(h.receive hlt).received_total]
  exact_mod_cast hgt

/-- At the limit exactly, and behind on copying. -/
structure Stuck (s : Reader) : Prop where
  received_total : s.received_total = limit
  behind : s.stored.length < s.taken.length

theorem receive_stuck (htotal : s.received_total = limit)
    (hle : s.stored.length ≤ s.taken.length) : (s.receive (some c)).Stuck := by
  rw [receive_of_ge htotal.ge]
  refine ⟨htotal, ?_⟩
  simp only [List.length_append, List.length_singleton]
  omega

/-- There the loop takes chunk after chunk off the socket and never catches up. -/
theorem Stuck.loop {answers : List Answer} {value : ℤ} {s' : Reader} (h : s.Stuck)
    (harr : ∀ a ∈ answers, a.in_buffer = 0 ∨ ∃ c, Delivers a c)
    (hloop : Reader.loop answers s = some (value, s')) : s'.Stuck := by
  induction answers generalizing s with
  | nil => cases hloop
  | cons a answers ih =>
    obtain ha | ⟨c, ha⟩ := harr a List.mem_cons_self
    · rw [loop_end ha] at hloop
      cases hloop
      exact h
    · have h' : (s.receive (some c)).Stuck := receive_stuck h.received_total h.behind.le
      rw [loop_deliver ha, h'.received_total, if_neg (lt_irrefl _)] at hloop
      exact ih h' (fun b hb => harr b (List.mem_cons_of_mem a hb)) hloop

/-- It goes on as long as chunks arrive. -/
theorem Stuck.loop_none {answers : List Answer} (h : s.Stuck)
    (harr : ∀ a ∈ answers, ∃ c, Delivers a c) : Reader.loop answers s = none := by
  induction answers generalizing s with
  | nil => rfl
  | cons a answers ih =>
    obtain ⟨c, ha⟩ := harr a List.mem_cons_self
    have h' : (s.receive (some c)).Stuck := receive_stuck h.received_total h.behind.le
    rw [loop_deliver ha, h'.received_total, if_neg (lt_irrefl _)]
    exact ih h' fun b hb => harr b (List.mem_cons_of_mem a hb)

end Reader

/-- What is in the buffer after some chunks: each is written over the beginning of what was
there. -/
def overlaid (cs : List Text) : Text := cs.foldl (fun t c => overlay t (stripped c)) []

theorem Reader.Counted.holds {cs' : List Text} {t : Text} (h : s.Counted cs)
    (hnul : ∀ c ∈ cs', '\x00' ∉ c) (hne : ∀ c ∈ cs', c ≠ [])
    (hle : (cs ++ cs').flatten.length ≤ limit) (ht : s.buffer.Holds t) :
    (s.receiveAll cs').buffer.Holds (cs'.foldl (fun t c => overlay t (stripped c)) t) := by
  induction cs' generalizing s cs t with
  | nil => exact ht
  | cons c cs' ih =>
    have happ : cs ++ c :: cs' = cs ++ [c] ++ cs' := by simp
    have hlt : cs.flatten.length < limit :=
      lt_of_lt_of_le (flatten_lt_flatten (hne c List.mem_cons_self)) hle
    have hs : s.received_total < limit := by
      rw [h.received_total]
      exact_mod_cast hlt
    have hsize : c.length ≤ SIZE_RECV := by
      rw [List.flatten_append, List.flatten_cons, List.length_append, List.length_append] at hle
      simp only [limit] at hle
      omega
    have hw : (s.step_buffer.write c).Holds c :=
      h.step_buffer ▸ Buffer.write_holds (hnul c List.mem_cons_self) hsize
    have hbuf : (s.receive (some c)).buffer.Holds (overlay t (stripped c)) := by
      rw [receive_of_lt hs]
      exact ht.insertToBuffer hw
    exact ih (h.receive hlt) (fun d hd => hnul d (List.mem_cons_of_mem c hd))
      (fun d hd => hne d (List.mem_cons_of_mem c hd)) (happ ▸ hle) hbuf

end Server

end HnefServer
