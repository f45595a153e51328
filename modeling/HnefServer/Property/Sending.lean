import HnefServer.Network.Send

/-!
# Sending under partial writes

However `send` splits and refuses a frame, `sendToClient` ends.  It goes on calling `send` until
the frame is all accepted or three calls have failed; the bytes of the positive answers are, in
order, a prefix of the frame, and the result tells whether it was all of it.
-/

namespace HnefServer

open Protocol

namespace Socket

variable (socket : Socket) (length : ℕ)

/-- The bytes of a frame of this length that the first calls of `send` have accepted, if each call
offers all that is left. -/
def taken : ℕ → ℕ
  | 0 => 0
  | call + 1 => taken call + (socket.send call (length - taken call)).toNat

/-- How many of the first calls of `send` have failed. -/
def refused : ℕ → ℕ
  | 0 => 0
  | call + 1 =>
    if 0 < socket.send call (length - socket.taken length call) then refused call
    else refused call + 1

variable {socket length} {call call' : ℕ}

theorem taken_of_nonpos (h : socket.send call (length - socket.taken length call) ≤ 0) :
    socket.taken length (call + 1) = socket.taken length call := by
  rw [taken, Int.toNat_of_nonpos h, Nat.add_zero]

theorem refused_of_pos (h : 0 < socket.send call (length - socket.taken length call)) :
    socket.refused length (call + 1) = socket.refused length call := if_pos h

theorem refused_of_nonpos (h : socket.send call (length - socket.taken length call) ≤ 0) :
    socket.refused length (call + 1) = socket.refused length call + 1 := if_neg h.not_gt

theorem refused_mono (h : call ≤ call') :
    socket.refused length call ≤ socket.refused length call' := by
  induction h with
  | refl => exact le_rfl
  | @step call' _ ih =>
    rcases lt_or_ge 0 (socket.send call' (length - socket.taken length call')) with hpos | hneg
    · exact ih.trans (refused_of_pos hpos).ge
    · exact ih.trans ((Nat.le_succ _).trans (refused_of_nonpos hneg).ge)

end Socket

namespace Sending

variable {frame : Text} {s : Sending}

/-- At the end, the whole frame was accepted if a failure is left, and only then. -/
theorem Sound.result (h : s.Sound frame) (hend : s.msg_len = 0 ∨ s.failed_send_count = 0) :
    (if s.failed_send_count = (0 : ℤ) then -1 else s.sent_total) =
      if s.accepted = frame then (frame.length : ℤ) else -1 := by
  obtain ⟨rest, hframe, -, hlen⟩ := h.split
  by_cases hzero : s.failed_send_count = 0
  · have hrest : rest ≠ [] := by
      rintro rfl
      have := h.failed_or
      simp only [List.length_nil] at hlen
      omega
    have hne : s.accepted ≠ frame := by
      intro heq
      rw [← heq] at hframe
      exact hrest (List.append_right_eq_self.1 hframe.symm)
    rw [if_pos hzero, if_neg hne]
  · have hnil : rest = [] := by
      have hmsg := hend.resolve_right hzero
      rw [hlen] at hmsg
      exact List.eq_nil_of_length_eq_zero (by exact_mod_cast hmsg)
    rw [hnil, List.append_nil] at hframe
    rw [if_neg hzero, if_pos hframe.symm, h.sent_total, hframe]

/-- The variables agree with the answers so far, and each call was needed and allowed. -/
structure Tallied (socket : Socket) (length : ℕ) (s : Sending) : Prop where
  msg_len : s.msg_len + socket.taken length s.calls = length
  accepted : s.accepted.length = socket.taken length s.calls
  failed : s.failed_send_count + socket.refused length s.calls = 3
  goes_on : ∀ call < s.calls, socket.taken length call < length ∧ socket.refused length call < 3

variable {socket : Socket} {length : ℕ} {s' : Sending}

theorem Tallied.round (h : s.Tallied socket length) (hsound : s.Sound frame)
    (hmsg : 0 < s.msg_len) (hfail : 0 < s.failed_send_count) :
    (s.round socket).Tallied socket length := by
  have hlen := h.msg_len
  have hfailed := h.failed
  -- the call offers all that is left
  have hleft : s.msg_len.toNat = length - socket.taken length s.calls := by omega
  have hle := socket.send_le s.calls s.msg_len.toNat
  have hgoes : ∀ call < s.calls + 1,
      socket.taken length call < length ∧ socket.refused length call < 3 := by
    intro call hcall
    rcases Nat.lt_succ_iff_lt_or_eq.1 hcall with hcall | rfl
    · exact h.goes_on call hcall
    · omega
  by_cases hsent : 0 < socket.send s.calls s.msg_len.toNat
  · have htaken : socket.taken length (s.calls + 1) =
        socket.taken length s.calls + (socket.send s.calls s.msg_len.toNat).toNat := by
      rw [Socket.taken, hleft]
    have hrefused := Socket.refused_of_pos (hleft ▸ hsent)
    rw [Sending.round, if_pos hsent]
    refine ⟨?_, ?_, ?_, hgoes⟩
    · show s.msg_len - socket.send s.calls s.msg_len.toNat +
        (socket.taken length (s.calls + 1) : ℤ) = length
      rw [htaken]
      omega
    · obtain ⟨rest, -, hbuff, hrest⟩ := hsound.split
      show (s.accepted ++ s.p_buff.take (socket.send s.calls s.msg_len.toNat).toNat).length =
        socket.taken length (s.calls + 1)
      rw [htaken, List.length_append, List.length_take, h.accepted, hbuff, List.length_append]
      omega
    · show s.failed_send_count + (socket.refused length (s.calls + 1) : ℤ) = 3
      rw [hrefused, hfailed]
  · have htaken := Socket.taken_of_nonpos (hleft ▸ not_lt.1 hsent)
    have hrefused := Socket.refused_of_nonpos (hleft ▸ not_lt.1 hsent)
    rw [Sending.round, if_neg hsent]
    refine ⟨?_, ?_, ?_, hgoes⟩
    · show s.msg_len + (socket.taken length (s.calls + 1) : ℤ) = length
      rw [htaken, hlen]
    · show s.accepted.length = socket.taken length (s.calls + 1)
      rw [htaken, h.accepted]
    · show s.failed_send_count - 1 + (socket.refused length (s.calls + 1) : ℤ) = 3
      rw [hrefused]
      omega

theorem Tallied.loop {fuel : ℕ} (h : s.Tallied socket length) (hsound : s.Sound frame)
    (hloop : Sending.loop socket fuel s = some s') : s'.Tallied socket length := by
  induction fuel generalizing s with
  | zero =>
    rw [Sending.loop] at hloop
    split_ifs at hloop
    cases hloop
    exact h
  | succ fuel ih =>
    rw [Sending.loop] at hloop
    split_ifs at hloop with hgo
    · exact ih (h.round hsound hgo.1 hgo.2) (hsound.round socket hgo.1 hgo.2).1 hloop
    · cases hloop
      exact h

/-- What was accepted is the frame up to the bytes of the answers. -/
theorem Tallied.accepted_eq (h : s.Tallied socket length) (hsound : s.Sound frame) :
    s.accepted = frame.take (socket.taken length s.calls) := by
  obtain ⟨rest, hframe, -, -⟩ := hsound.split
  rw [hframe, ← h.accepted, List.take_left]

end Sending

namespace Sender

variable {msg : Text}

theorem cString_eq {s : Text} (h : '\x00' ∉ s) : s.cString = s := by
  rw [Text.cString, List.takeWhile_eq_self_iff]
  intro c hc
  rw [bne_iff_ne]
  rintro rfl
  exact h hc

/-- What `sendToClient` does with the answers of `send`, in this many calls. -/
structure SendLaw (m : Sender) (client : Client) (frame : Text) (socket : Socket) (calls : ℕ)
    (r : Sent) : Prop where
  goes_on : ∀ call < calls,
    socket.taken frame.length call < frame.length ∧ socket.refused frame.length call < 3
  stops : client.socketNum < 0 ∧ calls = 0 ∨ 0 ≤ client.socketNum ∧
    (socket.taken frame.length calls = frame.length ∨ socket.refused frame.length calls = 3)
  accepted : r.accepted = frame.take (socket.taken frame.length calls)
  whole : r.accepted = frame ↔ 0 ≤ client.socketNum ∧
    ∃ call, socket.taken frame.length call = frame.length ∧ socket.refused frame.length call < 3
  bytesSend : r.bytesSend = m.bytesSend + r.accepted.length
  value : r.value = if r.accepted = frame then (frame.length : ℤ) else -1

/-- To a closed socket nothing is sent. -/
theorem sendLaw_closed (m : Sender) {client : Client} {frame : Text} (socket : Socket)
    (hpos : 0 < frame.length) (hsock : client.socketNum < 0) :
    SendLaw m client frame socket 0 (m.finish (Sending.start client frame)) := by
  have hfail : (Sending.start client frame).failed_send_count = 0 := if_pos hsock
  have hne : (m.finish (Sending.start client frame)).accepted ≠ frame := by
    rintro heq
    rw [← heq] at hpos
    exact lt_irrefl _ hpos
  refine ⟨fun call hcall => absurd hcall (Nat.not_lt_zero call), Or.inl ⟨hsock, rfl⟩, rfl,
    iff_of_false hne fun h => ?_, ?_, ?_⟩
  · exact absurd h.1 hsock.not_ge
  · simp [finish, Sending.start]
  · rw [if_neg hne]
    exact if_pos hfail

/-- What holds of a sound and tallied state at the end of the loop. -/
theorem sendLaw_finish (m : Sender) {client : Client} {frame : Text} {socket : Socket}
    {s : Sending} (hsock : 0 ≤ client.socketNum) (hsound : s.Sound frame)
    (htally : s.Tallied socket frame.length)
    (hend : s.msg_len = 0 ∨ s.failed_send_count = 0) :
    SendLaw m client frame socket s.calls (m.finish s) := by
  have hlen := htally.msg_len
  have hfailed := htally.failed
  have hstops : socket.taken frame.length s.calls = frame.length ∨
      socket.refused frame.length s.calls = 3 := by omega
  have haccepted := htally.accepted_eq hsound
  have hwhole : s.accepted = frame ↔ socket.taken frame.length s.calls = frame.length := by
    obtain ⟨rest, hframe, -, -⟩ := hsound.split
    have hprefix : s.accepted <+: frame := ⟨rest, hframe.symm⟩
    rw [← htally.accepted]
    exact ⟨congrArg List.length, hprefix.eq_of_length⟩
  refine ⟨htally.goes_on, Or.inr ⟨hsock, hstops⟩, haccepted, ?_, ?_, hsound.result hend⟩
  · show s.accepted = frame ↔ _
    rw [hwhole]
    constructor
    · intro htaken
      -- the third failure would have left something to send
      have hor := hsound.failed_or
      exact ⟨hsock, s.calls, htaken, by omega⟩
    · rintro ⟨-, call, htaken, hrefused⟩
      rcases le_or_gt s.calls call with hcall | hcall
      · have hmono : socket.refused frame.length s.calls ≤ socket.refused frame.length call :=
          Socket.refused_mono hcall
        omega
      · exact absurd htaken (htally.goes_on call hcall).1.ne
  · rw [finish, hsound.sent_total]

/-- **A frame is sent up to a prefix, and the result tells whether it was sent whole.** Every run
of `sendToClient` ends.  Unless the socket is closed, it calls `send` until all of the frame is
accepted or three calls have failed.  The socket has accepted the bytes of the positive answers in
order, which are a prefix of the frame and what `bytesSend` grows by: all of it unless three
failures come first.  The result is the length of the frame if all of it was accepted and `-1`
otherwise, and to a closed socket nothing is sent. -/
theorem frame_sent_prefix (m : Sender) (client : Client) (socket : Socket)
    (hnul : '\x00' ∉ msg) :
    ∃ r calls, m.sendToClient client msg socket = some r ∧
      SendLaw m client (OP_SOH ++ msg ++ OP_EOT) socket calls r ∧
      r.accepted <+: OP_SOH ++ msg ++ OP_EOT ∧
      (client.socketNum < 0 → r.accepted = []) := by
  have hmem : '\x00' ∉ OP_SOH ++ msg ++ OP_EOT := by
    simp only [List.mem_append, not_or]
    exact ⟨⟨by decide, hnul⟩, by decide⟩
  have hpos : 0 < (OP_SOH ++ msg ++ OP_EOT).length := by
    simp [OP_SOH]
  simp only [sendToClient]
  generalize OP_SOH ++ msg ++ OP_EOT = frame at *
  by_cases hsock : client.socketNum < 0
  · have hfail : (Sending.start client frame).failed_send_count = 0 := if_pos hsock
    have hstop := Sending.loop_of_stop (s := Sending.start client frame) socket
      (frame.length + 3) (by rw [hfail]; simp)
    exact ⟨m.finish (Sending.start client frame), 0, by rw [hstop, Option.map_some],
      sendLaw_closed m socket hpos hsock, List.nil_prefix, fun _ => rfl⟩
  · have hfail : (Sending.start client frame).failed_send_count = 3 := if_neg hsock
    have hstart : (Sending.start client frame).Sound frame :=
      ⟨⟨frame, rfl, by rw [Sending.start, strcpy, cString_eq hmem], rfl⟩, rfl,
        by rw [hfail]; decide, Or.inl (by rw [hfail]; decide)⟩
    have htally : (Sending.start client frame).Tallied socket frame.length :=
      ⟨Int.add_zero _, rfl, by rw [hfail]; rfl, fun call hcall => absurd hcall call.not_lt_zero⟩
    have hwork : (Sending.start client frame).work ≤ frame.length + 3 := by
      rw [Sending.work, hfail]
      simp [Sending.start]
    obtain ⟨s, hloop, hsound, hend⟩ := hstart.loop socket hwork
    obtain ⟨rest, hframe, -, -⟩ := hsound.split
    exact ⟨m.finish s, s.calls, by rw [hloop, Option.map_some],
      sendLaw_finish m (not_lt.1 hsock) hsound (htally.loop hstart hloop) hend,
      ⟨rest, hframe.symm⟩, fun h => absurd h hsock⟩

/-- A socket that takes two bytes, fails, takes two bytes, and so on. -/
def slowSocket : Socket where
  send call offered := if call % 2 = 0 then min 2 offered else -1
  send_le call offered := by
    split_ifs <;> omega

theorem frame_sent_prefix_slow :
    ∃ r calls, (⟨0⟩ : Sender).sendToClient (Client.create [] 4) "rc".toList slowSocket = some r ∧
      SendLaw ⟨0⟩ (Client.create [] 4) (OP_SOH ++ "rc".toList ++ OP_EOT) slowSocket calls r ∧
      r.accepted <+: OP_SOH ++ "rc".toList ++ OP_EOT ∧
      ((Client.create [] 4).socketNum < 0 → r.accepted = []) :=
  frame_sent_prefix ⟨0⟩ (Client.create [] 4) slowSocket (by decide)

end Sender

end HnefServer
