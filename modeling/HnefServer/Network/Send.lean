import HnefServer.Network.ClientManager
import HnefServer.Network.Receive

/-!
# Sending

`ClientManager::sendToClient` offers a frame to the socket until it is all accepted or three calls
of `send` have failed.  What `send` answers is an input (`Socket`): it may fail at any time, and
accept any part of what it is offered.
-/

namespace HnefServer

open Protocol

/-- The answers of `send`, for each call and number of bytes offered: at most that number was
accepted, and nothing if the answer is not positive. -/
structure Socket where
  send : ℕ → ℕ → ℤ
  send_le : ∀ call offered, send call offered ≤ offered

/-- What `sendToClient` reads and writes of the client manager. -/
structure Sender where
  bytesSend : ℤ

/-- `strcpy` into an array, and the terminating NUL. -/
def strcpy (s : Text) : Text := s.cString ++ ['\x00']

/-- The variables of the loop of `sendToClient`, with the number of calls of `send` and the bytes
the socket has accepted so far.  A pointer into an array is what is left of the array there. -/
structure Sending where
  msg_len : ℤ
  p_buff : Text
  sent_total : ℤ
  failed_send_count : ℤ
  calls : ℕ
  accepted : Text

namespace Sending

variable (socket : Socket)

/-- The variables before the loop. -/
def start (client : Client) (msg : Text) : Sending where
  msg_len := msg.length
  p_buff := strcpy msg
  sent_total := 0
  -- to a bad socket, sending is skipped
  failed_send_count := if client.socketNum < 0 then 0 else 3
  calls := 0
  accepted := []

/-- The body of the loop. -/
def round (s : Sending) : Sending :=
  let sent := socket.send s.calls s.msg_len.toNat
  if 0 < sent then
    { s with
      sent_total := s.sent_total + sent
      p_buff := s.p_buff.drop sent.toNat
      msg_len := s.msg_len - sent
      calls := s.calls + 1
      accepted := s.accepted ++ s.p_buff.take sent.toNat }
  else { s with failed_send_count := s.failed_send_count - 1, calls := s.calls + 1 }

/-- The loop; `none` when the fuel is used up before it ends. -/
def loop : ℕ → Sending → Option Sending
  | 0, s => if 0 < s.msg_len ∧ 0 < s.failed_send_count then none else some s
  | fuel + 1, s =>
    if 0 < s.msg_len ∧ 0 < s.failed_send_count then loop fuel (s.round socket) else some s

end Sending

/-- The outcome of `sendToClient`. -/
structure Sent extends Sender where
  value : ℤ
  accepted : Text

namespace Sender

/-- The end of `sendToClient`. -/
def finish (m : Sender) (s : Sending) : Sent where
  -- increment even when send() was not finished
  bytesSend := m.bytesSend + s.sent_total
  -- if was unable to send message to client 3 times
  value := if s.failed_send_count = (0 : ℤ) then -1 else s.sent_total
  accepted := s.accepted

/-- `ClientManager::sendToClient`.  In each round the message gets shorter or the number of
failures left smaller. -/
def sendToClient (m : Sender) (client : Client) (_msg : Text) (socket : Socket) : Option Sent :=
  -- close message to protocol header and footer
  let msg := OP_SOH ++ _msg ++ OP_EOT
  (Sending.loop socket (msg.length + 3) (Sending.start client msg)).map m.finish

end Sender

namespace Sending

variable {socket : Socket} {s s' : Sending} {frame : Text}

/-- What holds of the variables in each round: the frame is what was accepted and what is still to
be sent, and if no failure is left, something is still to be sent. -/
structure Sound (frame : Text) (s : Sending) : Prop where
  split : ∃ rest, frame = s.accepted ++ rest ∧ s.p_buff = rest ++ ['\x00'] ∧ s.msg_len = rest.length
  sent_total : s.sent_total = s.accepted.length
  failed_nonneg : 0 ≤ s.failed_send_count
  failed_or : 0 < s.failed_send_count ∨ 0 < s.msg_len

/-- What is left to do: bytes to send and failures to spare. -/
def work (s : Sending) : ℕ := s.msg_len.toNat + s.failed_send_count.toNat

theorem loop_of_stop (socket : Socket) (fuel : ℕ)
    (h : ¬(0 < s.msg_len ∧ 0 < s.failed_send_count)) : loop socket fuel s = some s := by
  cases fuel with
  | zero => exact if_neg h
  | succ fuel => exact if_neg h

theorem Sound.round (socket : Socket) (h : s.Sound frame) (hmsg : 0 < s.msg_len)
    (hfail : 0 < s.failed_send_count) :
    (s.round socket).Sound frame ∧ (s.round socket).work < s.work := by
  obtain ⟨rest, hframe, hbuff, hlen⟩ := h.split
  have hle := socket.send_le s.calls s.msg_len.toNat
  by_cases hsent : 0 < socket.send s.calls s.msg_len.toNat
  · have hround : s.round socket = { s with
        sent_total := s.sent_total + socket.send s.calls s.msg_len.toNat
        p_buff := s.p_buff.drop (socket.send s.calls s.msg_len.toNat).toNat
        msg_len := s.msg_len - socket.send s.calls s.msg_len.toNat
        calls := s.calls + 1
        accepted := s.accepted ++ s.p_buff.take (socket.send s.calls s.msg_len.toNat).toNat } :=
      if_pos hsent
    obtain ⟨n, hn⟩ := Int.eq_ofNat_of_zero_le hsent.le
    rw [hn] at hround hle hsent
    rw [Int.toNat_natCast] at hround
    have hrest : n ≤ rest.length := by omega
    rw [hround]
    refine ⟨⟨⟨rest.drop n, ?_, ?_, ?_⟩, ?_, h.failed_nonneg, Or.inl hfail⟩, ?_⟩
    · show frame = s.accepted ++ s.p_buff.take n ++ rest.drop n
      rw [hbuff, List.take_append_of_le_length hrest, List.append_assoc, List.take_append_drop]
      exact hframe
    · show s.p_buff.drop n = rest.drop n ++ ['\x00']
      rw [hbuff, List.drop_append_of_le_length hrest]
    · show s.msg_len - n = (rest.drop n).length
      rw [List.length_drop, hlen]
      omega
    · show s.sent_total + n = (s.accepted ++ s.p_buff.take n).length
      rw [h.sent_total, hbuff, List.take_append_of_le_length hrest, List.length_append,
        List.length_take, min_eq_left hrest, Nat.cast_add]
    · simp only [work]
      omega
  · have hround : s.round socket = { s with
        failed_send_count := s.failed_send_count - 1, calls := s.calls + 1 } := if_neg hsent
    rw [hround]
    refine ⟨⟨h.split, h.sent_total, ?_, Or.inr hmsg⟩, ?_⟩
    · show 0 ≤ s.failed_send_count - 1
      omega
    · simp only [work]
      omega

/-- The loop ends, with a sound state in which nothing is left to send or no failure to spare. -/
theorem Sound.loop (socket : Socket) {fuel : ℕ} (h : s.Sound frame) (hfuel : s.work ≤ fuel) :
    ∃ s', Sending.loop socket fuel s = some s' ∧ s'.Sound frame ∧
      (s'.msg_len = 0 ∨ s'.failed_send_count = 0) := by
  induction fuel generalizing s with
  | zero =>
    obtain ⟨rest, -, -, hlen⟩ := h.split
    simp only [work] at hfuel
    have hstop : ¬(0 < s.msg_len ∧ 0 < s.failed_send_count) := by omega
    exact ⟨s, loop_of_stop socket 0 hstop, h, Or.inl (by omega)⟩
  | succ fuel ih =>
    by_cases hgo : 0 < s.msg_len ∧ 0 < s.failed_send_count
    · obtain ⟨hsound, hwork⟩ := h.round socket hgo.1 hgo.2
      obtain ⟨s', hs', hend⟩ := ih hsound (by omega)
      refine ⟨s', ?_, hend⟩
      rw [Sending.loop, if_pos hgo, hs']
    · obtain ⟨rest, -, -, hlen⟩ := h.split
      have hnonneg := h.failed_nonneg
      exact ⟨s, loop_of_stop socket (fuel + 1) hgo, h, by omega⟩

end Sending

end HnefServer
