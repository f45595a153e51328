import HnefServer.Network.Effect
import HnefServer.Network.Message

/-!
# What is sent

Every operation adds to the log of sent frames.  All operations but two add plain messages only
(`Tells`): a reconnection to a game adds the message composed for the client, from the lobby as it
is afterwards (`Told`), and the pairing adds the two messages of every game it starts
(`sent_pairLoop`).
-/

namespace HnefServer

open Protocol

namespace ClientManager

variable {m m' m'' : ClientManager} {i j : ℕ} {msg : Text} {P Q : ℕ × Text → Prop}

/-- The frames sent meanwhile satisfy `P`. -/
def Sends (P : ℕ × Text → Prop) (m m' : ClientManager) : Prop :=
  ∃ log, m'.sent = m.sent ++ log ∧ ∀ p ∈ log, P p

namespace Sends

theorem of_eq (h : m'.sent = m.sent) : Sends P m m' := ⟨[], by simp [h], by simp⟩

theorem refl (m : ClientManager) : Sends P m m := of_eq rfl

theorem trans (h : Sends P m m') (h' : Sends P m' m'') : Sends P m m'' := by
  obtain ⟨log, hlog, hP⟩ := h
  obtain ⟨log', hlog', hP'⟩ := h'
  refine ⟨log ++ log', by rw [hlog', hlog, List.append_assoc], fun p hp => ?_⟩
  rcases List.mem_append.1 hp with hp | hp
  · exact hP p hp
  · exact hP' p hp

theorem mono (h : Sends P m m') (hPQ : ∀ p, P p → Q p) : Sends Q m m' := by
  obtain ⟨log, hlog, hP⟩ := h
  exact ⟨log, hlog, fun p hp => hPQ p (hP p hp)⟩

theorem send (h : P (i, msg)) : Sends P m (m.sendToClient i msg) := by
  refine ⟨[(i, msg)], rfl, fun p hp => ?_⟩
  obtain rfl := List.mem_singleton.1 hp
  exact h

/-- In a log that was empty. -/
theorem mem (h : Sends P m m') (hempty : m.sent = []) : ∀ p ∈ m'.sent, P p := by
  obtain ⟨log, hlog, hP⟩ := h
  rw [hlog, hempty]
  exact hP

end Sends

/-- Only plain messages are sent meanwhile. -/
abbrev Tells : ClientManager → ClientManager → Prop := Sends fun p => Plain p.2

namespace Tells

theorem fixed (h : msg ∈ fixedMsgs) : Tells m (m.sendToClient i msg) := Sends.send (.fixed h)

theorem sendToOpponentOf (hmsg : Plain msg) (h : m.sendToOpponentOf i msg = .ok m') :
    Tells m m' := by
  obtain ⟨-, -, -, -, rfl | rfl⟩ := sendToOpponentOf_cases h
  · exact .refl _
  · exact .send hmsg

theorem destroyRoom {id : ℕ} (h : m.destroyRoom id i j = .ok m') : Tells m m' := by
  obtain ⟨-, -, -, -, -, hsent, -⟩ := destroyRoom_cases h
  exact .of_eq hsent

theorem handedOver (st : State) (t : Coordinates) : Tells m (m.handedOver i j st t.text) := by
  have hvalid : Tells m (m.sendToClient j SC_MV_VALID) := fixed (by decide)
  exact hvalid.trans (.send (.move t))

theorem requestMove {t : Coordinates} {b : ℤ} (h : m.requestMove i t.text = .ok (m', b)) :
    Tells m m' := by
  obtain ⟨c, k, r, r', -, -, -, -, ⟨-, -, -, rfl⟩ | ⟨-, -, -, a, d, -, -, hover⟩⟩ :=
    requestMove_outcome h
  · exact .refl _
  have hmoved : Tells m ((m.putRoom k r').handedOver (m.findClientByNick r.onStand)
      (m.findClientByNick r.onTurn) a.state t.text) := handedOver (m := m.putRoom k r') _ _
  rcases hover with ⟨-, rfl⟩ | ⟨-, hdestroy⟩
  · exact hmoved
  · -- both are told how the game has ended
    refine hmoved.trans ((fixed ?_).trans ((fixed ?_).trans (destroyRoom hdestroy)))
    · decide
    · decide

theorem requestLeave {b : ℤ} (h : m.requestLeave i = .ok (m', b)) : Tells m m' := by
  obtain ⟨c, n, m₁, -, -, hsend, hdestroy⟩ := requestLeave_cases h
  have hleave : Tells m (m.sendToClient i SC_RESP_LEAVE) := fixed (by decide)
  have htold : Tells m m₁ := hleave.trans (sendToOpponentOf (.fixed (by decide)) hsend)
  exact htold.trans (destroyRoom hdestroy)

theorem requestChat {t : ChatText} {b : ℤ} (h : m.requestChat i t.text = .ok (m', b)) :
    Tells m m' := by
  obtain ⟨m₁, hsend, h₁⟩ := bind_eq_ok.1 h
  cases h₁
  exact sendToOpponentOf (.chat t) hsend

theorem eraseClient (h : m.eraseClient i = .ok m') : Tells m m' := by
  obtain ⟨c, -, h₁⟩ := bind_eq_ok.1 h
  obtain ⟨m₂, hm₂, h₂⟩ := bind_eq_ok.1 h₁
  cases h₂
  change Tells m m₂
  split_ifs at hm₂
  · obtain ⟨n, -, h₃⟩ := bind_eq_ok.1 hm₂
    obtain ⟨o, -, hdestroy⟩ := bind_eq_ok.1 h₃
    have hgone := destroyRoom hdestroy
    split_ifs at hgone
    · have htold : Tells m (m.sendToClient (m.findClientByNick n) SC_OPN_GONE) := fixed (by decide)
      exact (htold.trans (fixed (by decide))).trans hgone
    · exact hgone
  · cases hm₂
    exact .refl _

theorem pingClient (h : m.pingClient i = .ok m') : Tells m m' := by
  obtain ⟨c, -, h₁⟩ := bind_eq_ok.1 h
  split_ifs at h₁
  · cases h₁
    exact .refl m
  · have hping : Tells m (m.sendToClient i OP_PING) := fixed (by decide)
    obtain ⟨c', -, h₂⟩ := bind_eq_ok.1 h₁
    split_ifs at h₂
    · have hlost : Plain SC_OPN_LOST := .fixed (by decide)
      have htold := sendToOpponentOf hlost h₂
      exact hping.trans htold
    · cases h₂
      exact hping
  · cases h₁
    exact fixed (m := m) (by decide)
  · obtain ⟨c', -, h₂⟩ := bind_eq_ok.1 h₁
    split_ifs at h₂
    · cases h₂
      exact .refl m
    · cases h₂
      exact .refl m
  · cases h₁
    exact fixed (m := m) (by decide)

theorem pingLoop {k : ℕ} (h : (List.range k).foldlM ClientManager.pingClient m = .ok m') :
    Tells m m' := by
  induction k generalizing m' with
  | zero =>
    cases h
    exact .refl _
  | succ k ih =>
    rw [List.range_succ, List.foldlM_append] at h
    obtain ⟨m₁, hm₁, h₁⟩ := bind_eq_ok.1 h
    obtain ⟨m₂, hm₂, h₂⟩ := bind_eq_ok.1 h₁
    cases h₂
    exact (ih hm₁).trans (pingClient hm₂)

end Tells

/-! ### Reconnecting -/

/-- The message is plain, or it tells the client of the game it is back in. -/
def Told (m : ClientManager) (p : ℕ × Text) : Prop :=
  Plain p.2 ∨ ∃ c, m.clients[p.1]? = some c ∧ m.composeMsgInGameRecn c = .ok p.2

theorem Tells.told (h : Tells m m') : Sends m''.Told m m' := h.mono fun _ => Or.inl

theorem told_reportReconnection (h : m.reportReconnection i = .ok m') : Sends m'.Told m m' := by
  obtain ⟨c, hc, h₁⟩ := bind_eq_ok.1 h
  obtain ⟨m₁, hm₁, h₂⟩ := bind_eq_ok.1 h₁
  cases h₂
  split_ifs at hm₁
  · cases hm₁
    have hlobby : Tells m (m.sendToClient i composeMsgInLobbyRecn) := .fixed (by decide)
    exact hlobby.told
  · obtain ⟨msg, hmsg, hsend⟩ := bind_eq_ok.1 hm₁
    obtain ⟨hcs, hl⟩ := sendToOpponentOf_same hsend
    have hrecn : Tells (m.sendToClient i msg) m₁ := .sendToOpponentOf (.fixed (by decide)) hsend
    refine Sends.trans (.send (Or.inr ⟨c, ?_, ?_⟩)) hrecn.told
    · change m₁.clients[i]? = some c
      rw [hcs]
      exact deref_eq_ok.1 hc
    · change m₁.composeMsgInGameRecn c = .ok msg
      rw [composeMsgInGameRecn, hl]
      exact hmsg

theorem told_requestConnect {n : Text} {st : State} {b : ℤ}
    (h : m.requestConnect i n st = .ok (m', b)) : Sends m'.Told m m' := by
  obtain ⟨c, -, ⟨-, ⟨-, -, rfl⟩ | ⟨rfl, -⟩⟩ | ⟨-, rfl⟩ | ⟨d, -, -, -, hrec⟩⟩ :=
    requestConnect_cases h
  · have hconn : Tells m (m.sendToClient i SC_RESP_CONN) := .fixed (by decide)
    have hlobby : Tells (m.sendToClient i SC_RESP_CONN)
        ((m.sendToClient i SC_RESP_CONN).sendToClient i SC_IN_LOBBY) := .fixed (by decide)
    exact Tells.told (hconn.trans hlobby)
  · exact .refl _
  · have hused : Tells m (m.sendToClient i SC_NICK_USED) := .fixed (by decide)
    exact hused.told
  · obtain ⟨e, -, ⟨-, rfl⟩ | ⟨-, hrep⟩ | ⟨-, hrep⟩⟩ := handleReconnection_cases hrec
    · have hused : Tells m (m.sendToClient i SC_NICK_USED) := .fixed (by decide)
      exact hused.told
    · have htold := told_reportReconnection hrep
      exact htold
    · have htold := told_reportReconnection hrep
      exact htold

theorem told_serveFrame {st : State} {f : Frame} {b : ℤ}
    (h : m.serveFrame i st f = .ok (m', b)) : Sends m'.Told m m' := by
  cases f with
  | ping =>
    cases h
    have hpong : Tells m (m.sendToClient i OP_PONG) := .fixed (by decide)
    split_ifs
    · exact hpong.told
    · exact hpong.told
  | pong | ready | ok =>
    cases h
    exact .of_eq rfl
  | connect n => exact told_requestConnect h
  | move t => exact (Tells.requestMove h).told
  | leave => exact (Tells.requestLeave h).told
  | chat t => exact (Tells.requestChat h).told

end ClientManager

/-! ### Steps -/

namespace Server

open ClientManager

variable {s s' : Server} {i : ℕ} {l : Input}

theorem tells_closeConnection (h : s.closeConnection i = .ok s') :
    Tells s.mngClient s'.mngClient := by
  obtain ⟨c, -, h₁⟩ := bind_eq_ok.1 h
  split_ifs at h₁
  · cases h₁
    exact .refl _
  · obtain ⟨c', -, h₂⟩ := bind_eq_ok.1 h₁
    split_ifs at h₂
    · obtain ⟨m, hm, rfl⟩ := manage_eq_ok.1 h₂
      have hdisc : Plain SC_OPN_DISC := .fixed (by decide)
      have htold := Tells.sendToOpponentOf hdisc hm
      exact htold
    · cases h₂
      exact .of_eq rfl

theorem tells_erase (h : s.manage (s.mngClient.eraseClient i) = .ok s') :
    Tells s.mngClient s'.mngClient := by
  obtain ⟨m, hm, rfl⟩ := manage_eq_ok.1 h
  exact Tells.eraseClient hm

theorem tells_acceptConnection (ip : Text) (fd : ℤ) :
    Tells s.mngClient (s.acceptConnection ip fd).mngClient := by
  unfold acceptConnection
  split_ifs
  · exact .of_eq rfl
  · exact .refl _

/-- Only plain messages are sent in a part of a pass that handles no frame. -/
theorem preserving_tells : Preserving fun s s' => Tells s.mngClient s'.mngClient where
  refl := fun _ => .refl _
  trans := fun _ _ _ => .trans
  tell := fun s i msg hmsg => by
    have hfixed : ∀ t ∈ [SC_MANY_CLNT, SC_SHDW, SC_KICK], t ∈ fixedMsgs := by decide
    exact Tells.fixed (hfixed msg hmsg)
  close := fun _ _ _ => tells_closeConnection
  erase := fun _ _ _ => tells_erase
  evict := fun _ _ => .of_eq rfl
  unflag := fun _ _ => .of_eq rfl

end Server

open ClientManager in
/-- **What a step sends**, unless it is the pairing: plain messages, and the message to a client
who is back in its game. -/
theorem server_step_told {s s' : Server} {l : Input} (h : server.Step s l s') (hl : l ≠ .pair) :
    ∀ p ∈ s'.mngClient.sent, s'.mngClient.Told p := by
  obtain ⟨-, hexec⟩ := h
  change s.clearSent.handle l = .ok s' at hexec
  suffices hsends : Sends s'.mngClient.Told s.clearSent.mngClient s'.mngClient from hsends.mem rfl
  cases l with
  | accept ip fd =>
    have haccept := Server.tells_acceptConnection (s := s.clearSent) ip fd
    exact Tells.told (haccept.trans (Server.preserving_tells.checkCapacity hexec))
  | frame i f =>
    obtain ⟨c, m, b, -, rfl, ⟨-, rfl⟩ | ⟨-, hserve⟩⟩ := Server.frame_cases hexec
    · exact .refl _
    · exact told_serveFrame hserve
  | close i => exact (Server.tells_closeConnection hexec).told
  | kick i => exact Tells.told (Server.preserving_tells.kick hexec)
  | flags i => exact Tells.told (Server.preserving_tells.processFlags hexec)
  | pair => exact absurd rfl hl
  | ping =>
    obtain ⟨m, hm, rfl⟩ := Server.manage_eq_ok.1 hexec
    exact (Tells.pingLoop hm).told
  | shutdown =>
    obtain ⟨s₁, hs₁, h₁⟩ := bind_eq_ok.1 hexec
    cases h₁
    have hclosed := Server.preserving_tells.closeClientSockets hs₁
    exact Tells.told hclosed

end HnefServer
