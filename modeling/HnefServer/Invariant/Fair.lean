import HnefServer.Invariant.Listed
import HnefServer.Invariant.Steps

/-!
# Fair runs

Every room is played by the two players it lists as long as nobody else becomes Ready than a named
client in the lobby, and nobody in a room loses its nick, its room or its state in the game
(`Server.Fair`, `Server.FairReachable.listed`).
-/

namespace HnefServer

open Protocol ClientManager

namespace Server

/-- An input that makes nobody Ready but a named client in the lobby, and takes no player out of
its game. -/
def Fair (s : Server) : Input → Prop
  | .frame i d => ∀ c ∈ s.mngClient.clients[i]?, s.mngClient.FairFrame c d
  | .accept ip fd => (s.acceptConnection ip fd).EvictsNoPlayer
  | _ => True

instance (s : Server) : (l : Input) → Decidable (s.Fair l)
  | .frame i d => inferInstanceAs (Decidable (∀ c ∈ s.mngClient.clients[i]?,
      s.mngClient.FairFrame c d))
  | .accept ip fd => inferInstanceAs (Decidable (s.acceptConnection ip fd).EvictsNoPlayer)
  | .close _ => isTrue trivial
  | .kick _ => isTrue trivial
  | .flags _ => isTrue trivial
  | .pair => isTrue trivial
  | .ping => isTrue trivial
  | .shutdown => isTrue trivial

open Hall

variable {s s' : Server} {i : ℕ} {c : Client}

theorem listed_closeConnection (hl : s.hall.Listed) (h : s.closeConnection i = .ok s') :
    s'.hall.Listed := by
  obtain ⟨c, hc, ⟨-, rfl⟩ | ⟨-, m, hcs, hlobby, rfl⟩⟩ := closeConnection_cases h
  · exact hl
  · exact Listed.client (m := s.mngClient) hl hc hcs hlobby
      (hl.fit c (List.mem_of_getElem? hc)).disconnect fun _ _ _ _ => ⟨rfl, rfl⟩

theorem listed_erase (hb : s.world.Base) (hl : s.hall.Listed)
    (hc : s.mngClient.clients[i]? = some c) (hsock : c.socketNum < 0)
    (h : s.manage (s.mngClient.eraseClient i) = .ok s') : s'.hall.Listed := by
  obtain ⟨m, hm, rfl⟩ := manage_eq_ok.1 h
  have hb : (s.mngClient.world s.sockets).Base := hb
  exact Listed.eraseClient hl hb hc hsock hm

theorem listed_dismissed {msg : Text} (hb : s.world.Base) (hl : s.hall.Listed)
    (h : Dismissed msg i s s') : s'.hall.Listed := by
  obtain ⟨s₁, hclose, herase⟩ := h
  obtain ⟨-, c, -, hc, hsock, -⟩ := closed_of_closeConnection hclose
  let told := { s with mngClient := s.mngClient.sendToClient i msg }
  have hb₁ := hb.upds ((upds_sendToClient s i msg).trans (upds_closeConnection hclose))
  exact listed_erase hb₁ (listed_closeConnection (s := told) hl hclose) hc hsock herase

theorem listed_acceptConnection {ip : Text} {fd : ℤ} (hl : s.hall.Listed) :
    (s.acceptConnection ip fd).hall.Listed := by
  unfold acceptConnection
  split_ifs with hfd
  · refine ⟨fun c hc => ?_, fun r hr => (hl.played r hr).mono fun n hn => hn.append _⟩
    rcases List.mem_append.1 hc with hc | hc
    · exact hl.fit c hc
    · rw [List.mem_singleton.1 hc]
      exact .create hfd
  · exact hl

theorem listed_checkCapacity (hb : s.world.Base) (hl : s.hall.Listed) (hevict : s.EvictsNoPlayer)
    (h : s.checkCapacity = .ok s') : s'.hall.Listed := by
  rcases checkCapacity_cases h with ⟨hfull, k, c, hk, hc, -, rfl⟩ | ⟨-, -, hdismiss⟩ | ⟨-, rfl⟩
  · have hb : (s.mngClient.world s.sockets).Base := hb
    exact Listed.erase hl hb hc (hevict hfull k hk c hc) rfl rfl
  · exact listed_dismissed hb hl hdismiss
  · exact hl

theorem listed_processFlags (hb : s.world.Base) (hl : s.hall.Listed)
    (h : s.processFlags i = .ok s') : s'.hall.Listed := by
  obtain ⟨c, s₁, c₁, hc, hc₁, hflag, hfirst, hsecond⟩ := processFlags_cases h
  -- an instance that is erased now has no connection
  have hclosed : s₁.world.Base ∧ s₁.hall.Listed ∧
      (c₁.flagToErase = true → c₁.socketNum < 0) := by
    rcases hfirst with ⟨-, hsock, s₂, hs₂, rfl⟩ | ⟨hdisc, rfl⟩
    · have hb₂ := hb.upds (upds_closeConnection hs₂)
      have hl₂ := listed_closeConnection hl hs₂
      obtain ⟨-, c₂, -, hc₂, hsock₂, -⟩ := closed_of_closeConnection hs₂
      refine ⟨hb₂.upds (upds_manage (updates_modify (.setFlagToDisconnect _) i)), ?_,
        fun _ => hsock⟩
      exact Listed.client (m := s₂.mngClient) hl₂ hc₂ rfl rfl
        ((hl₂.fit c₂ (List.mem_of_getElem? hc₂)).clearFlag hsock₂) fun _ _ _ _ => ⟨rfl, rfl⟩
    · obtain rfl : c = c₁ := Option.some.inj (hc.symm.trans hc₁)
      exact ⟨hb, hl, fun he => (hl.fit c (List.mem_of_getElem? hc)).flags he hdisc⟩
  obtain ⟨hb₁, hl₁, hsock⟩ := hclosed
  rcases hsecond with ⟨he, herase⟩ | ⟨-, rfl⟩
  · exact listed_erase hb₁ hl₁ hc₁ (hsock (hflag.trans he)) herase
  · exact hl₁

theorem listed_closeClientSockets {fuel : ℕ} (hb : s.world.Base) (hl : s.hall.Listed)
    (h : closeClientSockets fuel s = .ok s') : s'.hall.Listed := by
  have hboth := closeClientSockets_invariant (P := fun s => s.world.Base ∧ s.hall.Listed)
    (fun _ _ hs hst => ⟨hs.1.upds (preserving_upds.dismissed (by simp) hst), listed_dismissed hs.1 hs.2 hst⟩) ⟨hb, hl⟩ h
  exact hboth.2

end Server

variable {s s' : Server} {l : Input}

/-- **A fair step keeps every room played by its two players.** -/
theorem server_step_listed (hb : s.world.Base) (hl : s.hall.Listed) (ho : s.Fair l)
    (h : server.Step s l s') : s'.hall.Listed := by
  obtain ⟨hguard, hexec⟩ := h
  change s.clearSent.handle l = .ok s' at hexec
  change s.clearSent.hall.Listed at hl
  change s.clearSent.world.Base at hb
  cases l with
  | accept ip fd =>
    have hjoined : (s.clearSent.acceptConnection ip fd).world.Base :=
      hb.upds (Server.upds_acceptConnection hguard.2)
    refine Server.listed_checkCapacity hjoined (Server.listed_acceptConnection hl) ?_ hexec
    exact Server.EvictsNoPlayer.congr ho (Server.acceptConnection_clearSent ip fd).1
      (Server.acceptConnection_clearSent ip fd).2
  | frame client d =>
    obtain ⟨c, m, b, hc, rfl, ⟨-, rfl⟩ | ⟨hacc, hserve⟩⟩ := Server.frame_cases hexec
    · exact hl
    · obtain ⟨-, c', hc', hsock⟩ := hguard
      obtain rfl : c = c' := Option.some.inj (hc.symm.trans hc')
      have hb : (s.mngClient.world s.sockets).Base := hb
      exact Hall.Listed.serveFrame hl hb hc hsock (ho c hc) hacc hserve
  | close client => exact Server.listed_closeConnection hl hexec
  | kick client =>
    exact Server.listed_closeConnection
      (s := { s.clearSent with mngClient := s.clearSent.mngClient.sendToClient client SC_KICK })
      hl hexec
  | flags client => exact Server.listed_processFlags hb hl hexec
  | pair =>
    obtain ⟨m, hm, rfl⟩ := Server.manage_eq_ok.1 hexec
    have hb : (s.mngClient.world s.sockets).Base := hb
    exact Hall.Listed.pairLoop hl hb hm
  | ping =>
    obtain ⟨m, hm, rfl⟩ := Server.manage_eq_ok.1 hexec
    exact Hall.Listed.pingClients hl hm
  | shutdown =>
    obtain ⟨s₁, hs₁, h₁⟩ := bind_eq_ok.1 hexec
    cases h₁
    have hclosed := Server.listed_closeClientSockets hb hl hs₁
    exact hclosed

/-- The states a fair run reaches. -/
def Server.FairReachable (clients rooms : ℕ) (fd : ℤ) (s : Server) : Prop :=
  server.ReachableIf Server.Fair (Server.create clients rooms fd) s

/-- **Every room is played by its two players in every state a fair run reaches.** -/
theorem Server.FairReachable.listed {clients rooms : ℕ} {fd : ℤ}
    (h : Server.FairReachable clients rooms fd s) : s.hall.Listed := by
  have hboth : s.world.Base ∧ s.hall.Listed := by
    refine System.ReachableIf.invariant (I := fun s : Server => s.world.Base ∧ s.hall.Listed) h
      ⟨.create clients rooms fd, ?_, ?_⟩ fun s l s' hs ho hst => ?_
    · intro c hc
      cases hc
    · intro r hr
      cases hr
    · exact ⟨hs.1.upds (server_step_upds hst), server_step_listed hs.1 hs.2 ho hst⟩
  exact hboth.2

end HnefServer
