import HnefServer.Invariant.Requests

/-!
# The steps of an orderly run

`server_step_changes` says that an orderly step of the server is a sequence of `Hall.Change`.
The clients and the rooms therefore agree in every state an orderly run reaches
(`Server.OrderlyReachable.member`), and the server's runs refine those of the seating plan
(`Server.OrderlyReachable.seating`).
-/

namespace HnefServer

open Protocol ClientManager Hall

namespace Server

variable {strict : Bool} {s s' : Server} {i : ℕ} {c : Client}

theorem changes_closeConnection (hm : s.hall.Member) (h : s.closeConnection i = .ok s') :
    Changes strict s.hall s'.hall := by
  obtain ⟨c, hc, ⟨-, rfl⟩ | ⟨-, m, hcs, hl, rfl⟩⟩ := closeConnection_cases h
  · exact .refl _
  · exact change_client (m := s.mngClient) hc hcs hl
      ⟨(hm.ok c (List.mem_of_getElem? hc)).disconnect, rfl, rfl⟩
      fun _ _ => Client.logical_setState_of_inaccessible rfl

theorem changes_erase (hm : s.hall.Member) (hc : s.mngClient.clients[i]? = some c)
    (hsock : c.socketNum < 0) (h : s.manage (s.mngClient.eraseClient i) = .ok s') :
    Changes strict s.hall s'.hall := by
  obtain ⟨m, hm', rfl⟩ := manage_eq_ok.1 h
  exact changes_eraseClient hm hc hsock hm'

theorem changes_dismissed {msg : Text} (hm : s.hall.Member) (h : Dismissed msg i s s') :
    Changes strict s.hall s'.hall := by
  obtain ⟨s₁, hclose, herase⟩ := h
  let told := { s with mngClient := s.mngClient.sendToClient i msg }
  have hfirst : Changes strict told.hall s₁.hall := changes_closeConnection hm hclose
  obtain ⟨-, c, -, hc, hsock, -⟩ := closed_of_closeConnection hclose
  have hm₁ : s₁.hall.Member := Member.changes (h := told.hall) hm hfirst
  exact hfirst.trans (changes_erase hm₁ hc hsock herase)

theorem changes_acceptConnection {ip : Text} {fd : ℤ} :
    Changes strict s.hall (s.acceptConnection ip fd).hall := by
  unfold acceptConnection
  split_ifs with hfd
  · exact .single (.join _ ip fd hfd)
  · exact .refl _

/-- Whom a full server evicts depends on the clients only. -/
theorem EvictsNoPlayer.congr (h : s.EvictsNoPlayer)
    (hcs : s'.mngClient.clients = s.mngClient.clients) (hmax : s'.maxClients = s.maxClients) :
    s'.EvictsNoPlayer := by
  unfold EvictsNoPlayer longestDisconnected at *
  rwa [hcs, hmax]

theorem acceptConnection_clearSent (ip : Text) (fd : ℤ) :
    (s.clearSent.acceptConnection ip fd).mngClient.clients =
        (s.acceptConnection ip fd).mngClient.clients ∧
      (s.clearSent.acceptConnection ip fd).maxClients = (s.acceptConnection ip fd).maxClients := by
  unfold acceptConnection
  split_ifs <;> exact ⟨rfl, rfl⟩

theorem changes_checkCapacity (hm : s.hall.Member) (hevict : s.EvictsNoPlayer)
    (h : s.checkCapacity = .ok s') : Changes strict s.hall s'.hall := by
  rcases checkCapacity_cases h with ⟨hfull, k, c, hk, hc, -, rfl⟩ | ⟨-, -, hdismiss⟩ | ⟨-, rfl⟩
  · exact .single (.drop _ k c hc (hevict hfull k hk c hc))
  · exact changes_dismissed hm hdismiss
  · exact .refl _

theorem changes_processFlags (hm : s.hall.Member) (h : s.processFlags i = .ok s') :
    Changes strict s.hall s'.hall := by
  obtain ⟨c, s₁, c₁, hc, hc₁, hflag, hfirst, hsecond⟩ := processFlags_cases h
  -- an instance that is erased now has no connection
  have hclosed : Changes strict s.hall s₁.hall ∧ (c₁.flagToErase = true → c₁.socketNum < 0) := by
    rcases hfirst with ⟨-, hsock, s₂, hs₂, rfl⟩ | ⟨hdisc, rfl⟩
    · have hclose : Changes strict s.hall s₂.hall := changes_closeConnection hm hs₂
      obtain ⟨-, c₂, -, hc₂, hsock₂, -⟩ := closed_of_closeConnection hs₂
      have hok := (hm.changes hclose).ok c₂ (List.mem_of_getElem? hc₂)
      have hreset : Changes strict s₂.hall
          (s₂.mngClient.modify i (·.setFlagToDisconnect false)).hall :=
        change_client hc₂ rfl rfl ⟨hok.clearFlag hsock₂, rfl, rfl⟩ fun _ _ => rfl
      exact ⟨hclose.trans hreset, fun _ => hsock⟩
    · obtain rfl : c = c₁ := Option.some.inj (hc.symm.trans hc₁)
      exact ⟨.refl _, fun he => (hm.ok c (List.mem_of_getElem? hc)).flags he hdisc⟩
  rcases hsecond with ⟨he, herase⟩ | ⟨-, rfl⟩
  · exact hclosed.1.trans
      (changes_erase (hm.changes hclosed.1) hc₁ (hclosed.2 (hflag.trans he)) herase)
  · exact hclosed.1

theorem changes_closeClientSockets {fuel : ℕ} (hm : s.hall.Member)
    (h : closeClientSockets fuel s = .ok s') : Changes strict s.hall s'.hall :=
  closeClientSockets_invariant (P := fun s' => Changes strict s.hall s'.hall)
    (fun _ _ hs hst => hs.trans (changes_dismissed (hm.changes hs) hst)) (.refl _) h

end Server

variable {strict : Bool} {s s' : Server} {l : Input}

/-- **An orderly step** is a sequence of changes of the clients and the rooms. -/
theorem server_step_changes (hm : s.hall.Member) (ho : s.Orderly strict l)
    (h : server.Step s l s') : Changes strict s.hall s'.hall := by
  obtain ⟨hguard, hexec⟩ := h
  change s.clearSent.handle l = .ok s' at hexec
  change s.clearSent.hall.Member at hm
  change Changes strict s.clearSent.hall s'.hall
  cases l with
  | accept ip fd =>
    have hjoin : Changes strict s.clearSent.hall (s.clearSent.acceptConnection ip fd).hall :=
      Server.changes_acceptConnection
    refine hjoin.trans (Server.changes_checkCapacity (hm.changes hjoin) ?_ hexec)
    exact Server.EvictsNoPlayer.congr ho (Server.acceptConnection_clearSent ip fd).1
      (Server.acceptConnection_clearSent ip fd).2
  | frame client d =>
    obtain ⟨c, m, b, hc, rfl, ⟨-, rfl⟩ | ⟨hacc, hserve⟩⟩ := Server.frame_cases hexec
    · exact .refl _
    · obtain ⟨-, c', hc', hsock⟩ := hguard
      obtain rfl : c = c' := Option.some.inj (hc.symm.trans hc')
      exact changes_serveFrame hm hc hsock (ho c hc) hacc hserve
  | close client => exact Server.changes_closeConnection hm hexec
  | kick client =>
    exact Server.changes_closeConnection
      (s := { s.clearSent with mngClient := s.clearSent.mngClient.sendToClient client SC_KICK })
      hm hexec
  | flags client => exact Server.changes_processFlags hm hexec
  | pair =>
    obtain ⟨m, hm', rfl⟩ := Server.manage_eq_ok.1 hexec
    exact changes_pairLoop hm hm'
  | ping =>
    obtain ⟨m, hm', rfl⟩ := Server.manage_eq_ok.1 hexec
    exact changes_pingLoop _ hm hm'
  | shutdown =>
    obtain ⟨s₁, hs₁, h₁⟩ := bind_eq_ok.1 hexec
    cases h₁
    have hclosed : Changes strict s.clearSent.hall s₁.hall :=
      Server.changes_closeClientSockets hm hs₁
    exact hclosed

/-- The server's steps refine those of the seating plan. -/
theorem server_step_seating (hm : s.hall.Member) (ho : s.Orderly strict l)
    (h : server.Step s l s') : Seating.Steps s.hall.seating s'.hall.seating := by
  have hst := server_step_changes hm ho h
  have hplan := hst.invariant (P := fun h => Seating.Steps s.hall.seating h.seating)
    (fun _ _ hm hsteps hst => Relation.ReflTransGen.trans hsteps (hst.seating hm)) hm
    Relation.ReflTransGen.refl
  exact hplan.2

namespace Hall

/-- Nobody is seated on a server that was just set up. -/
theorem seating_create (clients rooms : ℕ) (fd : ℤ) :
    (Server.create clients rooms fd).hall.seating = Seating.empty := by
  ext n x y
  · exact ⟨fun ⟨_, c, hc, _⟩ => (by cases hc), nofun⟩
  · exact ⟨fun ⟨r, hr, _⟩ => (by cases hr), nofun⟩

theorem Member.create (clients rooms : ℕ) (fd : ℤ) :
    (Server.create clients rooms fd).hall.Member where
  ok := fun c hc => by cases hc
  names := distinctKeys_nil
  ids := distinctKeys_nil
  bound := fun r hr => by cases hr
  arranged := seating_create clients rooms fd ▸ .empty
  colours := fun r hr => by cases hr

end Hall

/-- **The clients and the rooms agree in every state an orderly run reaches.** -/
theorem Server.OrderlyReachable.member {clients rooms : ℕ} {fd : ℤ}
    (h : Server.OrderlyReachable strict clients rooms fd s) : s.hall.Member :=
  System.ReachableIf.invariant (I := fun s : Server => s.hall.Member) h
    (Hall.Member.create clients rooms fd) fun _ _ _ hm ho hst =>
      hm.changes (server_step_changes hm ho hst)

/-- **An orderly run is a run of the seating plan**, from the one where nobody sits. -/
theorem Server.OrderlyReachable.seating {clients rooms : ℕ} {fd : ℤ}
    (h : Server.OrderlyReachable strict clients rooms fd s) :
    Seating.Steps Seating.empty s.hall.seating := by
  induction h with
  | refl => exact Hall.seating_create clients rooms fd ▸ .refl
  | tail hrun hst ih =>
    obtain ⟨l, ho, hst⟩ := hst
    exact ih.trans (server_step_seating (Server.OrderlyReachable.member hrun) ho hst)

end HnefServer
