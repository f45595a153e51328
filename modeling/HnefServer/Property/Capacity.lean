import HnefServer.Property.Passes

/-!
# The capacity of the server

A pass ends with at most as many clients as the server may have, and the check of the capacity
removes one instance at most: a Disconnected one with the smallest count of pings, or the
connection that was just accepted (`capacity_kept`).  The Disconnected instance is dropped without
the steps of `eraseClient`; `eviction_agrees_iff` says when this makes no difference.
-/

namespace HnefServer

open Protocol ClientManager

namespace Server

variable {clients rooms : ℕ} {fd : ℤ} {s s' : Server} {ev : Events} {i k : ℕ} {c : Client}

/-! ### Refusing a connection -/

/-- The connection of a client that has not been in a game is closed. -/
theorem closeConnection_of_lobby (hc : s.mngClient.clients[i]? = some c) (hsock : 0 ≤ c.socketNum)
    (hgame : (disconnect c).stateLast.inGame = false) :
    ∃ s', s.closeConnection i = .ok s' ∧
      s'.mngClient.clients = s.mngClient.clients.modify i disconnect := by
  have hmod : ((s.mngClient.setDisconnected i).setBadSocket i (-42)).clients =
      s.mngClient.clients.modify i disconnect := by
    simp only [setBadSocket, setDisconnected, ClientManager.modify, List.modify_modify_eq]
    rfl
  have hread : ((s.mngClient.setDisconnected i).setBadSocket i (-42)).deref i =
      .ok (disconnect c) := by
    rw [deref_eq_ok, hmod, List.getElem?_modify_eq, hc]
    rfl
  rw [closeConnection, deref_eq_ok.2 hc, ok_bind, if_neg (not_lt.2 hsock)]
  simp only [hread, ok_bind, hgame, Bool.false_eq_true, if_false]
  exact ⟨_, rfl, hmod⟩

/-- A connection that was just accepted is refused: the clients are those from before. -/
theorem refuseConnection_new {cs : List Client} {ip : Text} {f : ℤ} (hf : 0 < f)
    (hcs : s.mngClient.clients = cs ++ [Client.create ip f]) :
    ∃ s', s.refuseConnection = .ok s' ∧ s'.mngClient.clients = cs := by
  have hlen : s.mngClient.clients.length - 1 = cs.length := by simp [hcs]
  have hnew : s.mngClient.clients[cs.length]? = some (Client.create ip f) := by simp [hcs]
  obtain ⟨s₁, hs₁, hcs₁⟩ := closeConnection_of_lobby (c := Client.create ip f)
    (s := { s with mngClient := s.mngClient.sendToClient cs.length SC_MANY_CLNT }) hnew hf.le rfl
  have hc₁ : s₁.mngClient.clients[cs.length]? = some (disconnect (Client.create ip f)) := by
    rw [hcs₁, List.getElem?_modify_eq]
    exact congrArg (Option.map disconnect) hnew
  have herase : s₁.mngClient.eraseClient cs.length =
      .ok { s₁.mngClient with clients := s₁.mngClient.clients.eraseIdx cs.length } := by
    rw [eraseClient, deref_eq_ok.2 hc₁, ok_bind, if_neg fun h => h.1 rfl]
    rfl
  refine ⟨{ s₁ with mngClient :=
    { s₁.mngClient with clients := s₁.mngClient.clients.eraseIdx cs.length } }, ?_, ?_⟩
  · rw [refuseConnection, hlen]
    simp only [hs₁, ok_bind, manage, herase]
    rfl
  · change s₁.mngClient.clients.eraseIdx cs.length = cs
    rw [hcs₁, List.eraseIdx_modify_of_eq]
    change s.mngClient.clients.eraseIdx cs.length = cs
    rw [hcs, List.eraseIdx_append_of_length_le le_rfl, Nat.sub_self]
    exact List.append_nil cs

/-! ### The check of the capacity -/

/-- What the check of the capacity has removed in a pass, `s` being the server before the pass and
`s₁` after the check: nothing; a Disconnected instance, which has no connection, with the smallest
count of pings; or, if no instance is Disconnected, the connection that was just accepted. -/
def Trimmed (s : Server) (ev : Events) (s₁ : Server) : Prop :=
  let full := (s.acceptRequest ev).mngClient.clients
  s₁.mngClient.clients = full ∨
    (∃ k c, full[k]? = some c ∧ c.state = .disconnected ∧ c.socketNum < 0 ∧
      (∀ d ∈ full, d.state = .disconnected → c.cntrPings ≤ d.cntrPings) ∧
      s₁.mngClient.clients = full.eraseIdx k) ∨
    ((∀ d ∈ full, d.state ≠ .disconnected) ∧ s₁.mngClient.clients = s.mngClient.clients ∧
      full = s.mngClient.clients ++ [Client.create ev.accepted.1 ev.accepted.2])

theorem clients_acceptRequest (s : Server) (ev : Events) :
    (s.acceptRequest ev).mngClient.clients = s.mngClient.clients ∨
    0 < ev.accepted.2 ∧ (s.acceptRequest ev).mngClient.clients =
      s.mngClient.clients ++ [Client.create ev.accepted.1 ev.accepted.2] := by
  unfold acceptRequest
  split_ifs
  · rw [clients_acceptConnection]
    split_ifs with hfd
    · exact Or.inr ⟨hfd, rfl⟩
    · exact Or.inl rfl
  · exact Or.inl rfl

theorem setup_acceptRequest (ev : Events) (s : Server) : SameSetup s (s.acceptRequest ev) := by
  unfold acceptRequest
  split_ifs
  · exact .acceptConnection _ _
  · exact .refl _

/-- Below the capacity the answer to a connection request and the check of the capacity return, and
leave the server below the capacity. -/
theorem checkCapacity_trims (ev : Events) (hb : s.world.Base)
    (hcap : s.mngClient.clients.length < s.maxClients) :
    ∃ s₁, (s.acceptRequest ev).checkCapacity = .ok s₁ ∧ Trimmed s ev s₁ ∧
      s₁.mngClient.clients.length < s.maxClients := by
  have hmax := (setup_acceptRequest ev s).maxClients
  by_cases hfull : (s.acceptRequest ev).mngClient.clients.length = s.maxClients
  swap
  · refine ⟨s.acceptRequest ev, if_neg (hmax ▸ hfull), Or.inl rfl, ?_⟩
    rcases clients_acceptRequest s ev with hsame | ⟨-, hjoin⟩
    · rwa [hsame]
    · rw [hjoin, List.length_append, List.length_singleton] at hfull ⊢
      omega
  -- the server is full, so a connection was accepted
  obtain ⟨hfd, hjoin⟩ := (clients_acceptRequest s ev).resolve_left fun hsame => by
    rw [hsame] at hfull
    omega
  rw [checkCapacity, if_pos (hfull.trans hmax.symm)]
  rcases longestDisconnected_cases (s.acceptRequest ev).mngClient with
    ⟨hdisc, k, c, hk, hc, hstate, hmin⟩ | ⟨hdisc, hk, hnone⟩
  · rw [if_pos hdisc]
    have hcs : (s.acceptRequest ev).mngClient.eraseLongestDisconnectedClient.clients =
        (s.acceptRequest ev).mngClient.clients.eraseIdx k := by
      simp only [eraseLongestDisconnectedClient, hk]
    have hlt := (List.getElem?_eq_some_iff.1 hc).1
    refine ⟨_, rfl, Or.inr (Or.inl ⟨k, c, hc, hstate, ?_, hmin, hcs⟩), ?_⟩
    · rw [hjoin] at hc
      rcases List.mem_append.1 (List.mem_of_getElem? hc) with hmem | hmem
      · exact (hb.sound c hmem).gone hstate
      · rw [List.mem_singleton.1 hmem] at hstate
        cases hstate
    · change (s.acceptRequest ev).mngClient.eraseLongestDisconnectedClient.clients.length < _
      rw [hcs, List.length_eraseIdx, if_pos hlt]
      omega
  · rw [if_neg (by simp [hdisc])]
    obtain ⟨s₁, hs₁, hcs⟩ := refuseConnection_new hfd hjoin
    exact ⟨s₁, hs₁, Or.inr (Or.inr ⟨hnone, hcs, hjoin⟩), hcs ▸ hcap⟩

/-! ### Runs of passes -/

/-- What holds after every pass. -/
structure PassInv (N : ℕ) (s : Server) : Prop where
  base : s.world.Base
  maxClients : s.maxClients = N + 1
  length : s.mngClient.clients.length ≤ N

theorem PassInv.handle {N : ℕ} (h : PassInv N s) {l : Input} (hguard : s.guard l)
    (hl : l ≠ .shutdown) (hs' : s.handle l = .ok s')
    (hlen : s'.mngClient.clients.length ≤ s.mngClient.clients.length) : PassInv N s' :=
  ⟨h.base.upds (upds_handle hguard hs'), (SameSetup.handle hl hs').maxClients.trans h.maxClients,
    hlen.trans h.length⟩

theorem PassInv.step {N : ℕ} (h : PassInv N s) {l : Turn} (hst : passes.Step s l s') :
    PassInv N s' := by
  obtain ⟨hguard, hexec⟩ := hst
  have h : PassInv N s.clearSent := ⟨h.base, h.maxClients, h.length⟩
  cases l with
  | update ev =>
    have hcap : s.clearSent.mngClient.clients.length < s.clearSent.maxClients := by
      rw [h.maxClients]
      exact Nat.lt_succ_of_le h.length
    have hhandled := updateClients_handled (s := s.clearSent) hguard.1 hcap hguard.2 hexec
    obtain ⟨s₁, hs₁, h₁⟩ := bind_eq_ok.1 hexec
    obtain ⟨⟨s₂, cli₂⟩, hs₂, h₂⟩ := bind_eq_ok.1 h₁
    obtain ⟨s₃, hs₃, -, hlen⟩ := checkCapacity_trims ev h.base hcap
    obtain rfl : s₁ = s₃ := Except.ok.inj (hs₁.symm.trans hs₃)
    have hsetup : SameSetup s.clearSent s' :=
      ((setup_acceptRequest ev _).trans (SameSetup.preserving.checkCapacity hs₁)).trans
        ((SameSetup.updateLoop hs₂).trans (.manage h₂))
    obtain ⟨m, hm, rfl⟩ := manage_eq_ok.1 h₂
    have hpair : AllKept false s₂.mngClient.clients m.clients := AllKept.pairLoop hm
    have hloop := length_updateLoop hs₂
    refine ⟨h.base.upds hhandled.upds, hsetup.maxClients.trans h.maxClients, ?_⟩
    change m.clients.length ≤ N
    rw [← hpair.length_eq]
    rw [h.maxClients] at hlen
    omega
  | ping =>
    obtain ⟨m, hm, hs'⟩ := manage_eq_ok.1 hexec
    refine h.handle (l := .ping) hguard nofun hexec ?_
    rw [← hs', (pingClients_spec hm).1, List.length_map]
  | shutdown =>
    obtain ⟨s₁, hs₁, h₁⟩ := bind_eq_ok.1 hexec
    have hend := nil_of_closeClientSockets le_rfl hs₁
    refine ⟨h.base.upds (upds_shutdown hexec), (shutdown_setup hexec).1.trans h.maxClients, ?_⟩
    cases h₁
    rw [hend]
    exact Nat.zero_le N

/-- The invariants of all runs hold after every pass. -/
theorem passInv {N : ℕ} (h : passes.Reachable (create N rooms fd) s) : PassInv N s :=
  System.Reachable.invariant (I := PassInv N) h
    ⟨.create N rooms fd, rfl, Nat.zero_le N⟩ fun _ _ _ hs hst => hs.step hst

/-- **The capacity is kept.**  After every pass the server has at most as many clients as it may
have, and the capacity handling of the next pass returns and removes at most one instance: a
Disconnected one with the smallest count, or the connection just accepted. -/
theorem capacity_kept {N : ℕ} (h : passes.Reachable (create N rooms fd) s) :
    s.mngClient.clients.length ≤ N ∧ ∀ ev, ∃ s₁,
      (s.clearSent.acceptRequest ev).checkCapacity = .ok s₁ ∧ Trimmed s.clearSent ev s₁ ∧
        s₁.mngClient.clients.length ≤ N := by
  have hinv := passInv h
  refine ⟨hinv.length, fun ev => ?_⟩
  obtain ⟨s₁, hs₁, htrim, hlen⟩ := checkCapacity_trims (s := s.clearSent) ev hinv.base
    (Nat.lt_of_lt_of_eq (Nat.lt_succ_of_le hinv.length) hinv.maxClients.symm)
  refine ⟨s₁, hs₁, htrim, Nat.le_of_lt_succ ?_⟩
  rwa [show s.clearSent.maxClients = N + 1 from hinv.maxClients] at hlen

/-- A pass in which a connection is accepted on `f`. -/
def acceptPass (f : ℤ) : Turn := .update ⟨[3], [], ("10.0.0.4".toList, f), fun _ => .nothing⟩

/-- A pass in which the client on `f` has logged out. -/
def logoutPass (f : ℤ) : Turn := .update ⟨[f], [], ([], -1), fun _ => .nothing⟩

/-- A full server with a client that has logged out. -/
theorem capacity_kept_full : ∃ s : Server, s.mngClient.clients.length = 2 ∧
    s.mngClient.isDisconnectedClient = true ∧ ∀ ev, ∃ s₁,
      (s.clearSent.acceptRequest ev).checkCapacity = .ok s₁ ∧ Trimmed s.clearSent ev s₁ ∧
        s₁.mngClient.clients.length ≤ 2 := by
  have hrun : (passes.replay (fun _ _ => True) (create 2 5 3)
      [acceptPass 4, .ping, acceptPass 5, logoutPass 4]).any (fun s =>
        decide (s.mngClient.clients.length = 2) && s.mngClient.isDisconnectedClient) = true := by
    decide +kernel
  obtain ⟨s, hs, ht⟩ := System.exists_reachableIf hrun
  rw [Bool.and_eq_true, decide_eq_true_eq] at ht
  exact ⟨s, ht.1, ht.2, (capacity_kept hs).2⟩

/-! ### Eviction -/

/-- The rooms are the same, and so are the room and the logical state of every client. -/
structure SamePlaces (m m' : ClientManager) : Prop where
  games : m'.lobby.games = m.lobby.games
  clients : List.Forall₂ (fun c c' => c'.roomId = c.roomId ∧ c'.logical = c.logical)
    m.clients m'.clients

/-- **When the eviction of a client agrees with erasing it.**  The client that a full server evicts
could as well be erased iff it has no room to leave. -/
theorem eviction_agrees_iff (hfull : s.mngClient.clients.length = s.maxClients)
    (hdisc : s.mngClient.isDisconnectedClient = true) :
    ∃ k c, s.mngClient.longestDisconnected = some k ∧ s.mngClient.clients[k]? = some c ∧
      s.checkCapacity = .ok { s with mngClient := s.mngClient.eraseLongestDisconnectedClient } ∧
      ((∃ m, s.mngClient.eraseClient k = .ok m ∧
        SamePlaces m s.mngClient.eraseLongestDisconnectedClient) ↔ ¬ HasRoom c) := by
  rcases longestDisconnected_cases s.mngClient with ⟨-, k, c, hk, hc, -⟩ | ⟨hnone, -⟩
  swap
  · rw [hnone] at hdisc
    cases hdisc
  have hevict : s.mngClient.eraseLongestDisconnectedClient =
      { s.mngClient with clients := s.mngClient.clients.eraseIdx k } := by
    simp only [eraseLongestDisconnectedClient, hk]
  refine ⟨k, c, hk, hc, by rw [checkCapacity, if_pos hfull, if_pos hdisc], ?_⟩
  rw [hevict]
  constructor
  · rintro ⟨m, herase, hgames, -⟩ ⟨hn, hroom, hgame⟩
    obtain ⟨c', hc', ⟨hnot, -⟩ | ⟨-, n, m₁, m₂, -, -, hl, hdestroy, rfl⟩⟩ :=
      eraseClient_cases herase
    all_goals obtain rfl : c = c' := Option.some.inj (hc.symm.trans hc')
    · exact hnot ⟨hn, hroom, hgame⟩
    · -- erasing the client destroys its room
      obtain ⟨a, b, -, -, -, -, ⟨hzero, -⟩ | ⟨-, hlt, hl₂⟩⟩ := destroyRoom_cases hdestroy
      · exact hroom hzero
      · rw [hl] at hlt hl₂
        have hlen := congrArg List.length hgames
        simp only [hl₂, List.length_eraseIdx, if_pos hlt] at hlen
        omega
  · intro hnot
    refine ⟨_, ?_, rfl, List.forall₂_same.2 fun _ _ => ⟨rfl, rfl⟩⟩
    rw [eraseClient, deref_eq_ok.2 hc, ok_bind, if_neg (show ¬ (_ ∧ _) from hnot)]
    rfl

/-- A connection is accepted by a server whose only client has logged out. -/
theorem eviction_agrees_lobby : ∃ (s t : Server) (k : ℕ) (c : Client),
    Server.Reachable 1 5 3 s ∧ t = s.acceptConnection "10.0.0.4".toList 5 ∧
      t.mngClient.longestDisconnected = some k ∧ t.mngClient.clients[k]? = some c ∧
      ((∃ m, t.mngClient.eraseClient k = .ok m ∧
        SamePlaces m t.mngClient.eraseLongestDisconnectedClient) ↔ ¬ HasRoom c) := by
  have hrun : (server.replay (fun _ _ => True) (create 1 5 3)
      [.accept "10.0.0.4".toList 4, .close 0]).any (fun s =>
        decide ((s.acceptConnection "10.0.0.4".toList 5).mngClient.clients.length =
          (s.acceptConnection "10.0.0.4".toList 5).maxClients) &&
        (s.acceptConnection "10.0.0.4".toList 5).mngClient.isDisconnectedClient) = true := by
    decide +kernel
  obtain ⟨s, hs, ht⟩ := exists_reachable hrun
  rw [Bool.and_eq_true, decide_eq_true_eq] at ht
  obtain ⟨k, c, hk, hc, -, hiff⟩ := eviction_agrees_iff ht.1 ht.2
  exact ⟨s, _, k, c, hs, rfl, hk, hc, hiff⟩

/-- A full server evicts a player whose connection is closed: its room stays, although erasing the
player destroys it. -/
theorem eviction_leaves_room : ∃ (s t : Server) (k : ℕ) (m : ClientManager),
    Server.Reachable 2 5 3 s ∧ server.guard s (.accept "10.0.0.6".toList 6) ∧
      t = s.acceptConnection "10.0.0.6".toList 6 ∧ t.mngClient.clients.length = t.maxClients ∧
      t.mngClient.longestDisconnected = some k ∧ t.mngClient.eraseClient k = .ok m ∧
      ¬ SamePlaces m t.mngClient.eraseLongestDisconnectedClient := by
  have hrun : (server.replay (fun _ _ => True) (create 2 5 3) (firstGame ++ [.close 0])).any
      (fun s => decide (server.guard s (.accept "10.0.0.6".toList 6)) &&
        decide ((s.acceptConnection "10.0.0.6".toList 6).mngClient.clients.length =
          (s.acceptConnection "10.0.0.6".toList 6).maxClients) &&
        (s.acceptConnection "10.0.0.6".toList 6).mngClient.longestDisconnected.any fun k =>
          ((s.acceptConnection "10.0.0.6".toList 6).mngClient.eraseClient k).toOption.any fun m =>
            decide (m.lobby.games.length ≠ (s.acceptConnection "10.0.0.6".toList
              6).mngClient.eraseLongestDisconnectedClient.lobby.games.length)) = true := by
    decide +kernel
  obtain ⟨s, hs, ht⟩ := exists_reachable hrun
  simp only [Bool.and_eq_true, decide_eq_true_eq] at ht
  obtain ⟨⟨hguard, hfull⟩, ht⟩ := ht
  obtain ⟨k, hk, ht⟩ := (Option.any_eq_true _ _).1 ht
  obtain ⟨m, herase, ht⟩ := of_toOption_any ht
  refine ⟨s, _, k, m, hs, hguard, rfl, hfull, hk, herase, fun hsame => ?_⟩
  exact of_decide_eq_true ht (congrArg List.length hsame.games).symm

end Server

end HnefServer
