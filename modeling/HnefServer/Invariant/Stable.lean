import HnefServer.Network.Setup

/-!
# What every setter keeps

A property of a single client instance that the constructor establishes, every setter keeps, and
the countdown of the ping rounds keeps, holds of every client in every run: the handlers change
the instances in no other way (`Stable.step`).
-/

namespace HnefServer

open Protocol ClientManager

/-- The constructor establishes `P`, and the setters keep it. -/
structure Stable (P : Client → Prop) : Prop where
  create : ∀ ip fd, P (Client.create ip fd)
  setState : ∀ c s, P c → P (c.setState s)
  setStateLast : ∀ c s, P c → P (c.setStateLast s)
  setRoomId : ∀ c id, P c → P (c.setRoomId id)
  setNick : ∀ c n, P c → P (c.setNick n)
  setSocket : ∀ c fd, P c → P (c.setSocket fd)
  resetInaccessCount : ∀ c, P c → P c.resetInaccessCount
  setFlagToDisconnect : ∀ c b, P c → P (c.setFlagToDisconnect b)
  expire : ∀ c, P c → P (c.setFlagToErase true)
  countDown : ∀ c, P c → P (countDown c)

namespace Stable

variable {P : Client → Prop} {m m' : ClientManager} {s s' : Server} {cs : List Client} {i j : ℕ}

theorem modify {f : Client → Client} (hf : ∀ c, P c → P (f c)) (h : ∀ c ∈ cs, P c) (i : ℕ) :
    ∀ c ∈ cs.modify i f, P c := by
  intro c hc
  rcases mem_modify hc with ⟨_, _, hj⟩ | ⟨a, ha, rfl⟩
  · exact h c (List.mem_of_getElem? hj)
  · exact hf a (h a (List.mem_of_getElem? ha))

theorem eraseIdx (h : ∀ c ∈ cs, P c) (i : ℕ) : ∀ c ∈ cs.eraseIdx i, P c := fun c hc =>
  h c (List.mem_of_mem_eraseIdx hc)

/-! ### Clients -/

section Clients

variable (hP : Stable P)
include hP

theorem ite (st t : State) {c : Client} (hc : P c) :
    P (if st.inaccessible then c.setStateLast t else c.setState t) := by
  split_ifs
  · exact hP.setStateLast c t hc
  · exact hP.setState c t hc

theorem takeOver (nick : Text) (d : Client) {c : Client} (hc : P c) : P (takeOver nick d c) :=
  hP.resetInaccessCount _ (hP.setRoomId _ _ (hP.setState _ _ (hP.setNick c nick hc)))

theorem enter (nick : Text) {c : Client} (hc : P c) : P (enter nick c) :=
  hP.setStateLast _ _ (hP.setState _ _ (hP.setNick c nick hc))

theorem pinged {c : Client} (hc : P c) : P (pinged c) := by
  unfold ClientManager.pinged
  split_ifs
  · exact hP.expire _ (hP.setFlagToDisconnect c true hc)
  · cases c.state with
    | lost => exact hP.setFlagToDisconnect c true hc
    | disconnected => exact hP.countDown c hc
    | new | waiting | ready | playingOnTurn | playingOnStand | pinged => exact hP.setState c _ hc

/-! ### Requests -/

theorem freeClients (h : ∀ c ∈ cs, P c) (a b : Client) : ∀ c ∈ freeClients cs i j a b, P c :=
  modify (fun c => hP.setRoomId c 0) (modify (fun c => hP.setRoomId c 0)
    (modify (fun _ hc => hP.ite b.state .waiting hc)
      (modify (fun _ hc => hP.ite a.state .waiting hc) h i) j) i) j

theorem destroyRoom {id : ℕ} (hm : ∀ c ∈ m.clients, P c) (h : m.destroyRoom id i j = .ok m') :
    ∀ c ∈ m'.clients, P c := by
  obtain ⟨a, b, -, -, hcs, -⟩ := destroyRoom_cases h
  rw [hcs]
  exact hP.freeClients hm a b

theorem requestMove {t : Text} {b : ℤ} (hm : ∀ c ∈ m.clients, P c)
    (h : m.requestMove i t = .ok (m', b)) : ∀ c ∈ m'.clients, P c := by
  obtain ⟨c, k, r, r', -, -, -, -, ⟨-, -, -, rfl⟩ | ⟨-, -, -, a, d, -, -, hover⟩⟩ :=
    requestMove_outcome h
  · exact hm
  have hpassed : ∀ c ∈ ((m.putRoom k r').handedOver (m.findClientByNick r.onStand)
      (m.findClientByNick r.onTurn) a.state t).clients, P c :=
    modify (fun c hc => hP.setState c _ hc) (modify (fun _ hc => hP.ite a.state _ hc) hm _) _
  obtain ⟨-, rfl⟩ | ⟨-, hdestroy⟩ := hover
  · exact hpassed
  · refine hP.destroyRoom ?_ hdestroy
    rw [clients_sendToClient, clients_sendToClient]
    exact hpassed

theorem requestConnect {nick : Text} {state : State} {b : ℤ} (hm : ∀ c ∈ m.clients, P c)
    (h : m.requestConnect i nick state = .ok (m', b)) : ∀ c ∈ m'.clients, P c := by
  obtain ⟨c, -, ⟨-, ⟨-, -, rfl⟩ | ⟨rfl, -⟩⟩ | ⟨-, rfl⟩ | ⟨d, -, -, -, hrec⟩⟩ :=
    requestConnect_cases h
  · exact modify (f := ClientManager.enter nick) (fun _ hc => hP.enter nick hc) hm i
  · exact hm
  · exact hm
  · obtain ⟨e, -, ⟨-, rfl⟩ | ⟨-, hrep⟩ | ⟨-, hrep⟩⟩ := handleReconnection_cases hrec
    · exact hm
    · rw [(reportReconnection_same hrep).1]
      exact modify (fun c => hP.setState c c.stateLast) hm i
    · rw [(reportReconnection_same hrep).1]
      have htaken := modify (f := ClientManager.takeOver nick e)
        (fun _ hc => hP.takeOver nick e hc) hm i
      exact modify (f := ClientManager.expire) (fun c hc => hP.expire _ (hP.setNick c [] hc))
        htaken _

theorem serveFrame {st : State} {d : Frame} {b : ℤ} (hm : ∀ c ∈ m.clients, P c)
    (h : m.serveFrame i st d = .ok (m', b)) : ∀ c ∈ m'.clients, P c := by
  cases d with
  | ping =>
    cases h
    split_ifs
    · exact modify (fun c => hP.setState c c.stateLast) hm i
    · exact hm
  | pong =>
    cases h
    exact modify (fun c => hP.setState c c.stateLast) hm i
  | ready =>
    cases h
    exact modify (fun c => hP.setState c .ready) hm i
  | connect n => exact hP.requestConnect hm h
  | move t => exact hP.requestMove hm h
  | leave =>
    obtain ⟨c, n, m₁, -, -, hsend, hdestroy⟩ := requestLeave_cases h
    refine hP.destroyRoom ?_ hdestroy
    rw [(sendToOpponentOf_same hsend).1]
    exact hm
  | chat msg =>
    obtain ⟨m₁, hsend, h₁⟩ := bind_eq_ok.1 h
    cases h₁
    rw [(sendToOpponentOf_same hsend).1]
    exact hm
  | ok =>
    cases h
    exact hm

/-! ### The rest of a pass -/

theorem pairLoop {fuel : ℕ} (hm : ∀ c ∈ m.clients, P c) (h : pairLoop fuel m i = .ok m') :
    ∀ c ∈ m'.clients, P c := by
  have hpairs := pairs_of_pairLoop h
  clear h
  induction hpairs with
  | refl => exact hm
  | tail _ hp ih =>
    obtain ⟨i, j, c, d, hp⟩ := hp
    rw [hp.clients]
    exact modify (fun c hc => hP.setState _ _ (hP.setRoomId c _ hc))
      (modify (fun c hc => hP.setState _ _ (hP.setRoomId c _ hc)) ih i) j

theorem eraseClient (hm : ∀ c ∈ m.clients, P c) (h : m.eraseClient i = .ok m') :
    ∀ c ∈ m'.clients, P c := by
  obtain ⟨c, -, ⟨-, rfl⟩ | ⟨-, n, m₁, m₂, -, hcs, -, hdestroy, rfl⟩⟩ := eraseClient_cases h
  · exact eraseIdx hm i
  · exact eraseIdx (hP.destroyRoom (hcs ▸ hm) hdestroy) i

theorem preserving : Server.Preserving fun s s' =>
    (∀ c ∈ s.mngClient.clients, P c) → ∀ c ∈ s'.mngClient.clients, P c where
  refl := fun _ h => h
  trans := fun _ _ _ h₁ h₂ h => h₂ (h₁ h)
  tell := fun _ _ _ _ h => h
  close := by
    intro s i s' h hm
    obtain ⟨c, -, ⟨-, rfl⟩ | ⟨-, m, hcs, -, rfl⟩⟩ := Server.closeConnection_cases h
    · exact hm
    · change ∀ c ∈ m.clients, P c
      rw [hcs]
      exact modify (fun c hc => hP.setSocket _ _ (hP.setState c _ hc)) hm i
  erase := by
    intro s i s' h hm
    obtain ⟨m, hm', rfl⟩ := Server.manage_eq_ok.1 h
    exact hP.eraseClient hm hm'
  evict := fun _ k h => eraseIdx h k
  unflag := fun _ i h => modify (fun c => hP.setFlagToDisconnect c false) h i

theorem handle {l : Input} (h : s.handle l = .ok s') (hs : ∀ c ∈ s.mngClient.clients, P c) :
    ∀ c ∈ s'.mngClient.clients, P c := by
  cases l with
  | accept ip fd =>
    refine hP.preserving.checkCapacity h ?_
    unfold Server.acceptConnection
    split_ifs
    · intro c hc
      rcases List.mem_append.1 hc with hc | hc
      · exact hs c hc
      · rw [List.mem_singleton.1 hc]
        exact hP.create ip fd
    · exact hs
  | frame client d =>
    obtain ⟨c, m, b, -, rfl, ⟨-, rfl⟩ | ⟨-, hserve⟩⟩ := Server.frame_cases h
    · exact hs
    · exact hP.serveFrame hs hserve
  | close client => exact hP.preserving.close _ _ _ h hs
  | kick client => exact hP.preserving.kick h hs
  | flags client => exact hP.preserving.processFlags h hs
  | pair =>
    obtain ⟨m, hm, rfl⟩ := Server.manage_eq_ok.1 h
    exact hP.pairLoop hs hm
  | ping =>
    obtain ⟨m, hm, rfl⟩ := Server.manage_eq_ok.1 h
    change ∀ c ∈ m.clients, P c
    rw [(pingClients_spec hm).1]
    intro c hc
    obtain ⟨a, ha, rfl⟩ := List.mem_map.1 hc
    exact hP.pinged (hs a ha)
  | shutdown =>
    obtain ⟨s₁, hs₁, h₁⟩ := bind_eq_ok.1 h
    have hclosed := hP.preserving.closeClientSockets hs₁ hs
    cases h₁
    exact hclosed

end Clients

end Stable

end HnefServer
