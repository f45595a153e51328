import HnefServer.Game.Move
import HnefServer.Network.Effect

/-!
# Clients that owe an answer

`Waits k` says that the client with the descriptor `k` is inaccessible.  No step ends this but
one that serves this client, or one that takes the turn from it (`Waits.step`): the other
requests change the kept state of an inaccessible client, and leave its state.
-/

namespace HnefServer

open Protocol ClientManager

/-- The client is inaccessible, if its descriptor is `k`. -/
def Waiting (k : ℤ) (c : Client) : Prop := c.socketNum = k → c.state.inaccessible = true

/-- The client with the descriptor `k` is inaccessible. -/
def Waits (k : ℤ) (cs : List Client) : Prop := ∀ c ∈ cs, Waiting k c

/-- The client at `i` has not the descriptor `k`. -/
def Other (k : ℤ) (cs : List Client) (i : ℕ) : Prop :=
  ∀ c, cs[i]? = some c → c.socketNum ≠ k

variable {k : ℤ} {cs : List Client} {m m' : ClientManager} {i j : ℕ} {c d : Client}
  {f g : Client → Client}

namespace Other

theorem of_accessible (h : Waits k cs) (hc : cs[i]? = some c) (hs : c.state.inaccessible = false) :
    Other k cs i := by
  intro d hd hk
  obtain rfl : c = d := Option.some.inj (hc.symm.trans hd)
  have hwait := h c (List.mem_of_getElem? hc) hk
  rw [hs] at hwait
  cases hwait

theorem modify (h : Other k cs i) (hf : ∀ c, (f c).socketNum = c.socketNum) :
    Other k (cs.modify j f) i := by
  intro c hc
  rw [List.getElem?_modify] at hc
  obtain ⟨d, hd, rfl⟩ := Option.map_eq_some_iff.1 hc
  split_ifs
  · rw [hf]
    exact h d hd
  · exact h d hd

end Other

namespace Waits

theorem modify (h : Waits k cs) (hf : ∀ c, cs[i]? = some c → Waiting k c → Waiting k (f c)) :
    Waits k (cs.modify i f) := by
  intro c hc
  rcases mem_modify hc with ⟨j, -, hj⟩ | ⟨d, hd, rfl⟩
  · exact h c (List.mem_of_getElem? hj)
  · exact hf d hd (h d (List.mem_of_getElem? hd))

/-- A client with another descriptor changes. -/
theorem other (h : Waits k cs) (hi : Other k cs i) (hf : ∀ c, (f c).socketNum = c.socketNum) :
    Waits k (cs.modify i f) :=
  h.modify fun c hc _ hk => absurd ((hf c).symm.trans hk) (hi c hc)

/-- A client keeps its state. -/
theorem same (h : Waits k cs) (hsock : ∀ c, (f c).socketNum = c.socketNum)
    (hstate : ∀ c, (f c).state = c.state) : Waits k (cs.modify i f) :=
  h.modify fun c _ hw hk => by
    rw [hstate]
    exact hw ((hsock c).symm.trans hk)

theorem eraseIdx (h : Waits k cs) (i : ℕ) : Waits k (cs.eraseIdx i) :=
  fun c hc => h c (List.mem_of_mem_eraseIdx hc)

theorem disconnect (h : Waits k cs) (hk : 0 ≤ k) : Waits k (cs.modify i Server.disconnect) :=
  h.modify fun c _ _ hsock => by
    have hneg := Server.disconnect_socketNum c
    omega

/-! ### Moving players to the lobby -/

theorem toWaiting_sock (s : State) (c : Client) : (toWaiting s c).socketNum = c.socketNum := by
  unfold toWaiting
  split_ifs <;> rfl

/-- A player that is inaccessible stays so when its game ends. -/
theorem toWaiting_state {s : State} (hs : s.inaccessible = true) (c : Client) :
    (toWaiting s c).state = c.state := by
  rw [toWaiting, if_pos hs]
  rfl

theorem toWaiting (h : Waits k cs) {a : Client} (ha : a.state.inaccessible = true ∨ Other k cs i) :
    Waits k (cs.modify i (toWaiting a.state)) := by
  rcases ha with ha | ha
  · exact h.same (toWaiting_sock _) (toWaiting_state ha)
  · exact h.other ha (toWaiting_sock _)

theorem freeClients (h : Waits k cs) {a b : Client} (ha : cs[i]? = some a) (hb : cs[j]? = some b) :
    Waits k (freeClients cs i j a b) := by
  have hcase : ∀ {n : ℕ} {c : Client}, cs[n]? = some c →
      c.state.inaccessible = true ∨ Other k cs n := by
    intro n c hc
    cases hs : c.state.inaccessible with
    | true => exact Or.inl rfl
    | false => exact Or.inr (.of_accessible h hc hs)
  have hfirst : Waits k (cs.modify i (ClientManager.toWaiting a.state)) := h.toWaiting (hcase ha)
  have hsecond : Waits k ((cs.modify i (ClientManager.toWaiting a.state)).modify j
      (ClientManager.toWaiting b.state)) :=
    hfirst.toWaiting ((hcase hb).imp_right fun hj => hj.modify (toWaiting_sock _))
  have hthird := hsecond.same (i := i) (f := (·.setRoomId 0)) (fun _ => rfl) fun _ => rfl
  exact hthird.same (f := (·.setRoomId 0)) (fun _ => rfl) fun _ => rfl

theorem destroyRoom {id : ℕ} (hd : m.destroyRoom id i j = .ok m') (h : Waits k m.clients) :
    Waits k m'.clients := by
  obtain ⟨a, b, ha, hb, hcs, -⟩ := destroyRoom_cases hd
  rw [hcs]
  exact h.freeClients ha hb

/-! ### Requests -/

theorem requestConnect (h : Waits k m.clients) (hi : Other k m.clients i) {nick : Text}
    {state : State} {b : ℤ} (hd : m.requestConnect i nick state = .ok (m', b)) :
    Waits k m'.clients := by
  obtain ⟨c, hc, hcases⟩ := requestConnect_cases hd
  rcases hcases with ⟨-, ⟨-, -, rfl⟩ | ⟨rfl, -⟩⟩ | ⟨-, rfl⟩ | ⟨d, hd, -, -, hrec⟩
  · exact h.other hi fun _ => rfl
  · exact h
  · exact h
  · obtain ⟨d', -, hcases⟩ := handleReconnection_cases hrec
    rcases hcases with ⟨-, rfl⟩ | ⟨-, hrep⟩ | ⟨-, hrep⟩
    · exact h
    · rw [(reportReconnection_same hrep).1]
      exact h.other hi fun _ => rfl
    · rw [(reportReconnection_same hrep).1]
      have htaken := h.other (f := takeOver nick d') hi fun _ => rfl
      exact htaken.same (f := expire) (fun _ => rfl) fun _ => rfl

/-- The turn is handed over by another client, to a client that may be inaccessible. -/
theorem handedOver (h : Waits k m.clients) (hc : m.clients[i]? = some c)
    (hj : Other k m.clients j) {t : Text} : Waits k (m.handedOver i j c.state t).clients := by
  have hfirst : Waits k (m.clients.modify i (handOver c.state)) := by
    cases hs : c.state.inaccessible with
    | true =>
      refine h.same (handOver_sock _) fun d => ?_
      rw [handOver, if_pos hs]
      rfl
    | false => exact h.other (.of_accessible h hc hs) (handOver_sock _)
  exact hfirst.other (hj.modify (handOver_sock _)) fun _ => rfl

/-- A move request, the player who has the turn having another descriptor. -/
theorem requestMove (h : Waits k m.clients) {t : Text} {b : ℤ}
    (hturn : ∀ c, m.clients[i]? = some c → ∀ r r',
      m.lobby.games[m.lobby.getRoomById c.roomId]? = some r → r.processMove t = .ok (r', true) →
        Other k m.clients (m.findClientByNick r.onTurn))
    (hd : m.requestMove i t = .ok (m', b)) : Waits k m'.clients := by
  obtain ⟨c, x, r, r', hc, rfl, hr, -, ⟨-, -, -, rfl⟩ | ⟨hproc, -, -, a, e, ha, -, hover⟩⟩ :=
    requestMove_outcome hd
  · exact h
  have hpassed : Waits k ((m.putRoom (m.lobby.getRoomById c.roomId) r').handedOver
      (m.findClientByNick r.onStand) (m.findClientByNick r.onTurn) a.state t).clients :=
    handedOver (m := m.putRoom _ r') h ha (hturn c hc r r' hr hproc)
  rcases hover with ⟨-, rfl⟩ | ⟨-, hdestroy⟩
  · exact hpassed
  · refine destroyRoom hdestroy ?_
    rw [clients_sendToClient, clients_sendToClient]
    exact hpassed

theorem requestLeave (h : Waits k m.clients) {b : ℤ} (hd : m.requestLeave i = .ok (m', b)) :
    Waits k m'.clients := by
  obtain ⟨c, n, m₁, -, -, hsend, hdestroy⟩ := requestLeave_cases hd
  have hsame := (sendToOpponentOf_same hsend).1
  exact destroyRoom hdestroy (hsame ▸ h)

/-- A frame of a player, or of a client with another descriptor. -/
theorem serveFrame (h : Waits k m.clients) {state : State} {r : Frame}
    (hi : r.ofPlayer = false → Other k m.clients i)
    (hturn : ∀ t, r = .move t → ∀ c, m.clients[i]? = some c → ∀ r r',
      m.lobby.games[m.lobby.getRoomById c.roomId]? = some r →
        r.processMove t.text = .ok (r', true) → Other k m.clients (m.findClientByNick r.onTurn))
    {b : ℤ} (hd : m.serveFrame i state r = .ok (m', b)) : Waits k m'.clients := by
  cases r with
  | ping =>
    cases hd
    split_ifs
    · exact h.other (hi rfl) fun _ => rfl
    · exact h
  | pong | ready =>
    cases hd
    exact h.other (hi rfl) fun _ => rfl
  | connect n => exact h.requestConnect (hi rfl) hd
  | move t => exact h.requestMove (hturn t rfl) hd
  | leave => exact h.requestLeave hd
  | chat msg =>
    obtain ⟨m₁, hsend, h₁⟩ := bind_eq_ok.1 hd
    cases h₁
    exact (sendToOpponentOf_same hsend).1 ▸ h
  | ok =>
    cases hd
    exact h

/-! ### Pairing and erasing -/

/-- Two Ready clients, which are accessible, start to play. -/
theorem paired (h : Waits k m.clients) (hp : m.Paired m' i j c d) : Waits k m'.clients := by
  have hfst : Other k m.clients i := .of_accessible h hp.fst (by rw [hp.fstReady]; rfl)
  have hsnd : Other k m.clients j := .of_accessible h hp.snd (by rw [hp.sndReady]; rfl)
  have hsock : ∀ (id : ℕ) (st : State) (a : Client), (seat id st a).socketNum = a.socketNum :=
    fun _ _ _ => rfl
  rw [hp.clients]
  exact (h.other hfst (hsock _ _)).other (hsnd.modify (hsock _ _)) (hsock _ _)

theorem eraseClient (h : Waits k m.clients) (hd : m.eraseClient i = .ok m') :
    Waits k m'.clients := by
  obtain ⟨c, -, ⟨-, rfl⟩ | ⟨-, n, m₁, m₂, -, hcs, -, hdestroy, rfl⟩⟩ := eraseClient_cases hd
  · exact h.eraseIdx i
  · have hfree : Waits k m₂.clients := destroyRoom hdestroy (hcs ▸ h)
    exact hfree.eraseIdx i

theorem pairLoop {fuel : ℕ} (h : Waits k m.clients) (hd : pairLoop fuel m i = .ok m') :
    Waits k m'.clients := by
  have hpairs := pairs_of_pairLoop hd
  clear hd
  induction hpairs with
  | refl => exact h
  | tail _ hp ih =>
    obtain ⟨i, j, c, d, hp⟩ := hp
    exact ih.paired hp

/-! ### Connections -/

section Connections

variable {s s' s₁ : Server}

theorem closeConnection (hk : 0 ≤ k) (hd : s.closeConnection i = .ok s')
    (h : Waits k s.mngClient.clients) : Waits k s'.mngClient.clients := by
  obtain ⟨c, -, ⟨-, rfl⟩ | ⟨-, m, hcs, -, rfl⟩⟩ := Server.closeConnection_cases hd
  · exact h
  · change Waits k m.clients
    rw [hcs]
    exact h.disconnect hk

theorem manage_eraseClient (hd : s.manage (s.mngClient.eraseClient i) = .ok s')
    (h : Waits k s.mngClient.clients) : Waits k s'.mngClient.clients := by
  obtain ⟨m, hm, rfl⟩ := Server.manage_eq_ok.1 hd
  exact h.eraseClient hm

theorem acceptConnection {ip : Text} {fd : ℤ} (hfd : fd ≠ k) (h : Waits k s.mngClient.clients) :
    Waits k (s.acceptConnection ip fd).mngClient.clients := by
  unfold Server.acceptConnection
  split_ifs
  · intro c hc
    rcases List.mem_append.1 hc with hc | hc
    · exact h c hc
    · rw [List.mem_singleton.1 hc]
      exact fun hsock => absurd hsock hfd
  · exact h

/-- Who waits goes on waiting in the parts of a pass that handle no frame. -/
theorem preserving (hk : 0 ≤ k) :
    Server.Preserving fun s s' => Waits k s.mngClient.clients → Waits k s'.mngClient.clients where
  refl := fun _ h => h
  trans := fun _ _ _ h h' hs => h' (h hs)
  tell := fun _ _ _ _ h => h
  close := fun _ _ _ => closeConnection hk
  erase := fun _ _ _ => manage_eraseClient
  evict := fun _ n h => h.eraseIdx n
  unflag := fun _ _ h => h.same (fun _ => rfl) fun _ => rfl

end Connections

end Waits

end HnefServer
