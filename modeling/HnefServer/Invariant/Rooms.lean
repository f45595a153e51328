import HnefServer.Network.Effect

/-!
# The rooms a step leaves

No step but the pairing opens a room: the rooms after any other step are rooms from before, in
the same order, and each is still the room of its two players (`server_step_rooms`).  The pairing
opens one room for every two Ready clients (`length_pairLoop`).
-/

namespace HnefServer

open Protocol ClientManager

/-- What a move does not change in a room: its id and its players. -/
def RoomHnefatafl.identity (r : RoomHnefatafl) : ℕ × Text × Text := (r.roomId, r.black, r.white)

/-- The rooms of `l'` are rooms of `l`, in the same order. -/
structure Lobby.Narrows (l l' : Lobby) : Prop where
  games : (l'.games.map RoomHnefatafl.identity).Sublist (l.games.map RoomHnefatafl.identity)
  roomsTotal : l'.roomsTotal = l.roomsTotal

namespace Lobby.Narrows

variable {l l' l'' : Lobby}

theorem refl (l : Lobby) : Narrows l l := ⟨List.Sublist.refl _, rfl⟩

theorem of_eq (h : l' = l) : Narrows l l' := h ▸ refl l

theorem trans (h : Narrows l l') (h' : Narrows l' l'') : Narrows l l'' :=
  ⟨h'.games.trans h.games, h'.roomsTotal.trans h.roomsTotal⟩

theorem eraseIdx (l : Lobby) (k : ℕ) : Narrows l { l with games := l.games.eraseIdx k } :=
  ⟨(List.eraseIdx_sublist _ _).map _, rfl⟩

/-- A room is replaced by one with its id and its players. -/
theorem set {k : ℕ} {r r' : RoomHnefatafl} (hr : l.games[k]? = some r)
    (hid : r'.identity = r.identity) : Narrows l { l with games := l.games.set k r' } := by
  obtain ⟨hlt, rfl⟩ := List.getElem?_eq_some_iff.1 hr
  refine ⟨?_, rfl⟩
  change ((l.games.set k r').map RoomHnefatafl.identity).Sublist _
  rw [List.map_set, hid, ← List.map_set, List.set_getElem_self]

theorem length_le (h : Narrows l l') : l'.games.length ≤ l.games.length := by
  have hle := h.games.length_le
  rwa [List.length_map, List.length_map] at hle

end Lobby.Narrows

namespace ClientManager

open Lobby.Narrows

variable {m m' : ClientManager} {i j : ℕ}

theorem narrows_destroyRoom {id : ℕ} (h : m.destroyRoom id i j = .ok m') :
    m.lobby.Narrows m'.lobby := by
  obtain ⟨-, -, -, -, -, -, ⟨-, hl⟩ | ⟨-, -, hl⟩⟩ := destroyRoom_cases h
  · exact of_eq hl
  · rw [hl]
    exact eraseIdx _ _

theorem narrows_eraseClient (h : m.eraseClient i = .ok m') : m.lobby.Narrows m'.lobby := by
  obtain ⟨c, -, ⟨-, rfl⟩ | ⟨-, n, m₁, m₂, -, -, hl, hdestroy, rfl⟩⟩ := eraseClient_cases h
  · exact refl _
  · have hleft := narrows_destroyRoom hdestroy
    rw [hl] at hleft
    exact hleft

theorem narrows_requestMove {t : Text} {b : ℤ} (h : m.requestMove i t = .ok (m', b)) :
    m.lobby.Narrows m'.lobby := by
  obtain ⟨c, k, r, r', -, rfl, hr, hid, hcases⟩ := requestMove_outcome h
  have hmoved : ∀ moved, r.processMove t = .ok (r', moved) → m.lobby.Narrows
      (m.putRoom (m.lobby.getRoomById c.roomId) r').lobby := by
    intro moved hproc
    obtain ⟨-, hblack, hwhite, -⟩ := RoomHnefatafl.processMove_players hproc
    exact set hr (by simp only [RoomHnefatafl.identity, hid, hblack, hwhite])
  rcases hcases with ⟨hproc, -, -, rfl⟩ | ⟨hproc, -, -, a, d, -, -, ⟨-, rfl⟩ | ⟨-, hdestroy⟩⟩
  · exact hmoved _ hproc
  · exact hmoved _ hproc
  · have hleft := narrows_destroyRoom hdestroy
    exact (hmoved _ hproc).trans hleft

theorem lobby_requestConnect {n : Text} {st : State} {b : ℤ}
    (h : m.requestConnect i n st = .ok (m', b)) : m'.lobby = m.lobby := by
  obtain ⟨c, -, ⟨-, ⟨-, -, rfl⟩ | ⟨rfl, -⟩⟩ | ⟨-, rfl⟩ | ⟨d, -, -, -, hrec⟩⟩ :=
    requestConnect_cases h
  · rfl
  · rfl
  · rfl
  · obtain ⟨e, -, ⟨-, rfl⟩ | ⟨-, hrep⟩ | ⟨-, hrep⟩⟩ := handleReconnection_cases hrec
    · rfl
    · exact (reportReconnection_same hrep).2
    · exact (reportReconnection_same hrep).2

theorem narrows_serveFrame {st : State} {f : Frame} {b : ℤ}
    (h : m.serveFrame i st f = .ok (m', b)) : m.lobby.Narrows m'.lobby := by
  cases f with
  | ping =>
    cases h
    split_ifs <;> exact refl _
  | pong | ready | ok =>
    cases h
    exact refl _
  | connect n => exact of_eq (lobby_requestConnect h)
  | move t => exact narrows_requestMove h
  | leave =>
    obtain ⟨c, n, m₁, -, -, hsend, hdestroy⟩ := requestLeave_cases h
    have hl : m₁.lobby = m.lobby := (sendToOpponentOf_same hsend).2
    exact hl ▸ narrows_destroyRoom hdestroy
  | chat msg =>
    obtain ⟨m₁, hsend, h₁⟩ := bind_eq_ok.1 h
    cases h₁
    exact of_eq (sendToOpponentOf_same hsend).2

/-! ### Pairing -/

/-- How many clients from position `i` on are Ready. -/
def readyFrom (m : ClientManager) (i : ℕ) : ℕ :=
  (m.clients.drop i).countP fun c => c.state == .ready

theorem readyFrom_end (hi : m.clients.length ≤ i) : m.readyFrom i = 0 := by
  rw [readyFrom, List.drop_eq_nil_of_le hi]
  rfl

theorem readyFrom_step {c : Client} (hc : m.clients[i]? = some c) :
    m.readyFrom i = m.readyFrom (i + 1) + if c.state = .ready then 1 else 0 := by
  obtain ⟨hlt, rfl⟩ := List.getElem?_eq_some_iff.1 hc
  simp only [readyFrom, List.drop_eq_getElem_cons hlt, List.countP_cons, beq_iff_eq]

/-- The clients that are Ready are the next one and those behind it. -/
theorem readyFrom_next (hlt : m.nextReady i < m.clients.length) :
    m.readyFrom i = m.readyFrom (m.nextReady i + 1) + 1 := by
  have hfind : (m.clients.drop i).findIdx (fun c => c.state == .ready) <
      (m.clients.drop i).length := by
    rw [nextReady] at hlt
    rw [List.length_drop]
    omega
  rw [readyFrom, countP_of_findIdx hfind, List.drop_drop]
  rfl

theorem readyFrom_none (hle : m.clients.length ≤ m.nextReady i) : m.readyFrom i = 0 := by
  rcases Nat.lt_or_ge i m.clients.length with hi | hi
  swap
  · exact readyFrom_end hi
  rw [readyFrom, List.countP_eq_zero]
  rcases findIdx_cases (fun c : Client => c.state == .ready) (m.clients.drop i) with
    ⟨d, hd, -⟩ | ⟨-, hnone⟩
  · have hlt := (List.getElem?_eq_some_iff.1 hd).1
    rw [nextReady] at hle
    rw [List.length_drop] at hlt
    omega
  · intro c hc
    simp [hnone c hc]

/-- **The pairing opens a room for every two Ready clients** from position `i` on. -/
theorem length_pairLoop {fuel : ℕ} (hfuel : m.clients.length ≤ fuel + i)
    (h : pairLoop fuel m i = .ok m') :
    m'.lobby.games.length = m.lobby.games.length + m.readyFrom i / 2 := by
  induction fuel generalizing m i with
  | zero =>
    cases h
    rw [readyFrom_end (by omega)]
    rfl
  | succ fuel ih =>
    rcases pairLoop_cases h with ⟨hi, rfl⟩ | ⟨m₁, c, d, hp, hrest⟩ | ⟨c, hc, hnot, hrest⟩
    · rw [readyFrom_end hi]
      rfl
    · have hlt := hp.lt
      have hnext := (List.getElem?_eq_some_iff.1 hp.snd).1
      have hlen : m₁.clients.length = m.clients.length := by simp [hp.clients]
      have hgames : m₁.lobby.games.length = m.lobby.games.length + 1 := by
        simp [hp.lobby, Lobby.createRoom]
      -- the clients behind the pair are still as they were
      have hbehind : m₁.readyFrom (m.nextReady (i + 1) + 1) =
          m.readyFrom (m.nextReady (i + 1) + 1) := by
        rw [readyFrom, hp.clients, List.drop_modify_of_lt _ _ _ _ (Nat.lt_succ_self _),
          List.drop_modify_of_lt _ _ _ _ (Nat.lt_succ_of_lt hlt)]
        rfl
      have hfst := readyFrom_step hp.fst
      rw [if_pos hp.fstReady, readyFrom_next hnext] at hfst
      rw [ih (by omega) hrest, hgames, hbehind, hfst]
      omega
    · have hfst := readyFrom_step hc
      rw [ih (by omega) hrest, hfst]
      by_cases hs : c.state = .ready
      · -- the last Ready client stays alone
        have hnone := readyFrom_none (m := m) (not_lt.1 fun hlt => hnot ⟨hs, hlt⟩)
        rw [if_pos hs, hnone]
      · rw [if_neg hs]
        rfl

end ClientManager

/-! ### Steps -/

namespace Server

open Lobby.Narrows

variable {s s' : Server} {i : ℕ} {l : Input}

theorem narrows_closeConnection (h : s.closeConnection i = .ok s') :
    s.mngClient.lobby.Narrows s'.mngClient.lobby := by
  obtain ⟨c, -, ⟨-, rfl⟩ | ⟨-, m, -, hl, rfl⟩⟩ := closeConnection_cases h
  · exact refl _
  · exact of_eq hl

theorem narrows_erase (h : s.manage (s.mngClient.eraseClient i) = .ok s') :
    s.mngClient.lobby.Narrows s'.mngClient.lobby := by
  obtain ⟨m, hm, rfl⟩ := manage_eq_ok.1 h
  exact narrows_eraseClient hm

/-- No room is opened in a part of a pass that handles no frame. -/
theorem preserving_narrows :
    Preserving fun s s' => s.mngClient.lobby.Narrows s'.mngClient.lobby where
  refl := fun _ => refl _
  trans := fun _ _ _ => trans
  tell := fun _ _ _ _ => refl _
  close := fun _ _ _ => narrows_closeConnection
  erase := fun _ _ _ => narrows_erase
  evict := fun _ _ => refl _
  unflag := fun _ _ => refl _

end Server

variable {s s' : Server} {l : Input}

/-- **No step but the pairing opens a room.** -/
theorem server_step_rooms (h : server.Step s l s') (hl : l ≠ .pair) :
    s.mngClient.lobby.Narrows s'.mngClient.lobby := by
  obtain ⟨-, hexec⟩ := h
  change s.clearSent.handle l = .ok s' at hexec
  change s.clearSent.mngClient.lobby.Narrows s'.mngClient.lobby
  cases l with
  | accept ip fd =>
    have hcap := Server.preserving_narrows.checkCapacity hexec
    unfold Server.acceptConnection at hcap
    split_ifs at hcap
    · exact hcap
    · exact hcap
  | frame i f =>
    obtain ⟨c, m, b, -, rfl, ⟨-, rfl⟩ | ⟨-, hserve⟩⟩ := Server.frame_cases hexec
    · exact .refl _
    · exact narrows_serveFrame hserve
  | close i => exact Server.narrows_closeConnection hexec
  | kick i => exact Server.preserving_narrows.kick hexec
  | flags i => exact Server.preserving_narrows.processFlags hexec
  | pair => exact absurd rfl hl
  | ping =>
    obtain ⟨m, hm, rfl⟩ := Server.manage_eq_ok.1 hexec
    exact .of_eq (pingClients_spec hm).2
  | shutdown =>
    obtain ⟨s₁, hs₁, h₁⟩ := bind_eq_ok.1 hexec
    cases h₁
    have hclosed := Server.preserving_narrows.closeClientSockets hs₁
    exact hclosed

/-- The pairing opens a room for every two Ready clients. -/
theorem server_step_pair (h : server.Step s .pair s') : s'.mngClient.lobby.games.length =
    s.mngClient.lobby.games.length + s.mngClient.readyFrom 0 / 2 := by
  obtain ⟨m, hm, rfl⟩ := Server.manage_eq_ok.1 h.2
  exact length_pairLoop (m := s.clearSent.mngClient) (Nat.le_add_right _ _) hm

end HnefServer
