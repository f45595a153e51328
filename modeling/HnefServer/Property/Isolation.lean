import HnefServer.Invariant.Steps

/-!
# Isolation of the rooms

A request of a player changes two clients, sends messages to these two, and changes one room
(`Confined`).  In an orderly run the two are the players of that room, so that the requests of a
player have no effect outside its room.
-/

namespace HnefServer

open Protocol ClientManager

/-- From `m` to `m'` only the clients at `i` and `j` and the rooms with the given id have changed,
and messages were sent to these clients only. -/
structure Confined (i j id : ℕ) (m m' : ClientManager) : Prop where
  clients : ∀ k, k ≠ i → k ≠ j → m'.clients[k]? = m.clients[k]?
  sent : ∀ p ∈ m'.sent, p ∈ m.sent ∨ p.1 = i ∨ p.1 = j
  games : ∀ r : RoomHnefatafl, r.roomId ≠ id →
    (r ∈ m'.lobby.games ↔ r ∈ m.lobby.games)

namespace Confined

variable {i j k x a b id : ℕ} {m m' m'' : ClientManager} {c d : Client} {r r' : RoomHnefatafl}
  {f : Client → Client}

theorem refl (m : ClientManager) : Confined i j id m m :=
  ⟨fun _ _ _ => rfl, fun _ hp => Or.inl hp, fun _ _ => Iff.rfl⟩

theorem trans (h₁ : Confined i j id m m') (h₂ : Confined i j id m' m'') :
    Confined i j id m m'' where
  clients := fun k hi hj => (h₂.clients k hi hj).trans (h₁.clients k hi hj)
  sent := fun p hp => by
    rcases h₂.sent p hp with hp | hp
    · exact h₁.sent p hp
    · exact Or.inr hp
  games := fun r hr => (h₂.games r hr).trans (h₁.games r hr)

theorem modify (ha : a = i ∨ a = j) : Confined i j id m (m.modify a f) where
  clients := fun k hi hj => by
    have hak : a ≠ k := by
      rintro rfl
      exact ha.elim hi hj
    exact List.getElem?_modify_ne _ _ hak
  sent := fun _ hp => Or.inl hp
  games := fun _ _ => Iff.rfl

theorem send {msg : Text} (ha : a = i ∨ a = j) : Confined i j id m (m.sendToClient a msg) where
  clients := fun _ _ _ => rfl
  sent := fun p hp => by
    rcases List.mem_append.1 hp with hp | hp
    · exact Or.inl hp
    · rw [List.mem_singleton.1 hp]
      exact Or.inr ha
  games := fun _ _ => Iff.rfl

theorem putRoom (hr : m.lobby.games[k]? = some r) (hid : r.roomId = id) (hid' : r'.roomId = id) :
    Confined i j id m (m.putRoom k r') where
  clients := fun _ _ _ => rfl
  sent := fun _ hp => Or.inl hp
  games := fun e he => by
    change e ∈ m.lobby.games.set k r' ↔ _
    rw [mem_set (List.getElem?_eq_some_iff.1 hr).1]
    constructor
    · rintro (rfl | ⟨n, -, hn⟩)
      · exact absurd hid' he
      · exact List.mem_of_getElem? hn
    · intro hmem
      obtain ⟨n, hn⟩ := List.mem_iff_getElem?.1 hmem
      refine Or.inr ⟨n, ?_, hn⟩
      rintro rfl
      obtain rfl : r = e := Option.some.inj (hr.symm.trans hn)
      exact he hid

theorem eraseRoom (hr : m.lobby.games[k]? = some r) (hid : r.roomId = id) (e : RoomHnefatafl)
    (he : e.roomId ≠ id) : e ∈ m.lobby.games.eraseIdx k ↔ e ∈ m.lobby.games := by
  constructor
  · exact List.mem_of_mem_eraseIdx
  · intro hmem
    obtain ⟨n, hn⟩ := List.mem_iff_getElem?.1 hmem
    refine List.mem_eraseIdx_iff_getElem?.2 ⟨n, ?_, hn⟩
    rintro rfl
    obtain rfl : r = e := Option.some.inj (hr.symm.trans hn)
    exact he hid

theorem destroyRoom (ha : a = i ∨ a = j) (hb : b = i ∨ b = j)
    (h : m.destroyRoom id a b = .ok m') : Confined i j id m m' := by
  obtain ⟨c, d, -, -, hcs, hsent, hlobby⟩ := destroyRoom_cases h
  refine ⟨fun k hi hj => ?_, fun p hp => Or.inl (hsent ▸ hp), ?_⟩
  · have hak : a ≠ k := by
      rintro rfl
      exact ha.elim hi hj
    have hbk : b ≠ k := by
      rintro rfl
      exact hb.elim hi hj
    simp only [hcs, freeClients, List.getElem?_modify_ne _ _ hak, List.getElem?_modify_ne _ _ hbk]
  · rcases hlobby with ⟨-, hl⟩ | ⟨-, hlt, hl⟩
    · rw [hl]
      exact fun _ _ => Iff.rfl
    · have hroom := List.getElem?_eq_getElem hlt
      rw [hl]
      exact eraseRoom hroom (room_of_getRoomById hroom)

theorem handedOver {st : State} {t : Text} (ha : a = i ∨ a = j) (hb : b = i ∨ b = j) :
    Confined i j id m (m.handedOver a b st t) :=
  (((modify ha).trans (modify hb)).trans (send hb)).trans (send ha)

/-! ### The requests of a player -/

theorem sendToOpponentOf (hm : m.hall.Member) (ho : Opponents m k r i c j d) {msg : Text}
    (h : m.sendToOpponentOf i msg = .ok m') : Confined i j id m m' := by
  obtain ⟨c', n, hc', hopp, rfl | rfl⟩ := sendToOpponentOf_cases h
  · exact refl _
  · obtain rfl : c = c' := Option.some.inj (ho.fst.symm.trans hc')
    obtain rfl : d.nick = n := Except.ok.inj ((ho.getOpponentOf hm.names).symm.trans hopp)
    rw [hm.findClientByNick ho.snd ho.sndName]
    exact send (Or.inr rfl)

theorem requestMove (hm : m.hall.Member) (ho : Opponents m k r i c j d) {t : Text} {ret : ℤ}
    (h : m.requestMove i t = .ok (m', ret)) : Confined i j r.roomId m m' := by
  obtain ⟨c', r₁, r', moved, hc', hr₁, hproc, hcases⟩ := requestMove_cases h
  obtain rfl : c = c' := Option.some.inj (ho.fst.symm.trans hc')
  rw [ho.fstRoom, ho.find] at hr₁ hcases
  obtain rfl : r = r₁ := Option.some.inj (ho.room.symm.trans hr₁)
  obtain ⟨hid, -, -, hturn⟩ := RoomHnefatafl.processMove_players hproc
  have hput : Confined i j r.roomId m (m.putRoom k r') := putRoom ho.room rfl hid
  rcases hcases with ⟨-, rfl, -⟩ | ⟨rfl, hafter, -⟩
  · exact hput
  -- the players of the room are found at `i` and `j`
  obtain ⟨-, ht, hs⟩ := hturn.resolve_left fun hcon => by simp at hcon
  have hfind : ∀ n, n = r.onTurn ∨ n = r.onStand →
      (m.putRoom k r').findClientByNick n = i ∨ (m.putRoom k r').findClientByNick n = j := by
    intro n hn
    have hplayer : n = c.nick ∨ n = d.nick := by
      rcases ho.nicks with ⟨hcn, hdn⟩ | ⟨hcn, hdn⟩ <;> rw [hcn, hdn]
      · exact hn
      · exact hn.symm
    rcases hplayer with rfl | rfl
    · exact Or.inl (hm.findClientByNick ho.fst ho.fstName)
    · exact Or.inr (hm.findClientByNick ho.snd ho.sndName)
  obtain ⟨r₂, e₁, e₂, hr₂, -, -, hover⟩ := afterMove_cases hafter
  rw [getRoomById_putRoom ho.room hid, ho.find] at hr₂
  obtain rfl : r' = r₂ := by
    have hlt := (List.getElem?_eq_some_iff.1 ho.room).1
    simpa [ClientManager.putRoom, hlt] using hr₂
  have hi := hfind r'.onTurn (Or.inr ht)
  have hj := hfind r'.onStand (Or.inl hs)
  refine hput.trans ?_
  rcases hover with ⟨-, rfl⟩ | ⟨-, hdestroy⟩
  · exact handedOver hi hj
  · exact (((handedOver hi hj).trans (send hi)).trans (send hj)).trans (destroyRoom hi hj hdestroy)

theorem requestLeave (hm : m.hall.Member) (ho : Opponents m k r i c j d) {ret : ℤ}
    (h : m.requestLeave i = .ok (m', ret)) : Confined i j r.roomId m m' := by
  obtain ⟨c', n, m₁, hc', hopp, hsend, hdestroy⟩ := requestLeave_cases h
  obtain rfl : c = c' := Option.some.inj (ho.fst.symm.trans hc')
  obtain rfl : d.nick = n := Except.ok.inj ((ho.getOpponentOf hm.names).symm.trans hopp)
  rw [hm.findClientByNick ho.snd ho.sndName, ho.fstRoom] at hdestroy
  have htold : Confined i j r.roomId m (m.sendToClient i SC_RESP_LEAVE) := send (Or.inl rfl)
  have hopponent : Confined i j r.roomId (m.sendToClient i SC_RESP_LEAVE) m₁ :=
    sendToOpponentOf (m := m.sendToClient i SC_RESP_LEAVE) hm (ho.of_hall rfl) hsend
  exact (htold.trans hopponent).trans (destroyRoom (Or.inl rfl) (Or.inr rfl) hdestroy)

theorem requestChat (hm : m.hall.Member) (ho : Opponents m k r i c j d) {msg : Text} {ret : ℤ}
    (h : m.requestChat i msg = .ok (m', ret)) : Confined i j r.roomId m m' := by
  obtain ⟨m₁, hsend, h₁⟩ := bind_eq_ok.1 h
  cases h₁
  exact sendToOpponentOf hm ho hsend

end Confined

namespace Server

variable {clients rooms : ℕ} {fd : ℤ} {s s' : Server} {i : ℕ} {c : Client} {f : Frame}

/-- **Room isolation.**  A move, leave or chat frame of a client in a room leaves the clients
that are not in this room as they are, sends them no message, and leaves the other rooms as they
are. -/
theorem rooms_isolated (h : Server.OrderlyReachable false clients rooms fd s)
    (hc : s.mngClient.clients[i]? = some c) (hroom : c.roomId ≠ 0) (hf : f.ofPlayer = true)
    (hstep : server.Step s (.frame i f) s') :
    (∀ k e, s.mngClient.clients[k]? = some e → e.roomId ≠ c.roomId →
      s'.mngClient.clients[k]? = some e ∧ ∀ p ∈ s'.mngClient.sent, p.1 ≠ k) ∧
    ∀ r : RoomHnefatafl, r.roomId ≠ c.roomId →
      (r ∈ s'.mngClient.lobby.games ↔ r ∈ s.mngClient.lobby.games) := by
  obtain ⟨⟨-, c', hc', hsock⟩, hexec⟩ := hstep
  obtain rfl : c = c' := Option.some.inj (hc.symm.trans hc')
  have hm : s.clearSent.mngClient.hall.Member := h.member
  have hn := Hall.Member.named_of_room hm hc hsock hroom
  obtain ⟨k, r, j, d, ho⟩ := Hall.Member.opponent hm hc hn hroom
  have hconf : Confined i j r.roomId s.clearSent.mngClient s'.mngClient := by
    obtain ⟨c', m, ret, -, rfl, ⟨-, rfl⟩ | ⟨-, hserve⟩⟩ := frame_cases hexec
    · exact .refl _
    · cases f with
      | move t => exact .requestMove hm ho hserve
      | leave => exact .requestLeave hm ho hserve
      | chat msg => exact .requestChat hm ho hserve
      | ping | pong | connect | ready | ok => cases hf
  rw [ho.fstRoom]
  refine ⟨fun x e he hne => ?_, hconf.games⟩
  have hi : x ≠ i := by
    rintro rfl
    obtain rfl : c = e := Option.some.inj (hc.symm.trans he)
    exact hne ho.fstRoom
  have hj : x ≠ j := by
    rintro rfl
    obtain rfl : d = e := Option.some.inj (ho.snd.symm.trans he)
    exact hne ho.sndRoom
  refine ⟨(hconf.clients x hi hj).trans he, fun p hp => ?_⟩
  rcases hconf.sent p hp with hnil | hp | hp
  · cases hnil
  · exact hp ▸ hi.symm
  · exact hp ▸ hj.symm

def greeting : ChatText := ⟨"hi".toList, by decide, by decide, by simp [isChatChar]⟩

/-- A player writes to its opponent. -/
theorem rooms_isolated_chat : ∃ s s' c, s.mngClient.clients[0]? = some c ∧ c.roomId ≠ 0 ∧
    server.Step s (.frame 0 (.chat greeting)) s' ∧
    (∀ k e, s.mngClient.clients[k]? = some e → e.roomId ≠ c.roomId →
      s'.mngClient.clients[k]? = some e ∧ ∀ p ∈ s'.mngClient.sent, p.1 ≠ k) ∧
    ∀ r : RoomHnefatafl, r.roomId ≠ c.roomId →
      (r ∈ s'.mngClient.lobby.games ↔ r ∈ s.mngClient.lobby.games) := by
  have hrun : (server.replay (Server.Orderly false) (create 10 5 3) firstGame).any (fun s =>
      decide (server.guard s (.frame 0 (.chat greeting))) &&
        (server.exec s (.frame 0 (.chat greeting))).toOption.any fun _ =>
          (s.mngClient.clients[0]?).any fun c => decide (c.roomId ≠ 0)) = true := by
    decide +kernel
  obtain ⟨s, s', hs, hstep, ht⟩ := System.exists_step hrun
  obtain ⟨c, hc, hroom⟩ := (Option.any_eq_true _ _).1 ht
  have hroom := of_decide_eq_true hroom
  exact ⟨s, s', c, hc, hroom, hstep, rooms_isolated hs hc hroom rfl hstep⟩

/-- A full server evicts a player whose connection is closed; a new client takes the name, and
is sent what the opponent writes, although it is in the lobby. -/
theorem chat_leaves_room : ∃ s s' c e, Server.Reachable 2 5 3 s ∧
    s.mngClient.clients[0]? = some c ∧ c.roomId ≠ 0 ∧
    server.Step s (.frame 0 (.chat greeting)) s' ∧
    s.mngClient.clients[1]? = some e ∧ e.roomId ≠ c.roomId ∧
      ∃ p ∈ s'.mngClient.sent, p.1 = 1 := by
  have hrun : (server.replay (fun _ _ => True) (create 2 5 3)
      (firstGame ++ [.close 0, .accept "10.0.0.6".toList 6, .frame 1 (.connect alice)])).any
      (fun s => decide (server.guard s (.frame 0 (.chat greeting))) &&
        (server.exec s (.frame 0 (.chat greeting))).toOption.any fun s' =>
          (s.mngClient.clients[0]?).any fun c => (s.mngClient.clients[1]?).any fun e =>
            decide (c.roomId ≠ 0 ∧ e.roomId ≠ c.roomId ∧
              ∃ p ∈ s'.mngClient.sent, p.1 = 1)) = true := by
    decide +kernel
  obtain ⟨s, s', hs, hstep, ht⟩ := System.exists_step hrun
  obtain ⟨c, hc, ht⟩ := (Option.any_eq_true _ _).1 ht
  obtain ⟨e, he, ht⟩ := (Option.any_eq_true _ _).1 ht
  obtain ⟨hroom, hother, hsent⟩ := of_decide_eq_true ht
  exact ⟨s, s', c, e, hs, hc, hroom, hstep, he, hother, hsent⟩

end Server

end HnefServer
