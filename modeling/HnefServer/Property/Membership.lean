import HnefServer.Invariant.Steps

/-!
# The players of a room

In every state an orderly run reaches, a room has two players, whom the searches by nick find,
and a client in a room has an opponent.  The instance a reconnection has taken its name from
keeps its room id, so that the ids alone do not count the players.
-/

namespace HnefServer

open ClientManager

namespace Server

variable {clients rooms : ℕ} {fd : ℤ} {s : Server}

/-- The named clients with the id of the room are its two players. -/
structure TwoPlayers (s : Server) (r : RoomHnefatafl) (i j : ℕ) : Prop where
  ne : i ≠ j
  black : ∃ c, s.mngClient.clients[i]? = some c ∧ c.nick = r.black ∧ c.roomId = r.roomId
  white : ∃ d, s.mngClient.clients[j]? = some d ∧ d.nick = r.white ∧ d.roomId = r.roomId
  only : ∀ k e, s.mngClient.clients[k]? = some e → e.nick ≠ [] → e.roomId = r.roomId →
    k = i ∨ k = j

/-- Nobody else who has a name is in the room of two opponents. -/
theorem eq_of_roomId (hm : s.hall.Member) {i j k x : ℕ} {c d e : Client} {r : RoomHnefatafl}
    (ho : Opponents s.mngClient x r i c j d) (he : s.mngClient.clients[k]? = some e)
    (hn : e.nick ≠ []) (hroom : e.roomId = r.roomId) : k = i ∨ k = j := by
  have hne : e.roomId ≠ 0 := hroom ▸ Hall.Member.roomId_ne_zero hm ho.room
  obtain ⟨y, r', k', e', ho'⟩ := Hall.Member.opponent hm he hn hne
  have hid : r'.roomId = r.roomId := ho'.fstRoom.symm.trans hroom
  obtain rfl : r' = r := hm.ids.eq_of_mem (List.mem_of_getElem? ho'.room)
    (List.mem_of_getElem? ho.room) rfl (congrArg some hid.symm)
  have hnick : e.nick = c.nick ∨ e.nick = d.nick := by
    rcases ho'.nicks with ⟨hen, -⟩ | ⟨hen, -⟩ <;> rcases ho.nicks with ⟨hcn, hdn⟩ | ⟨hcn, hdn⟩
    · exact Or.inl (hen.trans hcn.symm)
    · exact Or.inr (hen.trans hdn.symm)
    · exact Or.inr (hen.trans hdn.symm)
    · exact Or.inl (hen.trans hcn.symm)
  rcases hnick with hec | hed
  · exact Or.inl (Hall.eq_of_nick hm.names he ho.fst hec hn)
  · exact Or.inr (Hall.eq_of_nick hm.names he ho.snd hed hn)

theorem exists_twoPlayers (hm : s.hall.Member) {r : RoomHnefatafl}
    (hr : r ∈ s.mngClient.lobby.games) :
    r.black ≠ [] ∧ r.white ≠ [] ∧ r.black ≠ r.white ∧ ∃ i j, s.TwoPlayers r i j := by
  obtain ⟨x, hx⟩ := List.mem_iff_getElem?.1 hr
  obtain ⟨i, c, j, d, ho, hcn, hdn⟩ := Hall.Member.players hm hx
  have hne : c.nick ≠ d.nick := fun hn =>
    ho.ne (Hall.eq_of_nick hm.names ho.fst ho.snd hn ho.fstName)
  rcases hm.colours r hr with ⟨hb, hw⟩ | ⟨hb, hw⟩
  · rw [← hcn] at hb
    rw [← hdn] at hw
    rw [hb, hw]
    exact ⟨ho.fstName, ho.sndName, hne, i, j, ho.ne, ⟨c, ho.fst, hb.symm, ho.fstRoom⟩,
      ⟨d, ho.snd, hw.symm, ho.sndRoom⟩, fun k e he hn hroom => eq_of_roomId hm ho he hn hroom⟩
  · rw [← hdn] at hb
    rw [← hcn] at hw
    rw [hb, hw]
    exact ⟨ho.sndName, ho.fstName, hne.symm, j, i, ho.ne.symm, ⟨d, ho.snd, hb.symm, ho.sndRoom⟩,
      ⟨c, ho.fst, hw.symm, ho.fstRoom⟩,
      fun k e he hn hroom => (eq_of_roomId hm ho he hn hroom).symm⟩

/-- **The room membership invariant.**  In every state an orderly run reaches, the named clients
with the id of a room are two, and they carry its black and its white nick, which are distinct and
not empty; every named client with a room id has a room; and a client without a name that has a
room id is Disconnected and flagged to be erased. -/
theorem rooms_have_two_players (h : Server.OrderlyReachable false clients rooms fd s) :
    (∀ r ∈ s.mngClient.lobby.games, r.black ≠ [] ∧ r.white ≠ [] ∧ r.black ≠ r.white ∧
      ∃ i j, s.TwoPlayers r i j) ∧
    (∀ c ∈ s.mngClient.clients, c.nick ≠ [] → c.roomId ≠ 0 →
      ∃ r ∈ s.mngClient.lobby.games, r.roomId = c.roomId) ∧
    (∀ c ∈ s.mngClient.clients, c.nick = [] → c.roomId ≠ 0 →
      c.state = .disconnected ∧ c.flagToErase = true) := by
  have hm := h.member
  refine ⟨fun r hr => exists_twoPlayers hm hr, fun c hc hn hroom => ?_, fun c hc hn hroom => ?_⟩
  · obtain ⟨i, hi⟩ := List.mem_iff_getElem?.1 hc
    obtain ⟨k, r, j, d, ho⟩ := Hall.Member.opponent (m := s.mngClient) hm hi hn hroom
    exact ⟨r, List.mem_of_getElem? ho.room, ho.fstRoom.symm⟩
  · have hok := hm.ok c hc
    have hgone := (hok.unnamed hn).resolve_right fun hnew => by
      have hgame := hok.game.2 hroom
      simp [hnew.2, State.inGame] at hgame
    exact ⟨hgone.1, hgone.2⟩

/-- The players of the first game, after one of them has reconnected over a new connection. -/
def reconnected : List Input :=
  firstGame ++ [.close 0, .accept "10.0.0.4".toList 6, .frame 2 (.connect alice)]

theorem rooms_have_two_players_reconnected : ∃ s,
    Server.OrderlyReachable false 10 5 3 s ∧ s.mngClient.lobby.games.length = 1 ∧
    (∀ r ∈ s.mngClient.lobby.games, r.black ≠ [] ∧ r.white ≠ [] ∧ r.black ≠ r.white ∧
      ∃ i j, s.TwoPlayers r i j) ∧
    (∀ c ∈ s.mngClient.clients, c.nick ≠ [] → c.roomId ≠ 0 →
      ∃ r ∈ s.mngClient.lobby.games, r.roomId = c.roomId) ∧
    (∀ c ∈ s.mngClient.clients, c.nick = [] → c.roomId ≠ 0 →
      c.state = .disconnected ∧ c.flagToErase = true) := by
  have hrun : (server.replay (Server.Orderly false) (create 10 5 3) reconnected).any
      (fun s => decide (s.mngClient.lobby.games.length = 1)) = true := by decide +kernel
  obtain ⟨s, hs, hgames⟩ := System.exists_reachableIf hrun
  exact ⟨s, hs, of_decide_eq_true hgames, rooms_have_two_players hs⟩

/-- **Orderly runs refine the seating plan.**  Read as a seating plan, by the names of the clients
and the players of the rooms, every orderly run is a run of the plan from the one where nobody
sits: people enter, leave, sit down in pairs at new tables, change places, and get up in pairs. -/
theorem runs_refine_seating {strict : Bool} (h : Server.OrderlyReachable strict clients rooms fd s) :
    Seating.Steps Seating.empty s.hall.seating ∧ s.hall.seating.Arranged ∧
      ∀ l s', s.Orderly strict l → server.Step s l s' →
        Seating.Steps s.hall.seating s'.hall.seating :=
  ⟨h.seating, h.member.arranged, fun _ _ ho hst => server_step_seating h.member ho hst⟩

theorem runs_refine_seating_reconnected : ∃ s : Server,
    s.hall.seating.pair 1 alice.text bobby.text ∧ s.hall.seating.sits alice.text 1 ∧
    Seating.Steps Seating.empty s.hall.seating ∧ s.hall.seating.Arranged ∧
      ∀ l s', s.Orderly false l → server.Step s l s' →
        Seating.Steps s.hall.seating s'.hall.seating := by
  have hrun : (server.replay (Server.Orderly false) (create 10 5 3) reconnected).any (fun s =>
      s.mngClient.lobby.games.any fun r => r.roomId == 1 && r.onTurn == alice.text &&
        r.onStand == bobby.text) = true := by decide +kernel
  obtain ⟨s, hs, ht⟩ := System.exists_reachableIf hrun
  obtain ⟨r, hr, ht⟩ := List.any_eq_true.1 ht
  simp only [Bool.and_eq_true, beq_iff_eq] at ht
  have hplan := runs_refine_seating hs
  have hpair : s.hall.seating.pair 1 alice.text bobby.text := ⟨r, hr, ht.1.1, ht.1.2, ht.2⟩
  exact ⟨s, hpair, (hplan.2.1.seated hpair).1, hplan⟩

/-- A long reconnection leaves three clients with the id of the one room: the stripped instance
keeps it until it is erased. -/
theorem three_clients_with_roomId : ∃ s, Server.Reachable 10 5 3 s ∧
    ∃ r ∈ s.mngClient.lobby.games,
      (s.mngClient.clients.filter fun c => c.roomId == r.roomId).length = 3 := by
  have hrun : (server.replay (fun _ _ => True) (create 10 5 3) reconnected).any
      (fun s => s.mngClient.lobby.games.any fun r =>
        decide ((s.mngClient.clients.filter fun c => c.roomId == r.roomId).length = 3)) = true := by
    decide +kernel
  obtain ⟨s, hs, ht⟩ := exists_reachable hrun
  obtain ⟨r, hr, hthree⟩ := List.any_eq_true.1 ht
  exact ⟨s, hs, r, hr, of_decide_eq_true hthree⟩

end Server

end HnefServer
