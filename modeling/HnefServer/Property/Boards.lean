import HnefServer.Invariant.Base

/-!
# The boards over whole runs

`Server.Reachable.boards_wellFormed` says that every game in the lobby goes on, on a well-formed
board, in every reachable state, and that the warriors of a game only get fewer along a run.  A
room id is never used twice, so a room is followed through a run by its id.
-/

namespace HnefServer

open World

/-- Everything known about the room of a game that goes on. -/
structure RoomHnefatafl.InProgress (r : RoomHnefatafl) : Prop where
  playing : r.gameState = .playing
  king : ∃! q, r.pf q = .sKing
  kingOffCorner : ∀ q, r.pf q = .sKing → ¬ IsCorner q
  corners : ∀ q, IsCorner q → r.pf q = .fEscape
  middle : r.pf centre = .fThrone ∨ r.pf centre = .sKing
  throne : ∀ q, r.pf q = .fThrone → q = centre
  escape : ∀ q, r.pf q = .fEscape → IsCorner q
  black : r.pf.stones .sBlack ≤ 24
  white : r.pf.stones .sWhite ≤ 12

namespace World

/-- The rooms with a given id have at most `n` fields of kind `f`, and no new room can get the
id. -/
structure AtMost (f : Field) (id n : ℕ) (w : World) : Prop where
  bound : id ≤ w.lobby.roomsTotal
  rooms : ∀ r ∈ w.lobby.games, r.roomId = id → r.pf.stones f ≤ n

variable {w w' : World} {f : Field} {id n : ℕ}

theorem AtMost.upd (hf : f ≠ .fEmpty ∧ f ≠ .fThrone) (h : AtMost f id n w) (hst : Upd w w') :
    AtMost f id n w' := by
  cases hst with
  | client | name | steal | drop | join | close | unwatch => exact ⟨h.bound, h.rooms⟩
  | create a b =>
    refine ⟨Nat.le_succ_of_le h.bound, fun r hr hid => ?_⟩
    rcases List.mem_append.1 hr with hr | hr
    · exact h.rooms r hr hid
    · have hnew : r.roomId = w.lobby.roomsTotal + 1 := by
        rw [List.mem_singleton.1 hr]
        rfl
      have hle := h.bound
      omega
  | move k r r' t b hr hm hs =>
    refine ⟨h.bound, fun x hx hid => ?_⟩
    rcases List.mem_or_eq_of_mem_set hx with hx | rfl
    · exact h.rooms x hx hid
    · have hsame := (RoomHnefatafl.processMove_players hm).1
      exact (RoomHnefatafl.processMove_stones hm hf).trans
        (h.rooms r (List.mem_of_getElem? hr) (hsame.symm.trans hid))
  | destroy k => exact ⟨h.bound, fun r hr => h.rooms r (List.mem_of_mem_eraseIdx hr)⟩

/-- The warriors on the boards are at most those a game starts with. -/
def FewWarriors (w : World) : Prop :=
  ∀ r ∈ w.lobby.games, r.pf.stones .sBlack ≤ 24 ∧ r.pf.stones .sWhite ≤ 12

theorem FewWarriors.upd (h : FewWarriors w) (hst : Upd w w') : FewWarriors w' := by
  cases hst with
  | client | name | steal | drop | join | close | unwatch => exact h
  | create a b =>
    intro r hr
    rcases List.mem_append.1 hr with hr | hr
    · exact h r hr
    · rw [List.mem_singleton.1 hr]
      exact ⟨stones_start.1.le, stones_start.2.le⟩
  | move k r r' t b hr hm hs =>
    intro x hx
    rcases List.mem_or_eq_of_mem_set hx with hx | rfl
    · exact h x hx
    · obtain ⟨hblack, hwhite⟩ := h r (List.mem_of_getElem? hr)
      exact ⟨(RoomHnefatafl.processMove_stones hm (by decide)).trans hblack,
        (RoomHnefatafl.processMove_stones hm (by decide)).trans hwhite⟩
  | destroy k => exact fun r hr => h r (List.mem_of_mem_eraseIdx hr)

end World

namespace Server.Reachable

variable {clients rooms : ℕ} {fd : ℤ} {s : Server}

theorem fewWarriors (h : Server.Reachable clients rooms fd s) : FewWarriors s.world :=
  System.Reachable.invariant (I := fun s : Server => FewWarriors s.world) h
    (fun r hr => by cases hr) fun _ _ _ hs hst =>
      (server_step_upds hst).invariant (fun _ _ h hst => h.upd hst) hs

theorem inProgress (h : Server.Reachable clients rooms fd s) {r : RoomHnefatafl}
    (hr : r ∈ s.mngClient.lobby.games) : r.InProgress := by
  obtain ⟨hplay, hpf⟩ := h.base.boards r hr
  obtain ⟨hblack, hwhite⟩ := h.fewWarriors r hr
  refine ⟨hplay, hpf.king, fun q hq hc => ?_, hpf.corners, hpf.middle, hpf.throne, hpf.escape,
    hblack, hwhite⟩
  rw [hpf.corners q hc] at hq
  cases hq

/-- Warriors are never added to a game. -/
theorem stones_le (h : Server.Reachable clients rooms fd s) {s' : Server}
    (hrun : server.Reachable s s') {f : Field} (hf : f ≠ .fEmpty ∧ f ≠ .fThrone)
    {r r' : RoomHnefatafl} (hr : r ∈ s.mngClient.lobby.games)
    (hr' : r' ∈ s'.mngClient.lobby.games) (hid : r'.roomId = r.roomId) :
    r'.pf.stones f ≤ r.pf.stones f := by
  have hstart : AtMost f r.roomId (r.pf.stones f) s.world := by
    refine ⟨(h.base.bound r hr).2, fun x hx hxid => ?_⟩
    obtain rfl : x = r := h.base.ids.eq_of_mem hx hr rfl (congrArg some hxid.symm)
    exact le_rfl
  have hend : AtMost f r.roomId (r.pf.stones f) s'.world :=
    System.Reachable.invariant (I := fun s : Server => AtMost f r.roomId (r.pf.stones f) s.world)
      hrun hstart fun _ _ _ hs hst =>
        (server_step_upds hst).invariant (fun _ _ h hst => h.upd hf hst) hs
  exact hend.rooms r' hr' hid

/-- **The board invariant over whole runs.**  In every reachable state every game in the lobby
goes on and its board is well formed; the warriors of neither colour get more along a run; and
whatever room a move request finds, its game is not finished. -/
theorem boards_wellFormed (h : Server.Reachable clients rooms fd s) :
    (∀ r ∈ s.mngClient.lobby.games, r.InProgress) ∧
    (∀ s', server.Reachable s s' → ∀ r ∈ s.mngClient.lobby.games,
      ∀ r' ∈ s'.mngClient.lobby.games, r'.roomId = r.roomId →
        r'.pf.stones .sBlack ≤ r.pf.stones .sBlack ∧
          r'.pf.stones .sWhite ≤ r.pf.stones .sWhite) ∧
    (∀ id r, s.mngClient.lobby.deref (s.mngClient.lobby.getRoomById id) = .ok r →
      r.gameState = .playing) := by
  refine ⟨fun r hr => h.inProgress hr, fun s' hrun r hr r' hr' hid => ?_, fun id r hr => ?_⟩
  · exact ⟨h.stones_le hrun (by decide) hr hr' hid, h.stones_le hrun (by decide) hr hr' hid⟩
  · rw [ClientManager.lobby_deref_eq_ok] at hr
    exact (h.base.boards r (List.mem_of_getElem? hr)).1

/-- The board invariant in the state after the first game has begun. -/
theorem boards_wellFormed_firstGame : ∃ s, s.mngClient.lobby.games.length = 1 ∧
    (∀ r ∈ s.mngClient.lobby.games, r.InProgress) ∧
    (∀ s', server.Reachable s s' → ∀ r ∈ s.mngClient.lobby.games,
      ∀ r' ∈ s'.mngClient.lobby.games, r'.roomId = r.roomId →
        r'.pf.stones .sBlack ≤ r.pf.stones .sBlack ∧
          r'.pf.stones .sWhite ≤ r.pf.stones .sWhite) ∧
    (∀ id r, s.mngClient.lobby.deref (s.mngClient.lobby.getRoomById id) = .ok r →
      r.gameState = .playing) := by
  have hrun : (server.replay (fun _ _ => True) (Server.create 10 5 3) firstGame).any
      (fun s => decide (s.mngClient.lobby.games.length = 1)) = true := by decide +kernel
  obtain ⟨s, hs, hgames⟩ := exists_reachable hrun
  exact ⟨s, of_decide_eq_true hgames, hs.boards_wellFormed⟩

end Server.Reachable

end HnefServer
