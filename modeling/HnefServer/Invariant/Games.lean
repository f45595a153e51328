import HnefServer.Game.Rules
import HnefServer.Invariant.Base
import HnefServer.Invariant.Follow
import HnefServer.Invariant.Rooms

/-!
# The games of a run

What a step does to the rooms as they are, boards included: the pairing opens rooms on the start
board, a move request makes or rejects a move in one room, and all other steps only close rooms
(`server_step_keeps`).  `Server.moveMade` reads the accepted moves off a run.
-/

namespace HnefServer

open ClientManager

/-- Rooms may be closed, and no more. -/
structure Lobby.Keeps (l l' : Lobby) : Prop where
  games : l'.games ⊆ l.games
  roomsTotal : l'.roomsTotal = l.roomsTotal

namespace Lobby.Keeps

variable {l l' l'' : Lobby}

theorem refl (l : Lobby) : Keeps l l := ⟨List.Subset.refl _, rfl⟩

theorem of_eq (h : l' = l) : Keeps l l' := h ▸ refl l

theorem trans (h : Keeps l l') (h' : Keeps l' l'') : Keeps l l'' :=
  ⟨List.Subset.trans h'.games h.games, h'.roomsTotal.trans h.roomsTotal⟩

theorem eraseIdx (l : Lobby) (k : ℕ) : Keeps l { l with games := l.games.eraseIdx k } :=
  ⟨fun _ => List.mem_of_mem_eraseIdx, rfl⟩

end Lobby.Keeps

namespace ClientManager

open Lobby.Keeps

variable {m m' : ClientManager} {i j : ℕ}

theorem keeps_destroyRoom {id : ℕ} (h : m.destroyRoom id i j = .ok m') :
    m.lobby.Keeps m'.lobby := by
  obtain ⟨-, -, -, -, -, -, ⟨-, hl⟩ | ⟨-, -, hl⟩⟩ := destroyRoom_cases h
  · exact of_eq hl
  · rw [hl]
    exact eraseIdx _ _

theorem keeps_eraseClient (h : m.eraseClient i = .ok m') : m.lobby.Keeps m'.lobby := by
  obtain ⟨c, -, ⟨-, rfl⟩ | ⟨-, n, m₁, m₂, -, -, hl, hdestroy, rfl⟩⟩ := eraseClient_cases h
  · exact refl _
  · have hleft := keeps_destroyRoom hdestroy
    rw [hl] at hleft
    exact hleft

theorem keeps_serveFrame {st : State} {f : Frame} {b : ℤ} (hmove : ∀ t, f ≠ .move t)
    (h : m.serveFrame i st f = .ok (m', b)) : m.lobby.Keeps m'.lobby := by
  cases f with
  | ping =>
    cases h
    split_ifs <;> exact refl _
  | pong | ready | ok =>
    cases h
    exact refl _
  | connect n => exact of_eq (lobby_requestConnect h)
  | move t => exact absurd rfl (hmove t)
  | leave =>
    obtain ⟨c, n, m₁, -, -, hsend, hdestroy⟩ := requestLeave_cases h
    have hl : m₁.lobby = m.lobby := (sendToOpponentOf_same hsend).2
    exact hl ▸ keeps_destroyRoom hdestroy
  | chat msg =>
    obtain ⟨m₁, hsend, h₁⟩ := bind_eq_ok.1 h
    cases h₁
    exact of_eq (sendToOpponentOf_same hsend).2

end ClientManager

namespace Server

open Lobby.Keeps

variable {s s' : Server} {i : ℕ}

theorem keeps_closeConnection (h : s.closeConnection i = .ok s') :
    s.mngClient.lobby.Keeps s'.mngClient.lobby := by
  obtain ⟨c, -, ⟨-, rfl⟩ | ⟨-, m, -, hl, rfl⟩⟩ := closeConnection_cases h
  · exact refl _
  · exact of_eq hl

theorem keeps_erase (h : s.manage (s.mngClient.eraseClient i) = .ok s') :
    s.mngClient.lobby.Keeps s'.mngClient.lobby := by
  obtain ⟨m, hm, rfl⟩ := manage_eq_ok.1 h
  exact keeps_eraseClient hm

theorem preserving_keeps :
    Preserving fun s s' => s.mngClient.lobby.Keeps s'.mngClient.lobby where
  refl := fun _ => refl _
  trans := fun _ _ _ => trans
  tell := fun _ _ _ _ => refl _
  close := fun _ _ _ => keeps_closeConnection
  erase := fun _ _ _ => keeps_erase
  evict := fun _ _ => refl _
  unflag := fun _ _ => refl _

/-- The move an input makes: in which room, from where and where to. -/
def moveMade (s : Server) : Input → Option (ℕ × Square × Square)
  | .frame i (.move t) => do
    let c ← s.mngClient.clients[i]?
    let r ← s.mngClient.lobby.games[s.mngClient.lobby.getRoomById c.roomId]?
    let l ← squaresOf t.text
    if (Frame.move t).acceptedIn c.state ∧ MoveMade r t.text then some (r.roomId, l) else none
  | _ => none

end Server

variable {s s' : Server} {l : Input} {i : ℕ}

/-- Only the pairing and the moves do more than close rooms. -/
theorem server_step_keeps (h : server.Step s l s') (hpair : l ≠ .pair)
    (hmove : ∀ i t, l ≠ .frame i (.move t)) : s.mngClient.lobby.Keeps s'.mngClient.lobby := by
  obtain ⟨-, hexec⟩ := h
  change s.clearSent.handle l = .ok s' at hexec
  change s.clearSent.mngClient.lobby.Keeps s'.mngClient.lobby
  cases l with
  | accept ip fd =>
    have hcap := Server.preserving_keeps.checkCapacity hexec
    unfold Server.acceptConnection at hcap
    split_ifs at hcap
    · exact hcap
    · exact hcap
  | frame i f =>
    obtain ⟨c, m, b, -, rfl, ⟨-, rfl⟩ | ⟨-, hserve⟩⟩ := Server.frame_cases hexec
    · exact .refl _
    · exact keeps_serveFrame (fun t ht => hmove i t (ht ▸ rfl)) hserve
  | close i => exact Server.keeps_closeConnection hexec
  | kick i => exact Server.preserving_keeps.kick hexec
  | flags i => exact Server.preserving_keeps.processFlags hexec
  | pair => exact absurd rfl hpair
  | ping =>
    obtain ⟨m, hm, rfl⟩ := Server.manage_eq_ok.1 hexec
    exact .of_eq (pingClients_spec hm).2
  | shutdown =>
    obtain ⟨s₁, hs₁, h₁⟩ := bind_eq_ok.1 hexec
    cases h₁
    have hclosed := Server.preserving_keeps.closeClientSockets hs₁
    exact hclosed

/-- The rooms after the pairing: those before it, and new ones on the start board. -/
structure Lobby.Opens (l l' : Lobby) : Prop where
  roomsTotal : l.roomsTotal ≤ l'.roomsTotal
  games : ∀ r ∈ l'.games, r ∈ l.games ∨
    ∃ id a b, l.roomsTotal < id ∧ r = RoomHnefatafl.create id a b

theorem server_step_opens (h : server.Step s .pair s') :
    s.mngClient.lobby.Opens s'.mngClient.lobby := by
  obtain ⟨m, hm, rfl⟩ := Server.manage_eq_ok.1 h.2
  have hpairs := pairs_of_pairLoop hm
  change s.clearSent.mngClient.lobby.Opens m.lobby
  clear h hm
  induction hpairs with
  | refl => exact ⟨le_refl _, fun r hr => Or.inl hr⟩
  | tail _ hst ih =>
    obtain ⟨i, j, c, d, hp⟩ := hst
    rw [hp.lobby]
    refine ⟨ih.roomsTotal.trans (Nat.le_succ _), fun r hr => ?_⟩
    rcases List.mem_append.1 hr with hr | hr
    · exact ih.games r hr
    · exact Or.inr ⟨_, c.nick, d.nick, Nat.lt_succ_of_le ih.roomsTotal, List.mem_singleton.1 hr⟩

/-! ### Moves -/

/-- The move `l` in the room `r` is made, and `r'` is the room afterwards.  It is kept, unless the
game is over. -/
structure Lobby.Moves (l : Square × Square) (r r' : RoomHnefatafl) (lob lob' : Lobby) :
    Prop where
  roomsTotal : lob'.roomsTotal = lob.roomsTotal
  mem : r ∈ lob.games
  id : r'.roomId = r.roomId
  squares : ∃ t : Coordinates, squaresOf t.text = some l ∧ r.processMove t.text = .ok (r', true)
  others : ∀ e ∈ lob'.games, e.roomId ≠ r.roomId → e ∈ lob.games
  kept : ∀ e ∈ lob'.games, e.roomId = r.roomId → e = r'
  ended : r' ∈ lob'.games ↔ r'.gameState ≠ .gameover

/-- A move is rejected: in one room the coordinates are new, but nothing else. -/
structure Lobby.Rejects (lob lob' : Lobby) : Prop where
  roomsTotal : lob'.roomsTotal = lob.roomsTotal
  games : ∀ e ∈ lob'.games, ∃ r ∈ lob.games, e = r ∨ ∃ t : Coordinates,
    r.processMove t.text = .ok (e, false)
  kept : ∀ r ∈ lob.games, ∃ e ∈ lob'.games, e = r ∨ ∃ t : Coordinates,
    r.processMove t.text = .ok (e, false)

/-- The rooms after a move that was made. -/
theorem moves_of_set {m m' : ClientManager} {socks : List ℤ} {k : ℕ} {r r' : RoomHnefatafl}
    {l : Square × Square} {t : Coordinates} (hb : (m.world socks).Base)
    (hr : m.lobby.games[k]? = some r) (hid : r'.roomId = r.roomId)
    (hsq : squaresOf t.text = some l) (hproc : r.processMove t.text = .ok (r', true))
    (hl : r'.gameState ≠ .gameover ∧ m'.lobby = (m.putRoom k r').lobby ∨
      r'.gameState = .gameover ∧
        m'.lobby = { m.lobby with games := (m.lobby.games.set k r').eraseIdx k }) :
    Lobby.Moves l r r' m.lobby m'.lobby := by
  have hlt : k < m.lobby.games.length := (List.getElem?_eq_some_iff.1 hr).1
  -- of the other rooms, none has the id of this one
  have hother : ∀ j e, j ≠ k → m.lobby.games[j]? = some e → e.roomId ≠ r.roomId :=
    fun j e hj he h => hj (hb.ids j k e r r.roomId he hr (congrArg some h) rfl)
  have hset : ∀ j e, (m.lobby.games.set k r')[j]? = some e →
      j = k ∧ e = r' ∨ j ≠ k ∧ m.lobby.games[j]? = some e := by
    intro j e he
    by_cases hj : j = k
    · subst hj
      rw [List.getElem?_set_self hlt] at he
      exact Or.inl ⟨rfl, (Option.some.inj he).symm⟩
    · rw [List.getElem?_set_ne (Ne.symm hj)] at he
      exact Or.inr ⟨hj, he⟩
  rcases hl with ⟨hplay, hl⟩ | ⟨hover, hl⟩
  · have hmem : ∀ e ∈ m'.lobby.games, e = r' ∨ e ∈ m.lobby.games ∧ e.roomId ≠ r.roomId := by
      intro e he
      rw [hl] at he
      obtain ⟨j, hj⟩ := List.mem_iff_getElem?.1 he
      rcases hset j e hj with ⟨-, rfl⟩ | ⟨hne, hj⟩
      · exact Or.inl rfl
      · exact Or.inr ⟨List.mem_of_getElem? hj, hother j e hne hj⟩
    have hkept : r' ∈ m'.lobby.games := by
      rw [hl]
      exact List.mem_of_getElem? (List.getElem?_set_self hlt)
    exact
      { roomsTotal := by rw [hl]; rfl
        mem := List.mem_of_getElem? hr
        id := hid
        squares := ⟨t, hsq, hproc⟩
        others := fun e he hne => (hmem e he).elim (fun h => absurd (h ▸ hid) hne) And.left
        kept := fun e he heq => (hmem e he).resolve_right fun h => h.2 heq
        ended := ⟨fun _ => hplay, fun _ => hkept⟩ }
  · have hmem : ∀ e ∈ m'.lobby.games, e ∈ m.lobby.games ∧ e.roomId ≠ r.roomId := by
      intro e he
      rw [hl] at he
      obtain ⟨j, hjk, hj⟩ := List.mem_eraseIdx_iff_getElem?.1 he
      rcases hset j e hj with ⟨hj', -⟩ | ⟨hne, hj⟩
      · exact absurd hj' hjk
      · exact ⟨List.mem_of_getElem? hj, hother j e hne hj⟩
    exact
      { roomsTotal := by rw [hl]
        mem := List.mem_of_getElem? hr
        id := hid
        squares := ⟨t, hsq, hproc⟩
        others := fun e he _ => (hmem e he).1
        kept := fun e he heq => absurd heq (hmem e he).2
        ended := ⟨fun hin => absurd hid (hmem r' hin).2, fun h => absurd hover h⟩ }

/-- **What a move request does to the rooms.** -/
theorem server_step_moves (hb : s.world.Base) {t : Coordinates}
    (h : server.Step s (.frame i (.move t)) s') :
    s.moveMade (.frame i (.move t)) = none ∧ s.mngClient.lobby.Rejects s'.mngClient.lobby ∨
      ∃ l r r', s.moveMade (.frame i (.move t)) = some (r.roomId, l) ∧
        s.mngClient.lobby.Moves l r r' s'.mngClient.lobby := by
  obtain ⟨c, m, b, hc, rfl, hcases⟩ := Server.frame_cases h.2
  change s.mngClient.clients[i]? = some c at hc
  rcases hcases with ⟨hnot, rfl⟩ | ⟨hacc, hserve⟩
  · refine Or.inl ⟨?_, rfl, fun e he => ⟨e, he, Or.inl rfl⟩, fun e he => ⟨e, he, Or.inl rfl⟩⟩
    simp [Server.moveMade, hc, hnot]
  obtain ⟨c', k, r, r', hc', rfl, hr, hid, hout⟩ := requestMove_outcome hserve
  obtain rfl : c = c' := Option.some.inj (hc.symm.trans hc')
  have hlt := (List.getElem?_eq_some_iff.1 hr).1
  change s.mngClient.lobby.games[s.mngClient.lobby.getRoomById c.roomId]? = some r at hr
  rcases hout with ⟨hproc, -, -, rfl⟩ | ⟨hproc, -, -, a, d, -, -, hover⟩
  · refine Or.inl ⟨?_, rfl, fun e he => ?_, fun e he => ?_⟩
    · have hnot : ¬ Server.MoveMade r t.text := by
        rintro ⟨r₁, hr₁⟩
        rw [hproc] at hr₁
        cases hr₁
      simp [Server.moveMade, hc, hr, hnot]
    · rcases (mem_set hlt).1 he with rfl | ⟨j, -, hj⟩
      · exact ⟨r, List.mem_of_getElem? hr, Or.inr ⟨t, hproc⟩⟩
      · exact ⟨e, List.mem_of_getElem? hj, Or.inl rfl⟩
    · obtain ⟨j, hj⟩ := List.mem_iff_getElem?.1 he
      by_cases hjk : j = s.mngClient.lobby.getRoomById c.roomId
      · obtain rfl : r = e := Option.some.inj (hr.symm.trans (hjk ▸ hj))
        exact ⟨r', (mem_set hlt).2 (Or.inl rfl), Or.inr ⟨t, hproc⟩⟩
      · exact ⟨e, (mem_set hlt).2 (Or.inr ⟨j, hjk, hj⟩), Or.inl rfl⟩
  · obtain ⟨p, q, hspells, -⟩ := RoomHnefatafl.processMove_accepted hproc
    have hsq : squaresOf t.text = some (p, q) := squaresOf_eq_some.2 hspells
    have hmade : Server.MoveMade r t.text := ⟨r', hproc⟩
    refine Or.inr ⟨(p, q), r, r', by simp [Server.moveMade, hc, hr, hsq, hmade, hacc], ?_⟩
    refine moves_of_set (m := s.mngClient) hb hr hid hsq hproc ?_
    rcases hover with ⟨hplay, rfl⟩ | ⟨hgone, hdestroy⟩
    · exact Or.inl ⟨hplay, rfl⟩
    · refine Or.inr ⟨hgone, ?_⟩
      have hroom : r.roomId = c.roomId := room_of_getRoomById hr
      obtain ⟨-, -, -, -, -, -, ⟨hzero, -⟩ | ⟨-, -, hl⟩⟩ := destroyRoom_cases hdestroy
      · have hpos := (hb.bound r (List.mem_of_getElem? hr)).1
        omega
      · have hat : (s.mngClient.putRoom (s.mngClient.lobby.getRoomById c.roomId)
            r').lobby.getRoomById c.roomId = s.mngClient.lobby.getRoomById c.roomId :=
          getRoomById_putRoom hr hid
        change m.lobby = { s.mngClient.lobby with
          games := (s.mngClient.lobby.games.set (s.mngClient.lobby.getRoomById c.roomId) r').eraseIdx
            ((s.mngClient.putRoom (s.mngClient.lobby.getRoomById c.roomId) r').lobby.getRoomById
              c.roomId) } at hl
        rw [hat] at hl
        exact hl

end HnefServer
