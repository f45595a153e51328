import HnefServer.Invariant.Fair
import HnefServer.Invariant.NoFault
import HnefServer.Property.RoomLimit

/-!
# Who is put into a game

The pairing looks at the state of the clients only.  In the states a fair run reaches it puts only
named clients of the lobby into a game, who are not players of a room yet
(`pairs_lobby_clients_only`).
-/

namespace HnefServer

open ClientManager

namespace ClientManager

variable {m m' : ClientManager} {i j : ℕ} {c d : Client}

/-- The clients `c` and `d` may play against each other: they have names, not the same one, they
are in the lobby, and neither is a player of a room. -/
structure MayPlay (m : ClientManager) (c d : Client) : Prop where
  fst : c.nick ≠ []
  snd : d.nick ≠ []
  ne : c.nick ≠ d.nick
  lobby : c.roomId = 0 ∧ d.roomId = 0
  unlisted : ∀ r ∈ m.lobby.games, ∀ n ∈ [r.onTurn, r.onStand, r.black, r.white],
    n ≠ c.nick ∧ n ≠ d.nick

/-- The pairing returns, and starts one game after the other, each for two clients who may play
against each other. -/
def PairsLobbyOnly (m : ClientManager) : Prop :=
  ∃ m', m.moveReadyClientsToPlay = .ok m' ∧
    Relation.ReflTransGen (fun m₁ m₂ => ∃ i j c d, m₁.Paired m₂ i j c d ∧
      m.clients[i]? = some c ∧ m.clients[j]? = some d ∧ m₁.MayPlay c d) m m'

/-- A client that is Ready after a game was started has not changed. -/
theorem Paired.ready (h : m.Paired m' i j c d) {k : ℕ} {e : Client} (he : m'.clients[k]? = some e)
    (hs : e.state = .ready) : m.clients[k]? = some e := by
  rw [h.clients, List.getElem?_modify] at he
  obtain ⟨a, ha, rfl⟩ := Option.map_eq_some_iff.1 he
  rw [List.getElem?_modify] at ha
  obtain ⟨b, hb, rfl⟩ := Option.map_eq_some_iff.1 ha
  -- a client of the new game plays
  split_ifs at hs ⊢
  · cases hs
  · cases hs
  · cases hs
  · exact hb

theorem Paired.mayPlay (h : m.Paired m' i j c d) {socks : List ℤ} (hb : (m.world socks).Base)
    (hl : m.hall.Listed) : m.MayPlay c d := by
  obtain ⟨hcn, hcroom⟩ := hl.lobby_of_ready h.fst h.fstReady
  obtain ⟨hdn, hdroom⟩ := hl.lobby_of_ready h.snd h.sndReady
  refine ⟨hcn, hdn, fun hn => h.lt.ne (Hall.eq_of_nick hb.nicks h.fst h.snd hn hcn),
    ⟨hcroom, hdroom⟩, fun r hr n hn => ?_⟩
  obtain ⟨hct, hcs⟩ := hl.not_player hb h.fst hcn hcroom hr
  obtain ⟨hdt, hds⟩ := hl.not_player hb h.snd hdn hdroom hr
  have hplayer : n = r.onTurn ∨ n = r.onStand := by
    have hcol := (hl.played r hr).colours
    unfold Hall.Coloured at hcol
    simp only [List.mem_cons, List.not_mem_nil, or_false] at hn
    rcases hn with hn | hn | hn | hn
    · exact Or.inl hn
    · exact Or.inr hn
    · exact hcol.imp (fun hbw => hn.trans hbw.1) fun hbw => hn.trans hbw.1
    · exact hcol.symm.imp (fun hbw => hn.trans hbw.2) fun hbw => hn.trans hbw.2
  rcases hplayer with rfl | rfl
  · exact ⟨hct.symm, hdt.symm⟩
  · exact ⟨hcs.symm, hds.symm⟩

end ClientManager

namespace Server

variable {clients rooms : ℕ} {fd : ℤ} {s : Server}

/-- **Only named clients of the lobby are put into a game** in the states a fair run reaches. -/
theorem pairs_lobby_clients_only (h : FairReachable clients rooms fd s) :
    s.mngClient.PairsLobbyOnly := by
  have hbase : (s.mngClient.world s.sockets).Base := Reachable.base h.reachable
  have hlisted : s.mngClient.hall.Listed := h.listed
  obtain ⟨m', hm'⟩ : Returns s.mngClient.moveReadyClientsToPlay := Hall.returns_pairLoop _
  refine ⟨m', hm', ?_⟩
  have hpairs := pairs_of_pairLoop hm'
  clear hm'
  -- the clients that are still Ready are those of the beginning
  have hinv : (m'.world s.sockets).Base ∧ m'.hall.Listed ∧
      (∀ (k : ℕ) (e : Client), m'.clients[k]? = some e → e.state = .ready →
        s.mngClient.clients[k]? = some e) ∧
      Relation.ReflTransGen (fun m₁ m₂ => ∃ i j c d, m₁.Paired m₂ i j c d ∧
        s.mngClient.clients[i]? = some c ∧ s.mngClient.clients[j]? = some d ∧ m₁.MayPlay c d)
        s.mngClient m' := by
    induction hpairs with
    | refl => exact ⟨hbase, hlisted, fun _ _ he _ => he, .refl⟩
    | tail _ hp ih =>
      obtain ⟨i, j, c, d, hp⟩ := hp
      obtain ⟨hb, hl, hready, hrun⟩ := ih
      refine ⟨hb.upds (updates_paired hp _), hl.paired hb hp,
        fun k e he hs => hready k e (hp.ready he hs) hs, hrun.tail ⟨i, j, c, d, hp, ?_, ?_, ?_⟩⟩
      · exact hready i c hp.fst hp.fstReady
      · exact hready j d hp.snd hp.sndReady
      · exact hp.mayPlay hb hl
  exact hinv.2.2.2

/-- Two clients are Ready while two others play. -/
def secondGame : List Input :=
  firstGame ++ [.accept "10.0.0.6".toList 6, .accept "10.0.0.7".toList 7, .frame 2 (.connect carol),
    .frame 3 (.connect david), .frame 2 .ready, .frame 3 .ready]

theorem pairs_lobby_clients_only_secondGame : ∃ s, FairReachable 10 5 3 s ∧
    s.mngClient.lobby.games.length = 1 ∧ s.mngClient.readyFrom 0 = 2 ∧
    s.mngClient.PairsLobbyOnly := by
  have hrun : (server.replay Fair (create 10 5 3) secondGame).any
      (fun s => decide (s.mngClient.lobby.games.length = 1 ∧ s.mngClient.readyFrom 0 = 2)) =
        true := by
    decide +kernel
  obtain ⟨s, hs, ht⟩ := System.exists_reachableIf hrun
  obtain ⟨hgames, hready⟩ := of_decide_eq_true ht
  exact ⟨s, hs, hgames, hready, pairs_lobby_clients_only hs⟩

/-- Two clients are pinged before they have a name, and say that they are ready. -/
def unnamedReady : List Input :=
  [.accept "10.0.0.4".toList 4, .accept "10.0.0.5".toList 5, .ping, .frame 0 .ready,
    .frame 1 .ready]

/-- Rooms that the pairing creates for clients who may play have named players. -/
theorem black_ne_nil {m m' : ClientManager} (hr₀ : m.lobby.games = [])
    (h : m.moveReadyClientsToPlay = .ok m') (hp : m.PairsLobbyOnly) :
    ∀ r ∈ m'.lobby.games, r.black ≠ [] := by
  obtain ⟨m₁, hm₁, hrun⟩ := hp
  obtain rfl : m' = m₁ := Except.ok.inj (h.symm.trans hm₁)
  clear h hm₁
  induction hrun with
  | refl =>
    intro r hr
    rw [hr₀] at hr
    cases hr
  | tail _ hst ih =>
    obtain ⟨i, j, c, d, hpair, -, -, hmay⟩ := hst
    intro r hr
    rw [hpair.lobby] at hr
    rcases List.mem_append.1 hr with hr | hr
    · exact ih r hr
    · rw [List.mem_singleton.1 hr]
      exact hmay.fst

/-- Two clients without a name are put into a game. -/
theorem unnamed_clients_paired : ∃ s, Server.Reachable 10 5 3 s ∧
    ¬ s.mngClient.PairsLobbyOnly := by
  have hrun : (server.replay (fun _ _ => True) (create 10 5 3) unnamedReady).any
      (fun s => decide (s.mngClient.lobby.games.length = 0) &&
        s.mngClient.moveReadyClientsToPlay.toOption.any fun m =>
          m.lobby.games.any fun r => decide (r.black = [])) = true := by
    decide +kernel
  obtain ⟨s, hs, ht⟩ := exists_reachable hrun
  rw [Bool.and_eq_true, decide_eq_true_eq, List.length_eq_zero_iff] at ht
  obtain ⟨hgames, ht⟩ := ht
  obtain ⟨m', hm', ht⟩ := of_toOption_any ht
  obtain ⟨r, hr, hblack⟩ := List.any_eq_true.1 ht
  exact ⟨s, hs, fun hp => black_ne_nil hgames hm' hp r hr (of_decide_eq_true hblack)⟩

end Server

end HnefServer
