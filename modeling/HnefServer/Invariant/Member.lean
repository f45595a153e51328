import HnefServer.Invariant.Client
import HnefServer.Seating.Basic

/-!
# Players and rooms

`Hall` is what the requests work on: the clients and the lobby.  `Hall.Member` says that the two
agree: the seating plan read off the nicks and the room ids (`Hall.seating`) is arranged, and
every client is in the states its room and its name demand (`Client.Ok`).  `Hall.Change` has the
changes an orderly run makes; they keep `Member` (`Hall.Member.change`), and each is a sequence of
changes of the seating plan (`Hall.Change.seating`).
-/

namespace HnefServer

/-- What the requests work on. -/
structure Hall where
  clients : List Client
  lobby : Lobby

def ClientManager.hall (m : ClientManager) : Hall := ⟨m.clients, m.lobby⟩

def Server.hall (s : Server) : Hall := s.mngClient.hall

/-- What a client is told does not matter to them. -/
@[simp] theorem ClientManager.hall_sendToClient (m : ClientManager) (i : ℕ) (msg : Text) :
    (m.sendToClient i msg).hall = m.hall := rfl

namespace Hall

open Client

/-- The client with nick `n` is in the room with id `x`. -/
def Sits (cs : List Client) (n : Text) (x : ℕ) : Prop :=
  n ≠ [] ∧ ∃ c ∈ cs, c.nick = n ∧ c.roomId = x

/-- The room with a given id lists two nicks. -/
def Pairs (games : List RoomHnefatafl) (id : ℕ) (a b : Text) : Prop :=
  ∃ r ∈ games, r.roomId = id ∧ r.onTurn = a ∧ r.onStand = b

/-- The seating plan of the named clients. -/
def seating (h : Hall) : Seating Text := ⟨Sits h.clients, Pairs h.lobby.games⟩

/-- The colours of a room are those of its two players. -/
def Coloured (r : RoomHnefatafl) : Prop :=
  r.black = r.onTurn ∧ r.white = r.onStand ∨ r.black = r.onStand ∧ r.white = r.onTurn

/-- The clients and the rooms agree. -/
structure Member (h : Hall) : Prop where
  ok : ∀ c ∈ h.clients, c.Ok
  names : DistinctKeys nickKey h.clients
  ids : DistinctKeys (fun r : RoomHnefatafl => some r.roomId) h.lobby.games
  bound : ∀ r ∈ h.lobby.games, r.roomId ≤ h.lobby.roomsTotal
  arranged : h.seating.Arranged
  colours : ∀ r ∈ h.lobby.games, Coloured r

/-! ### Where the clients sit -/

section Sits

variable {cs : List Client} {i j : ℕ} {c d : Client} {f g : Client → Client} {n : Text} {x : ℕ}

theorem eq_of_nick (hnames : DistinctKeys nickKey cs) (hi : cs[i]? = some c) (hj : cs[j]? = some d)
    (hn : c.nick = d.nick) (hne : c.nick ≠ []) : i = j :=
  hnames i j c d c.nick hi hj (nickKey_eq_some.2 ⟨rfl, hne⟩) (nickKey_eq_some.2 ⟨hn.symm, hn ▸ hne⟩)

/-- The seats of the clients other than the one at `i`. -/
theorem sits_others_iff (hnames : DistinctKeys nickKey cs) (hc : cs[i]? = some c) (hne : n ≠ []) :
    (∃ j d, j ≠ i ∧ cs[j]? = some d ∧ d.nick = n ∧ d.roomId = x) ↔ n ≠ c.nick ∧ Sits cs n x := by
  constructor
  · rintro ⟨j, d, hji, hd, rfl, rfl⟩
    exact ⟨fun hn => hji (eq_of_nick hnames hd hc hn hne), hne, d, List.mem_of_getElem? hd, rfl,
      rfl⟩
  · rintro ⟨hn, -, d, hd, rfl, rfl⟩
    obtain ⟨j, hj⟩ := List.mem_iff_getElem?.1 hd
    refine ⟨j, d, ?_, hj, rfl, rfl⟩
    rintro rfl
    exact hn (congrArg Client.nick (Option.some.inj (hj.symm.trans hc)))

theorem sits_modify_iff (hnames : DistinctKeys nickKey cs) (hc : cs[i]? = some c) :
    Sits (cs.modify i f) n x ↔
      (n ≠ [] ∧ (f c).nick = n ∧ (f c).roomId = x) ∨ n ≠ c.nick ∧ Sits cs n x := by
  by_cases hne : n = []
  · simp [Sits, hne]
  rw [← sits_others_iff hnames hc hne]
  constructor
  · rintro ⟨-, d, hd, hn, hx⟩
    rcases mem_modify hd with ⟨j, hji, hj⟩ | ⟨a, ha, rfl⟩
    · exact Or.inr ⟨j, d, hji, hj, hn, hx⟩
    · obtain rfl : c = a := Option.some.inj (hc.symm.trans ha)
      exact Or.inl ⟨hne, hn, hx⟩
  · rintro (⟨-, hn, hx⟩ | ⟨j, d, hji, hj, hn, hx⟩)
    · exact ⟨hne, f c, List.mem_of_getElem? (by rw [List.getElem?_modify_eq, hc]; rfl), hn, hx⟩
    · refine ⟨hne, d, List.mem_of_getElem? (i := j) ?_, hn, hx⟩
      rw [List.getElem?_modify_ne _ _ (Ne.symm hji), hj]

/-- A client that keeps its nick and its room. -/
theorem sits_modify_same (hc : cs[i]? = some c) (hn : (f c).nick = c.nick)
    (hroom : (f c).roomId = c.roomId) : Sits (cs.modify i f) = Sits cs := by
  have hmap : (cs.modify i f).map (fun c => (c.nick, c.roomId)) =
      cs.map fun c => (c.nick, c.roomId) := by
    refine List.ext_getElem? fun k => ?_
    rw [List.getElem?_map, List.getElem?_map, List.getElem?_modify]
    by_cases hik : i = k
    · subst hik
      simp [hc, hn, hroom]
    · simp [hik]
  have hmem : ∀ (cs : List Client) n x,
      Sits cs n x ↔ n ≠ [] ∧ (n, x) ∈ cs.map fun c => (c.nick, c.roomId) := by
    intro cs n x
    simp [Sits, and_comm]
  funext n x
  rw [eq_iff_iff, hmem, hmem, hmap]

theorem sits_eraseIdx_iff (hnames : DistinctKeys nickKey cs) (hc : cs[i]? = some c) :
    Sits (cs.eraseIdx i) n x ↔ n ≠ c.nick ∧ Sits cs n x := by
  by_cases hne : n = []
  · simp [Sits, hne]
  rw [← sits_others_iff hnames hc hne]
  constructor
  · rintro ⟨-, d, hd, hn, hx⟩
    rw [List.mem_eraseIdx_iff_getElem?] at hd
    obtain ⟨j, hji, hj⟩ := hd
    exact ⟨j, d, hji, hj, hn, hx⟩
  · rintro ⟨j, d, hji, hj, hn, hx⟩
    exact ⟨hne, d, List.mem_eraseIdx_iff_getElem?.2 ⟨j, hji, hj⟩, hn, hx⟩

theorem names_modify (hnames : DistinctKeys nickKey cs) (hc : cs[i]? = some c)
    (hn : (f c).nick = c.nick) : DistinctKeys nickKey (cs.modify i f) := by
  refine hnames.modify fun a ha k hk => Or.inl ?_
  obtain rfl : c = a := Option.some.inj (hc.symm.trans ha)
  rw [nickKey_eq_some] at hk ⊢
  exact ⟨hn ▸ hk.1, hk.2⟩

end Sits

/-! ### The changes of an orderly run -/

/-- `c'` is the client `c` in the room `id`. -/
structure Seated (c c' : Client) (id : ℕ) : Prop where
  ok : c'.Ok
  nick : c'.nick = c.nick
  room : c'.roomId = id

/-- The room `r'` has the players of `r`. -/
structure SameRoom (r r' : RoomHnefatafl) : Prop where
  id : r'.roomId = r.roomId
  black : r'.black = r.black
  white : r'.white = r.white

/-- The changes of an orderly run; under `strict` the turn changes with a move only. -/
inductive Change (strict : Bool) : Hall → Hall → Prop
  /-- A client changes where it is. -/
  | client (h : Hall) (i : ℕ) (c : Client) (f : Client → Client) (hc : h.clients[i]? = some c)
      (hf : Seated c (f c) c.roomId)
      (hrole : strict = true → c.roomId ≠ 0 → (f c).logical = c.logical) :
      Change strict h ⟨h.clients.modify i f, h.lobby⟩
  /-- A client in the lobby gets a nick that is free. -/
  | name (h : Hall) (i : ℕ) (c : Client) (f : Client → Client) (hc : h.clients[i]? = some c)
      (hroom : c.roomId = 0) (hok : (f c).Ok) (hroom' : (f c).roomId = 0) (hne : (f c).nick ≠ [])
      (hfree : ∀ d ∈ h.clients, d.nick ≠ (f c).nick) :
      Change strict h ⟨h.clients.modify i f, h.lobby⟩
  /-- A client in the lobby gets the nick, the room and the logical state of another, which loses
  its nick. -/
  | transfer (h : Hall) (i j : ℕ) (c d : Client) (f g : Client → Client)
      (hc : h.clients[i]? = some c) (hd : h.clients[j]? = some d) (hij : i ≠ j)
      (hroom : c.roomId = 0) (hne : d.nick ≠ []) (hok : (f c).Ok) (hn : (f c).nick = d.nick)
      (hx : (f c).roomId = d.roomId) (hlog : (f c).logical = d.logical)
      (hg : (g d).Ok) (hgn : (g d).nick = []) :
      Change strict h ⟨(h.clients.modify i f).modify j g, h.lobby⟩
  /-- A client without a name, or in the lobby, is erased. -/
  | drop (h : Hall) (i : ℕ) (c : Client) (hc : h.clients[i]? = some c)
      (hroom : c.nick = [] ∨ c.roomId = 0) : Change strict h ⟨h.clients.eraseIdx i, h.lobby⟩
  /-- A connection is accepted. -/
  | join (h : Hall) (ip : Text) (fd : ℤ) (hfd : 0 < fd) :
      Change strict h ⟨h.clients ++ [Client.create ip fd], h.lobby⟩
  /-- Two clients in the lobby start to play. -/
  | start (h : Hall) (i j : ℕ) (c d : Client) (f g : Client → Client)
      (hc : h.clients[i]? = some c) (hd : h.clients[j]? = some d) (hij : i ≠ j)
      (hcroom : c.roomId = 0) (hdroom : d.roomId = 0) (hcn : c.nick ≠ []) (hdn : d.nick ≠ [])
      (hf : Seated c (f c) (h.lobby.roomsTotal + 1)) (hg : Seated d (g d) (h.lobby.roomsTotal + 1))
      (hflog : (f c).logical = .playingOnTurn) (hglog : (g d).logical = .playingOnStand) :
      Change strict h ⟨(h.clients.modify i f).modify j g, (h.lobby.createRoom c.nick d.nick).1⟩
  /-- A move is rejected. -/
  | reject (h : Hall) (k : ℕ) (r r' : RoomHnefatafl) (hr : h.lobby.games[k]? = some r)
      (hr' : SameRoom r r') (hturn : r'.onTurn = r.onTurn) (hstand : r'.onStand = r.onStand) :
      Change strict h ⟨h.clients, { h.lobby with games := h.lobby.games.set k r' }⟩
  /-- A move is made: the turn passes. -/
  | turn (h : Hall) (k i j : ℕ) (r r' : RoomHnefatafl) (c d : Client) (f g : Client → Client)
      (hr : h.lobby.games[k]? = some r) (hr' : SameRoom r r') (hturn : r'.onTurn = r.onStand)
      (hstand : r'.onStand = r.onTurn) (hc : h.clients[i]? = some c) (hd : h.clients[j]? = some d)
      (hij : i ≠ j) (hcn : c.nick = r'.onTurn) (hdn : d.nick = r'.onStand)
      (hf : Seated c (f c) c.roomId) (hg : Seated d (g d) d.roomId)
      (hflog : (f c).logical = .playingOnTurn) (hglog : (g d).logical = .playingOnStand) :
      Change strict h
        ⟨(h.clients.modify i f).modify j g, { h.lobby with games := h.lobby.games.set k r' }⟩
  /-- A game ends, and its players are in the lobby. -/
  | finish (h : Hall) (k i j : ℕ) (r : RoomHnefatafl) (c d : Client) (f g : Client → Client)
      (hr : h.lobby.games[k]? = some r) (hc : h.clients[i]? = some c) (hd : h.clients[j]? = some d)
      (hij : i ≠ j)
      (hn : c.nick = r.onTurn ∧ d.nick = r.onStand ∨ c.nick = r.onStand ∧ d.nick = r.onTurn)
      (hf : Seated c (f c) 0) (hg : Seated d (g d) 0) :
      Change strict h ⟨(h.clients.modify i f).modify j g,
        { h.lobby with games := h.lobby.games.eraseIdx k }⟩

section Change

variable {strict : Bool} {h h' : Hall} {i j : ℕ} {c d : Client} {f g : Client → Client} {n : Text}
  {x : ℕ}

/-- Two clients who keep their nicks are moved to the room `x`. -/
theorem sits_modify₂_iff (hm : h.Member) (hc : h.clients[i]? = some c)
    (hd : h.clients[j]? = some d) (hij : i ≠ j) (hcn : c.nick ≠ []) (hdn : d.nick ≠ [])
    (hf : Seated c (f c) x) (hg : Seated d (g d) x) {y : ℕ} :
    Sits ((h.clients.modify i f).modify j g) n y ↔
      (n = c.nick ∨ n = d.nick) ∧ y = x ∨ n ≠ c.nick ∧ n ≠ d.nick ∧ Sits h.clients n y := by
  have hnames := names_modify hm.names hc hf.nick
  have hd' : (h.clients.modify i f)[j]? = some d := by rw [List.getElem?_modify_ne _ _ hij, hd]
  have hcd : c.nick ≠ d.nick := fun hn => hij (eq_of_nick hm.names hc hd hn hcn)
  rw [sits_modify_iff hnames hd', sits_modify_iff hm.names hc, hf.nick, hf.room, hg.nick, hg.room]
  constructor
  · rintro (⟨-, rfl, rfl⟩ | ⟨hnd, ⟨-, rfl, rfl⟩ | ⟨hnc, hn⟩⟩)
    · exact Or.inl ⟨Or.inr rfl, rfl⟩
    · exact Or.inl ⟨Or.inl rfl, rfl⟩
    · exact Or.inr ⟨hnc, hnd, hn⟩
  · rintro (⟨rfl | rfl, rfl⟩ | ⟨hnc, hnd, hn⟩)
    · exact Or.inr ⟨hcd, Or.inl ⟨hcn, rfl, rfl⟩⟩
    · exact Or.inl ⟨hdn, rfl, rfl⟩
    · exact Or.inr ⟨hnd, Or.inr ⟨hnc, hn⟩⟩

/-- The rooms other than the one at `k`. -/
theorem pairs_others_iff (hm : h.Member) {k : ℕ} {r : RoomHnefatafl}
    (hr : h.lobby.games[k]? = some r) {id : ℕ} {a b : Text} :
    (∃ m r', m ≠ k ∧ h.lobby.games[m]? = some r' ∧ r'.roomId = id ∧ r'.onTurn = a ∧
      r'.onStand = b) ↔ id ≠ r.roomId ∧ Pairs h.lobby.games id a b := by
  constructor
  · rintro ⟨m, r', hmk, hr', rfl, rfl, rfl⟩
    exact ⟨fun hid => hmk (hm.ids m k r' r r.roomId hr' hr (congrArg some hid) rfl),
      r', List.mem_of_getElem? hr', rfl, rfl, rfl⟩
  · rintro ⟨hid, r', hr', rfl, rfl, rfl⟩
    obtain ⟨m, hm'⟩ := List.mem_iff_getElem?.1 hr'
    refine ⟨m, r', ?_, hm', rfl, rfl, rfl⟩
    rintro rfl
    exact hid (congrArg RoomHnefatafl.roomId (Option.some.inj (hm'.symm.trans hr)))

theorem pairs_set_iff (hm : h.Member) {k : ℕ} {r r' : RoomHnefatafl}
    (hr : h.lobby.games[k]? = some r) (hid : r'.roomId = r.roomId) {id : ℕ} {a b : Text} :
    Pairs (h.lobby.games.set k r') id a b ↔
      id = r.roomId ∧ r'.onTurn = a ∧ r'.onStand = b ∨
        id ≠ r.roomId ∧ Pairs h.lobby.games id a b := by
  rw [← pairs_others_iff hm hr]
  have hk := (List.getElem?_eq_some_iff.1 hr).1
  constructor
  · rintro ⟨x, hx, rfl, rfl, rfl⟩
    rcases (mem_set hk).1 hx with rfl | ⟨m, hmk, hx⟩
    · exact Or.inl ⟨hid, rfl, rfl⟩
    · exact Or.inr ⟨m, x, hmk, hx, rfl, rfl, rfl⟩
  · rintro (⟨rfl, rfl, rfl⟩ | ⟨m, x, hmk, hx, rfl, rfl, rfl⟩)
    · exact ⟨r', (mem_set hk).2 (Or.inl rfl), hid, rfl, rfl⟩
    · exact ⟨x, (mem_set hk).2 (Or.inr ⟨m, hmk, hx⟩), rfl, rfl, rfl⟩

/-- What a room lists. -/
theorem pairs_self_iff (hm : h.Member) {k : ℕ} {r : RoomHnefatafl}
    (hr : h.lobby.games[k]? = some r) {a b : Text} :
    Pairs h.lobby.games r.roomId a b ↔ r.onTurn = a ∧ r.onStand = b := by
  constructor
  · rintro ⟨r', hr', hid, rfl, rfl⟩
    obtain rfl := hm.ids.eq_of_mem hr' (List.mem_of_getElem? hr) rfl (congrArg some hid.symm)
    exact ⟨rfl, rfl⟩
  · rintro ⟨rfl, rfl⟩
    exact ⟨r, List.mem_of_getElem? hr, rfl, rfl, rfl⟩

theorem pairs_eraseIdx_iff (hm : h.Member) {k : ℕ} {r : RoomHnefatafl}
    (hr : h.lobby.games[k]? = some r) {id : ℕ} {a b : Text} :
    Pairs (h.lobby.games.eraseIdx k) id a b ↔ id ≠ r.roomId ∧ Pairs h.lobby.games id a b := by
  rw [← pairs_others_iff hm hr]
  constructor
  · rintro ⟨x, hx, hid, ha, hb⟩
    obtain ⟨m, hmk, hx⟩ := List.mem_eraseIdx_iff_getElem?.1 hx
    exact ⟨m, x, hmk, hx, hid, ha, hb⟩
  · rintro ⟨m, x, hmk, hx, hid, ha, hb⟩
    exact ⟨x, List.mem_eraseIdx_iff_getElem?.2 ⟨m, hmk, hx⟩, hid, ha, hb⟩

theorem pairs_createRoom_iff {l : Lobby} {id : ℕ} {a b a' b' : Text} :
    Pairs (l.createRoom a b).1.games id a' b' ↔
      id = l.roomsTotal + 1 ∧ a' = a ∧ b' = b ∨ Pairs l.games id a' b' := by
  simp only [Pairs, Lobby.createRoom, List.mem_append, List.mem_singleton]
  constructor
  · rintro ⟨r, hr | rfl, rfl, rfl, rfl⟩
    · exact Or.inr ⟨r, hr, rfl, rfl, rfl⟩
    · exact Or.inl ⟨rfl, rfl, rfl⟩
  · rintro (⟨rfl, rfl, rfl⟩ | ⟨r, hr, rfl, rfl, rfl⟩)
    · exact ⟨_, Or.inr rfl, rfl, rfl, rfl⟩
    · exact ⟨r, Or.inl hr, rfl, rfl, rfl⟩

theorem sits_of_client (hc : h.clients[i]? = some c) (hn : c.nick ≠ []) :
    h.seating.sits c.nick c.roomId := ⟨hn, c, List.mem_of_getElem? hc, rfl, rfl⟩

/-! ### The seating plan after a change -/

/-- A client keeps its nick and its room. -/
theorem seating_client (hc : h.clients[i]? = some c) (hn : (f c).nick = c.nick)
    (hroom : (f c).roomId = c.roomId) :
    Hall.seating ⟨h.clients.modify i f, h.lobby⟩ = h.seating := by
  simp only [Hall.seating, sits_modify_same hc hn hroom]

/-- A client gets a nick, in the lobby. -/
theorem seating_name (hm : h.Member) (hc : h.clients[i]? = some c) (hroom : (f c).roomId = 0)
    (hne : (f c).nick ≠ []) : Hall.seating ⟨h.clients.modify i f, h.lobby⟩ =
      (h.seating.leave c.nick).enter (f c).nick := by
  ext n x
  · change Sits (h.clients.modify i f) n x ↔ _
    rw [sits_modify_iff hm.names hc, hroom]
    constructor
    · rintro (⟨-, rfl, rfl⟩ | hn)
      · exact Or.inl ⟨rfl, rfl⟩
      · exact Or.inr hn
    · rintro (⟨rfl, rfl⟩ | hn)
      · exact Or.inl ⟨hne, rfl, rfl⟩
      · exact Or.inr hn
  · rfl

/-- A client gets the nick and the room of another, which loses its nick: the plan forgets the
nick it had before. -/
theorem seating_transfer (hm : h.Member) (hc : h.clients[i]? = some c)
    (hd : h.clients[j]? = some d) (hij : i ≠ j) (hne : d.nick ≠ []) (hn : (f c).nick = d.nick)
    (hx : (f c).roomId = d.roomId) (hgn : (g d).nick = []) :
    Hall.seating ⟨(h.clients.modify i f).modify j g, h.lobby⟩ = h.seating.leave c.nick := by
  have hnames : DistinctKeys nickKey (h.clients.modify j g) :=
    hm.names.modify fun a ha k hk => by
      obtain rfl : d = a := Option.some.inj (hd.symm.trans ha)
      rw [nickKey_eq_some] at hk
      exact absurd (hk.1.symm.trans hgn) hk.2
  have hc' : (h.clients.modify j g)[i]? = some c := by
    rw [List.getElem?_modify_ne _ _ (Ne.symm hij), hc]
  have hcd : d.nick ≠ c.nick := fun hn => hij (eq_of_nick hm.names hd hc hn hne).symm
  ext n x
  · change Sits ((h.clients.modify i f).modify j g) n x ↔ n ≠ c.nick ∧ Sits h.clients n x
    rw [modify_comm f g hij, sits_modify_iff hnames hc', sits_modify_iff hm.names hd, hn, hx, hgn]
    constructor
    · rintro (⟨-, rfl, rfl⟩ | ⟨hnc, ⟨hnil, rfl, -⟩ | ⟨-, hs⟩⟩)
      · exact ⟨hcd, sits_of_client hd hne⟩
      · exact absurd rfl hnil
      · exact ⟨hnc, hs⟩
    · rintro ⟨hnc, hs⟩
      by_cases hnd : n = d.nick
      · subst hnd
        have hroom := hm.arranged.sits_unique (sits_of_client hd hne) hs
        exact Or.inl ⟨hne, rfl, hroom⟩
      · exact Or.inr ⟨hnc, Or.inr ⟨hnd, hs⟩⟩
  · rfl

/-- A client is erased. -/
theorem seating_drop (hm : h.Member) (hc : h.clients[i]? = some c) :
    Hall.seating ⟨h.clients.eraseIdx i, h.lobby⟩ = h.seating.leave c.nick := by
  ext n x
  · exact sits_eraseIdx_iff hm.names hc
  · rfl

/-- A new client has no nick. -/
theorem seating_join {ip : Text} {fd : ℤ} :
    Hall.seating ⟨h.clients ++ [Client.create ip fd], h.lobby⟩ = h.seating := by
  ext n x
  · change Sits (h.clients ++ [Client.create ip fd]) n x ↔ Sits h.clients n x
    constructor
    · rintro ⟨hne, d, hd, hn, hx⟩
      rcases List.mem_append.1 hd with hd | hd
      · exact ⟨hne, d, hd, hn, hx⟩
      · rw [List.mem_singleton.1 hd] at hn
        exact absurd hn.symm hne
    · rintro ⟨hne, d, hd, hn, hx⟩
      exact ⟨hne, d, List.mem_append_left _ hd, hn, hx⟩
  · rfl

/-- Two clients are moved to a new room. -/
theorem seating_start (hm : h.Member) (hc : h.clients[i]? = some c) (hd : h.clients[j]? = some d)
    (hij : i ≠ j) (hcn : c.nick ≠ []) (hdn : d.nick ≠ [])
    (hf : Seated c (f c) (h.lobby.roomsTotal + 1)) (hg : Seated d (g d) (h.lobby.roomsTotal + 1)) :
    Hall.seating ⟨(h.clients.modify i f).modify j g, (h.lobby.createRoom c.nick d.nick).1⟩ =
      h.seating.sitDown (h.lobby.roomsTotal + 1) c.nick d.nick := by
  ext n x y
  · exact sits_modify₂_iff hm hc hd hij hcn hdn hf hg
  · exact pairs_createRoom_iff

/-- A room lists the same players in the same order. -/
theorem seating_reject (hm : h.Member) {k : ℕ} {r r' : RoomHnefatafl}
    (hr : h.lobby.games[k]? = some r) (hid : r'.roomId = r.roomId) (hturn : r'.onTurn = r.onTurn)
    (hstand : r'.onStand = r.onStand) :
    Hall.seating ⟨h.clients, { h.lobby with games := h.lobby.games.set k r' }⟩ = h.seating := by
  ext n x y
  · rfl
  · change Pairs (h.lobby.games.set k r') n x y ↔ Pairs h.lobby.games n x y
    rw [pairs_set_iff hm hr hid, hturn, hstand]
    constructor
    · rintro (⟨rfl, hab⟩ | ⟨-, hp⟩)
      · exact (pairs_self_iff hm hr).2 hab
      · exact hp
    · intro hp
      by_cases hn : n = r.roomId
      · subst hn
        exact Or.inl ⟨rfl, (pairs_self_iff hm hr).1 hp⟩
      · exact Or.inr ⟨hn, hp⟩

/-- A room lists the same players in the other order. -/
theorem seating_turn (hm : h.Member) {k : ℕ} {r r' : RoomHnefatafl}
    (hr : h.lobby.games[k]? = some r) (hid : r'.roomId = r.roomId) (hturn : r'.onTurn = r.onStand)
    (hstand : r'.onStand = r.onTurn) (hc : h.clients[i]? = some c) (hd : h.clients[j]? = some d)
    (hij : i ≠ j) (hf : Seated c (f c) c.roomId) (hg : Seated d (g d) d.roomId) :
    Hall.seating ⟨(h.clients.modify i f).modify j g,
      { h.lobby with games := h.lobby.games.set k r' }⟩ = h.seating.swap r.roomId := by
  have hd' : (h.clients.modify i f)[j]? = some d := by rw [List.getElem?_modify_ne _ _ hij, hd]
  ext n x y
  · change Sits ((h.clients.modify i f).modify j g) n x ↔ Sits h.clients n x
    rw [sits_modify_same hd' hg.nick hg.room, sits_modify_same hc hf.nick hf.room]
  · change Pairs (h.lobby.games.set k r') n x y ↔ _
    rw [pairs_set_iff hm hr hid, hturn, hstand]
    constructor
    · rintro (⟨rfl, hab⟩ | hp)
      · exact Or.inl ⟨rfl, (pairs_self_iff hm hr).2 hab.symm⟩
      · exact Or.inr hp
    · rintro (⟨rfl, hp⟩ | hp)
      · exact Or.inl ⟨rfl, ((pairs_self_iff hm hr).1 hp).symm⟩
      · exact Or.inr hp

/-- The players of a room are moved to the lobby, and the room is gone. -/
theorem seating_finish (hm : h.Member) {k : ℕ} {r : RoomHnefatafl}
    (hr : h.lobby.games[k]? = some r) (hc : h.clients[i]? = some c) (hd : h.clients[j]? = some d)
    (hij : i ≠ j) (hcn : c.nick ≠ []) (hdn : d.nick ≠ []) (hf : Seated c (f c) 0)
    (hg : Seated d (g d) 0) : Hall.seating ⟨(h.clients.modify i f).modify j g,
      { h.lobby with games := h.lobby.games.eraseIdx k }⟩ =
        h.seating.getUp r.roomId c.nick d.nick := by
  ext n x y
  · exact sits_modify₂_iff hm hc hd hij hcn hdn hf hg
  · exact pairs_eraseIdx_iff hm hr

/-- Erasing, or renaming, a client in the lobby: its name leaves the plan, if it has one. -/
theorem steps_leave (hc : h.clients[i]? = some c)
    (hroom : c.nick = [] ∨ c.roomId = 0) :
    Seating.Steps h.seating (h.seating.leave c.nick) := by
  by_cases hn : c.nick = []
  · have hsame : h.seating.leave c.nick = h.seating := by
      ext n x
      · exact ⟨fun hx => hx.2, fun hx => ⟨fun hnc => hx.1 (hnc.trans hn), hx⟩⟩
      · rfl
    rw [hsame]
    exact Relation.ReflTransGen.refl
  · exact Relation.ReflTransGen.single (.leave _ _ (hroom.resolve_left hn ▸ sits_of_client hc hn))

/-- **Every change of an orderly run is a sequence of changes of the seating plan.** -/
theorem Change.seating (hm : h.Member) (hst : Change strict h h') :
    Seating.Steps h.seating h'.seating := by
  cases hst with
  | client i c f hc hf hrole =>
    rw [seating_client hc hf.nick hf.room]
    exact Relation.ReflTransGen.refl
  | name i c f hc hroom hok hroom' hne hfree =>
    rw [seating_name hm hc hroom' hne]
    refine (steps_leave hc (Or.inr hroom)).tail (.enter _ _ fun x hx => ?_)
    obtain ⟨-, -, d, hd, hn, -⟩ := hx
    exact hfree d hd hn
  | transfer i j c d f g hc hd hij hroom hne hok hn hx hlog hg hgn =>
    rw [seating_transfer hm hc hd hij hne hn hx hgn]
    exact steps_leave hc (Or.inr hroom)
  | drop i c hc hroom =>
    rw [seating_drop hm hc]
    exact steps_leave hc hroom
  | join ip fd hfd =>
    rw [seating_join]
    exact Relation.ReflTransGen.refl
  | start i j c d f g hc hd hij hcroom hdroom hcn hdn hf hg hflog hglog =>
    rw [seating_start hm hc hd hij hcn hdn hf hg]
    refine Relation.ReflTransGen.single (.sitDown _ _ _ _ (Nat.succ_ne_zero _) ?_ ?_
      (hcroom ▸ sits_of_client hc hcn) (hdroom ▸ sits_of_client hd hdn))
    · rintro a b ⟨r, hr, hid, -⟩
      have := hm.bound r hr
      omega
    · exact fun hn => hij (eq_of_nick hm.names hc hd hn hcn)
  | reject k r r' hr hr' hturn hstand =>
    rw [seating_reject hm hr hr'.id hturn hstand]
    exact Relation.ReflTransGen.refl
  | turn k i j r r' c d f g hr hr' hturn hstand hc hd hij hcn hdn hf hg hflog hglog =>
    rw [seating_turn hm hr hr'.id hturn hstand hc hd hij hf hg]
    exact Relation.ReflTransGen.single (.swap _ _)
  | finish k i j r c d f g hr hc hd hij hn hf hg =>
    have hpair : h.seating.pair r.roomId c.nick d.nick ∨ h.seating.pair r.roomId d.nick c.nick :=
      hn.imp (fun hn => (pairs_self_iff hm hr).2 ⟨hn.1.symm, hn.2.symm⟩)
        fun hn => (pairs_self_iff hm hr).2 ⟨hn.2.symm, hn.1.symm⟩
    have hne : c.nick ≠ [] ∧ d.nick ≠ [] := by
      rcases hpair with hp | hp
      · exact ⟨(hm.arranged.seated hp).1.1, (hm.arranged.seated hp).2.1⟩
      · exact ⟨(hm.arranged.seated hp).2.1, (hm.arranged.seated hp).1.1⟩
    rw [seating_finish hm hr hc hd hij hne.1 hne.2 hf hg]
    exact Relation.ReflTransGen.single (.getUp _ _ _ _ hpair)

/-! ### What the changes keep -/

theorem names_modify₂ (hm : h.Member) (hc : h.clients[i]? = some c) (hd : h.clients[j]? = some d)
    (hij : i ≠ j) (hf : (f c).nick = c.nick) (hg : (g d).nick = d.nick) :
    DistinctKeys nickKey ((h.clients.modify i f).modify j g) :=
  names_modify (names_modify hm.names hc hf) ((List.getElem?_modify_ne _ _ hij).trans hd) hg

/-- The rooms after one of them was replaced. -/
theorem rooms_set (hm : h.Member) {k : ℕ} {r r' : RoomHnefatafl} (hr : h.lobby.games[k]? = some r)
    (hid : r'.roomId = r.roomId) (hcol : Coloured r') {x : RoomHnefatafl}
    (hx : x ∈ h.lobby.games.set k r') : x.roomId ≤ h.lobby.roomsTotal ∧ Coloured x := by
  rcases List.mem_or_eq_of_mem_set hx with hx | rfl
  · exact ⟨hm.bound x hx, hm.colours x hx⟩
  · exact ⟨hid ▸ hm.bound r (List.mem_of_getElem? hr), hcol⟩

/-- **Every change of an orderly run keeps the clients and the rooms in agreement.** -/
theorem Member.change (hm : h.Member) (hst : Change strict h h') : h'.Member := by
  have harr := hm.arranged.steps (hst.seating hm)
  cases hst with
  | client i c f hc hf hrole =>
    exact ⟨forall_modify hm.ok hc hf.ok, names_modify hm.names hc hf.nick, hm.ids, hm.bound, harr,
      hm.colours⟩
  | name i c f hc hroom hok hroom' hne hfree =>
    refine ⟨forall_modify hm.ok hc hok, hm.names.modify fun a ha k hk => Or.inr ?_, hm.ids,
      hm.bound, harr, hm.colours⟩
    obtain rfl : c = a := Option.some.inj (hc.symm.trans ha)
    intro m b _ hb hkey
    rw [nickKey_eq_some] at hk hkey
    exact hfree b (List.mem_of_getElem? hb) (hkey.1.trans hk.1.symm)
  | transfer i j c d f g hc hd hij hroom hne hok hn hx hlog hg hgn =>
    refine ⟨forall_modify₂ hm.ok hc hd hij hok hg,
      hm.names.steal hd (fun a ha => ?_) fun a ha => ?_, hm.ids, hm.bound, harr, hm.colours⟩
    · obtain rfl : c = a := Option.some.inj (hc.symm.trans ha)
      rw [nickKey, nickKey, hn]
    · rw [List.getElem?_modify_ne _ _ hij] at ha
      obtain rfl : d = a := Option.some.inj (hd.symm.trans ha)
      exact if_pos hgn
  | drop i c hc hroom =>
    exact ⟨fun e he => hm.ok e (List.mem_of_mem_eraseIdx he), hm.names.eraseIdx i, hm.ids, hm.bound,
      harr, hm.colours⟩
  | join ip fd hfd =>
    refine ⟨fun e he => ?_, hm.names.concat fun b _ k hk => ?_, hm.ids, hm.bound, harr, hm.colours⟩
    · rcases List.mem_append.1 he with he | he
      · exact hm.ok e he
      · rw [List.mem_singleton.1 he]
        exact .create hfd
    · have hnone : nickKey (Client.create ip fd) = none := rfl
      rw [hnone] at hk
      cases hk
  | start i j c d f g hc hd hij hcroom hdroom hcn hdn hf hg hflog hglog =>
    refine ⟨forall_modify₂ hm.ok hc hd hij hf.ok hg.ok, names_modify₂ hm hc hd hij hf.nick hg.nick,
      hm.ids.concat fun r hr k hk hkey => ?_, fun r hr => ?_, harr, fun r hr => ?_⟩
    · have hle := hm.bound r hr
      simp only [Option.some.injEq] at hk hkey
      change h.lobby.roomsTotal + 1 = k at hk
      omega
    · rcases List.mem_append.1 hr with hr | hr
      · exact Nat.le_succ_of_le (hm.bound r hr)
      · rw [List.mem_singleton.1 hr]
        exact le_rfl
    · rcases List.mem_append.1 hr with hr | hr
      · exact hm.colours r hr
      · rw [List.mem_singleton.1 hr]
        exact Or.inl ⟨rfl, rfl⟩
  | reject k r r' hr hr' hturn hstand =>
    have hcol : Coloured r' := by
      have hcol := hm.colours r (List.mem_of_getElem? hr)
      unfold Coloured at hcol ⊢
      rwa [hr'.black, hr'.white, hturn, hstand]
    exact ⟨hm.ok, hm.names, hm.ids.set_of_key_eq hr (congrArg some hr'.id),
      fun x hx => (rooms_set hm hr hr'.id hcol hx).1, harr,
      fun x hx => (rooms_set hm hr hr'.id hcol hx).2⟩
  | turn k i j r r' c d f g hr hr' hturn hstand hc hd hij hcn hdn hf hg hflog hglog =>
    have hcol : Coloured r' := by
      have hcol := hm.colours r (List.mem_of_getElem? hr)
      unfold Coloured at hcol ⊢
      rw [hr'.black, hr'.white, hturn, hstand]
      exact hcol.symm
    exact ⟨forall_modify₂ hm.ok hc hd hij hf.ok hg.ok, names_modify₂ hm hc hd hij hf.nick hg.nick,
      hm.ids.set_of_key_eq hr (congrArg some hr'.id),
      fun x hx => (rooms_set hm hr hr'.id hcol hx).1, harr,
      fun x hx => (rooms_set hm hr hr'.id hcol hx).2⟩
  | finish k i j r c d f g hr hc hd hij hn hf hg =>
    exact ⟨forall_modify₂ hm.ok hc hd hij hf.ok hg.ok, names_modify₂ hm hc hd hij hf.nick hg.nick,
      hm.ids.eraseIdx k, fun x hx => hm.bound x (List.mem_of_mem_eraseIdx hx), harr,
      fun x hx => hm.colours x (List.mem_of_mem_eraseIdx hx)⟩

end Change

end Hall

end HnefServer
