import HnefServer.Network.Effect
import HnefServer.Game.Board
import HnefServer.Data.Distinct

/-!
# The elementary updates of the server

Whatever event the server handles, its clients, rooms and watched descriptors change by a
sequence of a few elementary updates (`World.Upd`): a client changes without changing its nick
or its descriptor, a client gets a nick that is not in use, a client takes the nick of another,
an instance is dropped or created, a connection is closed, a room is created, moved in, or
destroyed.  `server_step_upds` states this once, so that an invariant of all runs has to be
checked for the updates only.
-/

namespace HnefServer

open Protocol

namespace Client

/-- The states that are kept while a client is inaccessible are never states of
inaccessibility, and a Disconnected client has no socket. -/
structure Sound (c : Client) : Prop where
  last : c.stateLast.inaccessible = false
  gone : c.state = .disconnected → c.socketNum < 0

theorem Sound.create {ip : Text} {fd : ℤ} : (Client.create ip fd).Sound := ⟨rfl, nofun⟩

theorem Sound.setState {c : Client} (h : c.Sound) {s : State} (hs : s ≠ .disconnected) :
    (c.setState s).Sound := by
  refine ⟨?_, fun h' => absurd h' hs⟩
  rw [setState_stateLast]
  split_ifs with hi
  · exact h.last
  · simpa using hi

theorem Sound.setStateLast {c : Client} (h : c.Sound) {s : State} (hs : s.inaccessible = false) :
    (c.setStateLast s).Sound := ⟨hs, h.gone⟩

/-- Restoring the kept state. -/
theorem Sound.restore {c : Client} (h : c.Sound) : (c.setState c.stateLast).Sound :=
  h.setState fun h' => by simpa [h', State.inaccessible] using h.last

/-- A change of a client that keeps its nick, its descriptor and its soundness. -/
structure Quiet (f : Client → Client) : Prop where
  nick : ∀ c, (f c).nick = c.nick
  sock : ∀ c, (f c).socketNum = c.socketNum
  sound : ∀ c, c.Sound → (f c).Sound

namespace Quiet

theorem setState {s : State} (hs : s ≠ .disconnected) : Quiet (·.setState s) :=
  ⟨fun _ => rfl, fun _ => rfl, fun _ h => h.setState hs⟩

/-- Starting to play in a room. -/
theorem seat {id : ℕ} {s : State} (hs : s.inaccessible = false) :
    Quiet (ClientManager.seat id s) := by
  refine ⟨fun _ => rfl, fun _ => rfl, fun c h => ?_⟩
  have hroom : (c.setRoomId id).Sound := ⟨h.last, h.gone⟩
  exact hroom.setState fun h' => by simp [h', State.inaccessible] at hs

theorem restore : Quiet fun c => c.setState c.stateLast :=
  ⟨fun _ => rfl, fun _ => rfl, fun _ h => h.restore⟩

theorem setStateLast {s : State} (hs : s.inaccessible = false) : Quiet (·.setStateLast s) :=
  ⟨fun _ => rfl, fun _ => rfl, fun _ h => h.setStateLast hs⟩

theorem ite {p : Client → Prop} [DecidablePred p] {f g : Client → Client} (hf : Quiet f)
    (hg : Quiet g) : Quiet fun c => if p c then f c else g c := by
  refine ⟨fun c => ?_, fun c => ?_, fun c hc => ?_⟩
  all_goals by_cases hp : p c
  all_goals simp only [hp, if_true, if_false]
  · exact hf.nick c
  · exact hg.nick c
  · exact hf.sock c
  · exact hg.sock c
  · exact hf.sound c hc
  · exact hg.sound c hc

theorem id : Quiet fun c => c := ⟨fun _ => rfl, fun _ => rfl, fun _ h => h⟩

theorem toWaiting (s : State) : Quiet (ClientManager.toWaiting s) :=
  ite (setStateLast rfl) (setState (by decide))

theorem setRoomId (id : ℕ) : Quiet (·.setRoomId id) :=
  ⟨fun _ => rfl, fun _ => rfl, fun _ h => ⟨h.last, h.gone⟩⟩

theorem setFlagToDisconnect (b : Bool) : Quiet (·.setFlagToDisconnect b) :=
  ⟨fun _ => rfl, fun _ => rfl, fun _ h => ⟨h.last, h.gone⟩⟩

theorem setFlagToErase (b : Bool) : Quiet (·.setFlagToErase b) :=
  ⟨fun _ => rfl, fun _ => rfl, fun _ h => ⟨h.last, h.gone⟩⟩

theorem decreaseInaccessCount : Quiet (·.decreaseInaccessCount) :=
  ⟨fun _ => rfl, fun _ => rfl, fun _ h => ⟨h.last, h.gone⟩⟩

theorem comp {f g : Client → Client} (hg : Quiet g) (hf : Quiet f) : Quiet fun c => g (f c) :=
  ⟨fun c => (hg.nick _).trans (hf.nick c), fun c => (hg.sock _).trans (hf.sock c),
    fun c h => hg.sound _ (hf.sound c h)⟩

end Quiet

/-- Two lists of clients differ by quiet changes of single clients. -/
def QuietChange : List Client → List Client → Prop :=
  Relation.ReflTransGen fun cs cs' => ∃ i f, Quiet f ∧ cs' = cs.modify i f

namespace QuietChange

theorem refl (cs : List Client) : QuietChange cs cs := Relation.ReflTransGen.refl

theorem modify {cs cs' : List Client} (h : QuietChange cs cs') {f : Client → Client}
    (hf : Quiet f) (i : ℕ) : QuietChange cs (cs'.modify i f) :=
  Relation.ReflTransGen.tail h ⟨i, f, hf, rfl⟩

theorem trans {a b c : List Client} (h₁ : QuietChange a b) (h₂ : QuietChange b c) :
    QuietChange a c :=
  Relation.ReflTransGen.trans h₁ h₂

end QuietChange

end Client

/-- What the server works on, without its logs and counters. -/
structure World where
  clients : List Client
  lobby : Lobby
  sockets : List ℤ

namespace World

/-- All clients are sound. -/
def Sound (w : World) : Prop := ∀ c ∈ w.clients, c.Sound

/-- The client at a position may change to `c'` in an update: a sound client stays sound and
keeps its descriptor. -/
structure Keeps (w : World) (c c' : Client) : Prop where
  sock : c'.socketNum = c.socketNum
  sound : w.Sound → c'.Sound

/-- The elementary updates. -/
inductive Upd : World → World → Prop
  /-- A client changes, but not its nick. -/
  | client (w : World) (i : ℕ) (f : Client → Client)
      (hf : ∀ c, w.clients[i]? = some c → w.Keeps c (f c) ∧ (f c).nick = c.nick) :
      Upd w { w with clients := w.clients.modify i f }
  /-- A client gets a nick that no client has. -/
  | name (w : World) (i : ℕ) (f : Client → Client) (n : Text)
      (hn : ∀ c ∈ w.clients, c.nick ≠ n)
      (hf : ∀ c, w.clients[i]? = some c → w.Keeps c (f c) ∧ (f c).nick = n) :
      Upd w { w with clients := w.clients.modify i f }
  /-- A client gets the nick of the client at `j`, which loses it. -/
  | steal (w : World) (i j : ℕ) (f g : Client → Client) (n : Text)
      (hj : ∃ d, w.clients[j]? = some d ∧ d.nick = n)
      (hf : ∀ c, w.clients[i]? = some c → w.Keeps c (f c) ∧ (f c).nick = n)
      (hg : ∀ c, ((g c).socketNum = c.socketNum ∧ (c.Sound → (g c).Sound)) ∧ (g c).nick = []) :
      Upd w { w with clients := (w.clients.modify i f).modify j g }
  /-- An instance is erased. -/
  | drop (w : World) (i : ℕ) : Upd w { w with clients := w.clients.eraseIdx i }
  /-- A connection is accepted. -/
  | join (w : World) (ip : Text) (fd : ℤ) (hpos : 0 < fd) (hnew : fd ∉ w.sockets) :
      Upd w { w with
        clients := w.clients ++ [Client.create ip fd], sockets := FD_SET fd w.sockets }
  /-- A connection is closed. -/
  | close (w : World) (i : ℕ) (c : Client) (hc : w.clients[i]? = some c)
      (hs : 0 ≤ c.socketNum) :
      Upd w { w with
        clients := w.clients.modify i Server.disconnect,
        sockets := FD_CLR c.socketNum w.sockets }
  /-- A descriptor that no client uses is no longer watched. -/
  | unwatch (w : World) (fd : ℤ) (h : ∀ c ∈ w.clients, c.socketNum ≠ fd) :
      Upd w { w with sockets := FD_CLR fd w.sockets }
  /-- A room is created. -/
  | create (w : World) (a b : Text) : Upd w { w with lobby := (w.lobby.createRoom a b).1 }
  /-- A move is requested in a room that exists, and does not end the game. -/
  | move (w : World) (k : ℕ) (r r' : RoomHnefatafl) (t : Text) (b : Bool)
      (hr : w.lobby.games[k]? = some r) (hm : r.processMove t = .ok (r', b))
      (hs : r'.gameState = .gameover → r.gameState = .gameover ∨ r.roomId = 0) :
      Upd w { w with lobby := { w.lobby with games := w.lobby.games.set k r' } }
  /-- A room is destroyed. -/
  | destroy (w : World) (k : ℕ) :
      Upd w { w with lobby := { w.lobby with games := w.lobby.games.eraseIdx k } }

/-- Sequences of elementary updates. -/
def Upds : World → World → Prop := Relation.ReflTransGen Upd

namespace Upds

theorem refl (w : World) : Upds w w := Relation.ReflTransGen.refl

theorem trans {w₁ w₂ w₃ : World} (h₁ : Upds w₁ w₂) (h₂ : Upds w₂ w₃) : Upds w₁ w₃ :=
  Relation.ReflTransGen.trans h₁ h₂

theorem single {w w' : World} (h : Upd w w') : Upds w w' := Relation.ReflTransGen.single h

/-- A predicate that every elementary update preserves is preserved by a sequence of them. -/
theorem invariant {P : World → Prop} (hP : ∀ w w', P w → Upd w w' → P w') {w w' : World}
    (h : Upds w w') (hw : P w) : P w' := by
  induction h with
  | refl => exact hw
  | tail _ hst ih => exact hP _ _ ih hst

end Upds

end World

/-- What a server works on. -/
def Server.world (s : Server) : World := ⟨s.mngClient.clients, s.mngClient.lobby, s.sockets⟩

namespace ClientManager

/-- What a client manager works on, the descriptors being those given. -/
def world (m : ClientManager) (sockets : List ℤ) : World := ⟨m.clients, m.lobby, sockets⟩

/-- The request changes the clients and rooms by elementary updates. -/
def Updates (m m' : ClientManager) : Prop := ∀ socks, (m.world socks).Upds (m'.world socks)

variable {m m' m'' : ClientManager} {i j : ℕ}

theorem Updates.refl (m : ClientManager) : m.Updates m := fun _ => .refl _

theorem Updates.trans (h₁ : m.Updates m') (h₂ : m'.Updates m'') : m.Updates m'' :=
  fun socks => (h₁ socks).trans (h₂ socks)

/-- Two managers with the same clients and lobby are the same up to logs and counters. -/
theorem Updates.of_eq (hc : m'.clients = m.clients) (hl : m'.lobby = m.lobby) : m.Updates m' := by
  intro socks
  simp only [world, hc, hl]
  exact .refl _

theorem Updates.of_quiet (hc : Client.QuietChange m.clients m'.clients)
    (hl : m'.lobby = m.lobby) : m.Updates m' := by
  intro socks
  simp only [world, hl]
  generalize m'.clients = cs at hc
  induction hc with
  | refl => exact .refl _
  | tail _ hst ih =>
    obtain ⟨i, f, hf, rfl⟩ := hst
    refine ih.trans (.single (.client _ i f fun c hc => ⟨⟨hf.sock c, fun hw => ?_⟩, hf.nick c⟩))
    exact hf.sound c (hw c (List.mem_of_getElem? hc))

/-! ### The requests -/

theorem quietChange_freeClients (cs : List Client) (a b : Client) :
    Client.QuietChange cs (freeClients cs i j a b) :=
  ((((Client.QuietChange.refl cs).modify (.toWaiting _) i).modify (.toWaiting _) j).modify
    (.setRoomId 0) i).modify (.setRoomId 0) j

theorem updates_destroyRoom {id : ℕ} (h : m.destroyRoom id i j = .ok m') : m.Updates m' := by
  obtain ⟨a, b, -, -, hcs, -, hl⟩ := destroyRoom_cases h
  have hfree : m.Updates { m' with lobby := m.lobby } :=
    .of_quiet (hcs ▸ quietChange_freeClients _ a b) rfl
  rcases hl with ⟨-, hl⟩ | ⟨-, -, hl⟩
  · exact hfree.trans (.of_eq rfl hl)
  · refine hfree.trans fun socks => ?_
    simp only [world, hl]
    exact .single (.destroy _ _)

theorem updates_modify {f : Client → Client} (hf : Client.Quiet f) (i : ℕ) :
    m.Updates (m.modify i f) :=
  .of_quiet ((Client.QuietChange.refl _).modify hf i) rfl

theorem updates_paired {c d : Client} (h : m.Paired m' i j c d) : m.Updates m' := by
  have hcreate : m.Updates { m with lobby := (m.lobby.createRoom c.nick d.nick).1 } :=
    fun _ => .single (.create _ _ _)
  refine hcreate.trans (.of_quiet ?_ h.lobby)
  rw [h.clients]
  exact ((Client.QuietChange.refl _).modify (.seat rfl) i).modify (.seat rfl) j

theorem updates_pairLoop {fuel : ℕ} (h : pairLoop fuel m i = .ok m') : m.Updates m' := by
  have hpairs := pairs_of_pairLoop h
  clear h
  induction hpairs with
  | refl => exact .refl _
  | tail _ hp ih =>
    obtain ⟨i, j, c, d, hp⟩ := hp
    exact ih.trans (updates_paired hp)

theorem updates_handleReconnection {nick : Text} {d : Client} (hd : m.clients[j]? = some d)
    (hn : d.nick = nick) (h : m.handleReconnection i j nick = .ok m') : m.Updates m' := by
  obtain ⟨d', hd', hcases⟩ := handleReconnection_cases h
  obtain rfl : d = d' := Option.some.inj (hd.symm.trans hd')
  rcases hcases with ⟨-, rfl⟩ | ⟨-, hrep⟩ | ⟨-, hrep⟩
  · exact .of_eq rfl rfl
  · obtain ⟨hcs, hl⟩ := reportReconnection_same hrep
    exact (updates_modify .restore i).trans (.of_eq hcs hl)
  · obtain ⟨hcs, hl⟩ := reportReconnection_same hrep
    refine Updates.trans (fun socks => .single ?_) (.of_eq hcs hl)
    refine .steal _ i j _ _ nick ⟨d, hd, hn⟩ (fun c hc => ⟨⟨rfl, fun hw => ?_⟩, rfl⟩)
      fun c => ⟨⟨rfl, fun hc => ⟨hc.last, hc.gone⟩⟩, rfl⟩
    -- the state that is restored is the one the session has kept
    have hlast := (hw d (List.mem_of_getElem? hd)).last
    have hc : c.Sound := hw c (List.mem_of_getElem? hc)
    have hnamed : (c.setNick nick).Sound := ⟨hc.last, hc.gone⟩
    have hset : ((c.setNick nick).setState d.stateLast).Sound :=
      hnamed.setState fun h' => by simp [h', State.inaccessible] at hlast
    exact ⟨hset.last, hset.gone⟩

theorem updates_requestConnect {nick : Text} {state : State} {b : ℤ}
    (h : m.requestConnect i nick state = .ok (m', b)) : m.Updates m' := by
  obtain ⟨c, -, ⟨hfree, ⟨-, -, rfl⟩ | ⟨rfl, -⟩⟩ | ⟨-, rfl⟩ |
    ⟨d, hd, hn, -, hrec⟩⟩ := requestConnect_cases h
  · exact fun _ => .single (.name _ i _ nick hfree fun c _ => ⟨⟨rfl, fun _ => ⟨rfl, nofun⟩⟩, rfl⟩)
  · exact .refl _
  · exact .of_eq rfl rfl
  · exact updates_handleReconnection hd hn hrec

theorem updates_sendToClient (i : ℕ) (msg : Text) : m.Updates (m.sendToClient i msg) :=
  .of_eq rfl rfl

theorem quietChange_handedOver (m : ClientManager) (a b : ℕ) (state : State) (t : Text) :
    Client.QuietChange m.clients (m.handedOver a b state t).clients :=
  ((Client.QuietChange.refl _).modify
    (.ite (.setStateLast rfl) (.setState (by decide))) a).modify (.setState (by decide)) b

theorem updates_handedOver {a b : ℕ} {state : State} {t : Text} :
    m.Updates (m.handedOver a b state t) :=
  .of_quiet (quietChange_handedOver m a b state t) rfl

theorem updates_requestMove {t : Text} {b : ℤ} (h : m.requestMove i t = .ok (m', b)) :
    m.Updates m' := by
  obtain ⟨c, k, r, r', -, rfl, hr, hid, hcases⟩ := requestMove_outcome h
  have hmove : ∀ moved, r.processMove t = .ok (r', moved) →
      (r'.gameState = .gameover → r.gameState = .gameover ∨ r.roomId = 0) →
        m.Updates (m.putRoom (m.lobby.getRoomById c.roomId) r') :=
    fun moved hproc hs _ => .single (.move _ _ r r' t moved hr hproc hs)
  rcases hcases with ⟨hproc, -, -, rfl⟩ | ⟨hproc, -, -, a, d, -, -, hover⟩
  · obtain ⟨-, -, -, -, hgs⟩ | ⟨hb, -⟩ := (RoomHnefatafl.processMove_players hproc).2.2.2
    · exact hmove _ hproc fun h' => Or.inl (hgs ▸ h')
    · cases hb
  rcases hover with ⟨hgs, rfl⟩ | ⟨-, hdestroy⟩
  · exact (hmove _ hproc fun h' => absurd h' hgs).trans updates_handedOver
  · obtain ⟨a', b', -, -, hcs, -, hl⟩ := destroyRoom_cases hdestroy
    rcases hl with ⟨hzero, -⟩ | ⟨-, -, hl⟩
    · have hlobby : r.roomId = 0 := (room_of_getRoomById hr).trans hzero
      refine Updates.trans ?_ (updates_destroyRoom hdestroy)
      exact (((hmove _ hproc fun _ => Or.inr hlobby).trans updates_handedOver).trans
        (updates_sendToClient _ _)).trans (updates_sendToClient _ _)
    · -- the room is gone, with what the move has done to it
      have hquiet : Client.QuietChange m.clients m'.clients := by
        rw [hcs, clients_sendToClient, clients_sendToClient]
        exact (quietChange_handedOver (m.putRoom _ r') _ _ _ t).trans
          (quietChange_freeClients _ a' b')
      have hfree : m.Updates { m' with lobby := m.lobby } := .of_quiet hquiet rfl
      refine hfree.trans fun socks => ?_
      have hgames : m'.lobby = { m.lobby with
          games := m.lobby.games.eraseIdx (m.lobby.getRoomById c.roomId) } := by
        rw [hl]
        change ({ m.lobby with
          games := (m.lobby.games.set _ r').eraseIdx ((m.putRoom _ r').lobby.getRoomById _) } :
            Lobby) = _
        rw [getRoomById_putRoom hr hid, List.eraseIdx_set_eq]
      simp only [world, hgames]
      exact .single (.destroy _ _)

theorem updates_serveFrame {state : State} {d : Frame} {b : ℤ}
    (h : m.serveFrame i state d = .ok (m', b)) : m.Updates m' := by
  cases d with
  | ping =>
    cases h
    split_ifs
    · exact (updates_modify .restore i).trans (updates_sendToClient _ _)
    · exact updates_sendToClient _ _
  | pong =>
    cases h
    exact updates_modify .restore i
  | connect nick => exact updates_requestConnect h
  | ready =>
    cases h
    exact updates_modify (.setState (by decide)) i
  | move coordinates => exact updates_requestMove h
  | leave =>
    obtain ⟨c, n, m₁, -, -, hsend, hdestroy⟩ := requestLeave_cases h
    obtain ⟨hcs, hl⟩ := sendToOpponentOf_same hsend
    exact (Updates.of_eq hcs hl).trans (updates_destroyRoom hdestroy)
  | chat msg =>
    obtain ⟨m₁, hsend, h₁⟩ := bind_eq_ok.1 h
    cases h₁
    obtain ⟨hcs, hl⟩ := sendToOpponentOf_same hsend
    exact .of_eq hcs hl
  | ok =>
    cases h
    exact .refl _

theorem updates_eraseClient (h : m.eraseClient i = .ok m') : m.Updates m' := by
  obtain ⟨c, -, ⟨-, rfl⟩ | ⟨-, n, m₁, m₂, -, hcs, hl, hdestroy, rfl⟩⟩ := eraseClient_cases h
  · exact fun _ => .single (.drop _ i)
  · have hgone : m₂.Updates { m₂ with clients := m₂.clients.eraseIdx i } :=
      fun _ => .single (.drop _ i)
    exact ((Updates.of_eq hcs hl).trans (updates_destroyRoom hdestroy)).trans hgone

theorem quiet_countDown : Client.Quiet countDown := by
  have herase : Client.Quiet fun c => if c.cntrPings = 0 then c.setFlagToErase true else c :=
    .ite (.setFlagToErase true) .id
  exact herase.comp .decreaseInaccessCount

theorem quiet_pinged : Client.Quiet pinged := by
  -- what a round does to a client is quiet for each client separately
  have hquiet : ∀ c, ∃ f, Client.Quiet f ∧ pinged c = f c := by
    intro c
    unfold pinged
    split_ifs
    · exact ⟨_, .comp (.setFlagToErase true) (.setFlagToDisconnect true), rfl⟩
    cases c.state with
    | lost => exact ⟨_, .setFlagToDisconnect true, rfl⟩
    | disconnected => exact ⟨_, quiet_countDown, rfl⟩
    | pinged => exact ⟨_, .setState (by decide), rfl⟩
    | new | waiting | ready | playingOnTurn | playingOnStand =>
      exact ⟨_, .setState (by decide), rfl⟩
  refine ⟨fun c => ?_, fun c => ?_, fun c hc => ?_⟩
  all_goals
    obtain ⟨f, hf, heq⟩ := hquiet c
    rw [heq]
  · exact hf.nick c
  · exact hf.sock c
  · exact hf.sound c hc

theorem updates_pingClients (h : m.pingClients = .ok m') : m.Updates m' := by
  unfold pingClients at h
  generalize List.range m.clients.length = is at h
  induction is generalizing m with
  | nil =>
    cases h
    exact .refl _
  | cons i is ih =>
    rw [List.foldlM_cons] at h
    obtain ⟨m₁, hm₁, h₁⟩ := bind_eq_ok.1 h
    obtain ⟨hcs, hl⟩ := pingClient_spec hm₁
    exact (Updates.trans (updates_modify quiet_pinged i) (.of_eq hcs hl)).trans (ih h₁)

end ClientManager

namespace Server

open ClientManager

variable {s s' : Server} {i : ℕ}

theorem upds_manage {m : ClientManager} (h : s.mngClient.Updates m) :
    s.world.Upds { s with mngClient := m }.world := h s.sockets

theorem upds_closeConnection (h : s.closeConnection i = .ok s') : s.world.Upds s'.world := by
  obtain ⟨c, hc, ⟨-, rfl⟩ | ⟨hs, m, hcs, hl, rfl⟩⟩ := closeConnection_cases h
  · exact .refl _
  · simp only [world, hcs, hl]
    exact .single (.close _ i c hc hs)

theorem upds_eraseClient (h : s.manage (s.mngClient.eraseClient i) = .ok s') :
    s.world.Upds s'.world := by
  obtain ⟨m, hm, rfl⟩ := manage_eq_ok.1 h
  exact upds_manage (updates_eraseClient hm)

theorem upds_sendToClient (s : Server) (i : ℕ) (msg : Text) :
    s.world.Upds { s with mngClient := s.mngClient.sendToClient i msg }.world :=
  upds_manage (updates_sendToClient i msg)

theorem upds_acceptConnection {ip : Text} {fd : ℤ} (hfd : fd ∉ s.sockets) :
    s.world.Upds (s.acceptConnection ip fd).world := by
  unfold acceptConnection
  split_ifs with hpos
  · exact .single (.join _ ip fd hpos hfd)
  · exact .refl _

/-- A part of a pass that handles no frame is a sequence of updates. -/
theorem preserving_upds : Preserving fun s s' => s.world.Upds s'.world where
  refl := fun _ => .refl _
  trans := fun _ _ _ => .trans
  tell := fun s i msg _ => upds_sendToClient s i msg
  close := fun _ _ _ => upds_closeConnection
  erase := fun _ _ _ => upds_eraseClient
  evict := fun _ k => .single (.drop _ k)
  unflag := fun _ i => upds_manage (updates_modify (.setFlagToDisconnect _) i)

theorem length_eraseClient {m m' : ClientManager} (h : m.eraseClient i = .ok m') :
    m'.clients.length = m.clients.length - 1 := by
  obtain ⟨c, hc, ⟨-, rfl⟩ | ⟨-, n, m₁, m₂, -, hcs, -, hdestroy, rfl⟩⟩ := eraseClient_cases h
  all_goals have hlt := (List.getElem?_eq_some_iff.1 hc).1
  · exact List.length_eraseIdx_of_lt hlt
  · obtain ⟨a, b, -, -, hfree, -, -⟩ := destroyRoom_cases hdestroy
    have hlen : m₂.clients.length = m.clients.length := by simp [hfree, freeClients, hcs]
    simp only [List.length_eraseIdx, hlen, if_pos hlt]

/-- The shutdown leaves no client. -/
theorem nil_of_closeClientSockets {fuel : ℕ} (hfuel : s.mngClient.clients.length ≤ fuel)
    (h : closeClientSockets fuel s = .ok s') : s'.mngClient.clients = [] := by
  induction fuel generalizing s with
  | zero =>
    cases h
    simpa using hfuel
  | succ fuel ih =>
    rw [closeClientSockets] at h
    split_ifs at h with hnil
    · cases h
      exact hnil
    · obtain ⟨s₁, hs₁, h₁⟩ := bind_eq_ok.1 h
      obtain ⟨s₂, hs₂, h₂⟩ := bind_eq_ok.1 h₁
      have hlen₁ : s₁.mngClient.clients.length = s.mngClient.clients.length := by
        obtain ⟨c, -, ⟨-, rfl⟩ | ⟨-, m, hcs, -, rfl⟩⟩ := closeConnection_cases hs₁
        · rfl
        · simp [hcs, sendToClient]
      have hlen₂ : s₂.mngClient.clients.length = s₁.mngClient.clients.length - 1 := by
        obtain ⟨m, hm, rfl⟩ := manage_eq_ok.1 hs₂
        exact length_eraseClient hm
      exact ih (by omega) h₂

theorem upds_shutdown (h : s.shutdown = .ok s') : s.world.Upds s'.world := by
  obtain ⟨s₁, hs₁, h₁⟩ := bind_eq_ok.1 h
  cases h₁
  have hend := nil_of_closeClientSockets le_rfl hs₁
  have hclosed := preserving_upds.closeClientSockets hs₁
  exact hclosed.trans (.single (.unwatch _ _ (by simp [world, hend])))

/-- Handling an event is a sequence of elementary updates. -/
theorem upds_handle {l : Input} (hguard : s.guard l) (h : s.handle l = .ok s') :
    s.world.Upds s'.world := by
  cases l with
  | accept ip fd => exact (upds_acceptConnection hguard.2).trans (preserving_upds.checkCapacity h)
  | frame client d =>
    obtain ⟨c, m, b, -, rfl, ⟨-, rfl⟩ | ⟨-, hserve⟩⟩ := frame_cases h
    · exact .refl _
    · exact upds_manage (updates_serveFrame hserve)
  | close client => exact upds_closeConnection h
  | kick client => exact preserving_upds.kick h
  | flags client => exact preserving_upds.processFlags h
  | pair =>
    obtain ⟨m, hm, rfl⟩ := manage_eq_ok.1 h
    exact upds_manage (updates_pairLoop hm)
  | ping =>
    obtain ⟨m, hm, rfl⟩ := manage_eq_ok.1 h
    exact upds_manage (updates_pingClients hm)
  | shutdown => exact upds_shutdown h

end Server

/-- **The steps of the server are sequences of elementary updates.** -/
theorem server_step_upds {s s' : Server} {l : Input} (h : server.Step s l s') :
    s.world.Upds s'.world :=
  Server.upds_handle (s := s.clearSent) h.1 h.2

end HnefServer
