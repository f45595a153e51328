import HnefServer.Invariant.Update

/-!
# Invariants of all runs

`World.Base` holds in every state the server reaches without a fault, whatever the clients
send: nicks and descriptors are unique, room ids are unique and never reused, every game in the
lobby goes on and its board is well formed.  It is checked for each elementary update
(`World.Base.upd`), and holds of all runs by `Server.Reachable.base`.
-/

namespace HnefServer

open Client

namespace World

/-- The invariants of all runs. -/
structure Base (w : World) : Prop where
  sound : w.Sound
  nicks : DistinctKeys nickKey w.clients
  socks : DistinctKeys sockKey w.clients
  /-- The descriptors of the clients are watched. -/
  watched : ∀ c ∈ w.clients, 0 ≤ c.socketNum → c.socketNum ∈ w.sockets
  ids : DistinctKeys (fun r : RoomHnefatafl => some r.roomId) w.lobby.games
  bound : ∀ r ∈ w.lobby.games, 0 < r.roomId ∧ r.roomId ≤ w.lobby.roomsTotal
  boards : ∀ r ∈ w.lobby.games, r.gameState = .playing ∧ BoardInv r.pf

/-- What `Base` says about the clients, and about the rooms. -/
theorem Base.of_clients {w : World} (h : w.Base) {cs : List Client} {socks : List ℤ}
    (hsound : ∀ c ∈ cs, c.Sound) (hnicks : DistinctKeys nickKey cs)
    (hsocks : DistinctKeys sockKey cs)
    (hwatched : ∀ c ∈ cs, 0 ≤ c.socketNum → c.socketNum ∈ socks) :
    Base { w with clients := cs, sockets := socks } :=
  ⟨hsound, hnicks, hsocks, hwatched, h.ids, h.bound, h.boards⟩

theorem Base.of_games {w : World} (h : w.Base) {l : Lobby}
    (hids : DistinctKeys (fun r : RoomHnefatafl => some r.roomId) l.games)
    (hbound : ∀ r ∈ l.games, 0 < r.roomId ∧ r.roomId ≤ l.roomsTotal)
    (hboards : ∀ r ∈ l.games, r.gameState = .playing ∧ BoardInv r.pf) :
    Base { w with lobby := l } :=
  ⟨h.sound, h.nicks, h.socks, h.watched, hids, hbound, hboards⟩

variable {w w' : World} {i : ℕ} {f : Client → Client}

/-- A change of one client that keeps its descriptor and its soundness. -/
theorem Base.modify (h : w.Base)
    (hf : ∀ c, w.clients[i]? = some c → w.Keeps c (f c))
    (hnicks : DistinctKeys nickKey (w.clients.modify i f)) :
    Base { w with clients := w.clients.modify i f } := by
  refine h.of_clients (fun c hc => ?_) hnicks (h.socks.modify fun c hc fd hfd => Or.inl ?_)
    fun c hc hs => ?_
  · rcases mem_modify hc with ⟨_, _, hc⟩ | ⟨a, ha, rfl⟩
    · exact h.sound c (List.mem_of_getElem? hc)
    · exact (hf a ha).sound h.sound
  · rw [sockKey_eq_some] at hfd ⊢
    exact ⟨(hf c hc).sock ▸ hfd.1, hfd.2⟩
  · rcases mem_modify hc with ⟨_, _, hc⟩ | ⟨a, ha, rfl⟩
    · exact h.watched c (List.mem_of_getElem? hc) hs
    · rw [(hf a ha).sock] at hs ⊢
      exact h.watched a (List.mem_of_getElem? ha) hs

/-- A client takes the nick of another: every client is one from before, changed by none, one or
both of the functions. -/
theorem Base.steal {j : ℕ} {g : Client → Client} {d : Client} (h : w.Base)
    (hd : w.clients[j]? = some d)
    (hf : ∀ c, w.clients[i]? = some c → w.Keeps c (f c) ∧ (f c).nick = d.nick)
    (hg : ∀ c, ((g c).socketNum = c.socketNum ∧ (c.Sound → (g c).Sound)) ∧ (g c).nick = []) :
    Base { w with clients := (w.clients.modify i f).modify j g } := by
  have hfirst : ∀ c ∈ w.clients.modify i f, ∃ a ∈ w.clients, w.Keeps a c := by
    intro c hc
    rcases mem_modify hc with ⟨_, _, hc⟩ | ⟨a, ha, rfl⟩
    · exact ⟨c, List.mem_of_getElem? hc, rfl, fun hw => hw c (List.mem_of_getElem? hc)⟩
    · exact ⟨a, List.mem_of_getElem? ha, (hf a ha).1⟩
  have hboth : ∀ c ∈ (w.clients.modify i f).modify j g, ∃ a ∈ w.clients, w.Keeps a c := by
    intro c hc
    rcases mem_modify hc with ⟨_, _, hc⟩ | ⟨a, ha, rfl⟩
    · exact hfirst c (List.mem_of_getElem? hc)
    · obtain ⟨b, hb, hkeep⟩ := hfirst a (List.mem_of_getElem? ha)
      exact ⟨b, hb, (hg a).1.1.trans hkeep.sock, fun hw => (hg a).1.2 (hkeep.sound hw)⟩
  refine h.of_clients (fun c hc => ?_)
    (h.nicks.steal hd (fun c hc => by rw [nickKey, nickKey, (hf c hc).2])
      fun c _ => if_pos (hg c).2) ?_ fun c hc hs => ?_
  · obtain ⟨a, -, hkeep⟩ := hboth c hc
    exact hkeep.sound h.sound
  · refine (h.socks.modify fun c hc k hk => Or.inl ?_).modify_of_key_eq fun c => ?_
    · rw [sockKey_eq_some] at hk ⊢
      exact ⟨(hf c hc).1.sock ▸ hk.1, hk.2⟩
    · simp only [sockKey, (hg c).1.1]
  · obtain ⟨a, ha, hkeep⟩ := hboth c hc
    rw [hkeep.sock] at hs ⊢
    exact h.watched a ha hs

/-- A connection is accepted, on a descriptor that was not watched. -/
theorem Base.join {ip : Text} {fd : ℤ} (h : w.Base) (hnew : fd ∉ w.sockets) :
    Base { w with clients := w.clients ++ [Client.create ip fd],
                  sockets := FD_SET fd w.sockets } := by
  have hwatch : ∀ x, x ∈ w.sockets ∨ x = fd → x ∈ FD_SET fd w.sockets := by
    intro x hx
    rw [FD_SET, if_neg hnew, List.mem_cons]
    exact hx.symm
  refine h.of_clients (fun c hc => ?_) (h.nicks.concat fun b _ k hk => ?_)
    (h.socks.concat fun b hb k hk hkey => ?_) fun c hc hs => hwatch _ ?_
  · rcases List.mem_append.1 hc with hc | hc
    · exact h.sound c hc
    · rw [List.mem_singleton.1 hc]
      exact Sound.create
  · have hnone : nickKey (Client.create ip fd) = none := rfl
    rw [hnone] at hk
    cases hk
  · -- the new descriptor is not watched, those of the clients are
    rw [sockKey_eq_some] at hk hkey
    have hmem := h.watched b hb (hkey.1 ▸ hkey.2)
    rw [hkey.1, ← hk.1] at hmem
    exact hnew hmem
  · rcases List.mem_append.1 hc with hc | hc
    · exact Or.inl (h.watched c hc hs)
    · rw [List.mem_singleton.1 hc]
      exact Or.inr rfl

theorem sound_disconnect {c : Client} (h : c.Sound) : (Server.disconnect c).Sound := by
  refine ⟨?_, fun _ => Server.disconnect_socketNum c⟩
  change (c.setState .disconnected).stateLast.inaccessible = false
  rw [setState_stateLast]
  split_ifs with hi
  · exact h.last
  · simpa using hi

/-- A connection is closed: no other client has its descriptor. -/
theorem Base.close {c : Client} (h : w.Base) (hc : w.clients[i]? = some c) (hs : 0 ≤ c.socketNum) :
    Base { w with clients := w.clients.modify i Server.disconnect,
                  sockets := FD_CLR c.socketNum w.sockets } := by
  refine h.of_clients (fun d hd => ?_) (h.nicks.modify_of_key_eq fun _ => rfl)
    (h.socks.modify fun d hd k hk => ?_) fun d hd hds => ?_
  · rcases mem_modify hd with ⟨_, _, hd⟩ | ⟨a, ha, rfl⟩
    · exact h.sound d (List.mem_of_getElem? hd)
    · exact sound_disconnect (h.sound a (List.mem_of_getElem? ha))
  · rw [sockKey_eq_some] at hk
    have hneg := Server.disconnect_socketNum d
    omega
  · rw [FD_CLR, List.mem_filter, decide_eq_true_eq]
    rcases mem_modify hd with ⟨j, hj, hd⟩ | ⟨a, -, rfl⟩
    · refine ⟨h.watched d (List.mem_of_getElem? hd) hds, fun heq => hj ?_⟩
      exact h.socks j i d c _ hd hc (sockKey_eq_some.2 ⟨heq, hs⟩) (sockKey_eq_some.2 ⟨rfl, hs⟩)
    · have hneg := Server.disconnect_socketNum a
      omega

/-- A room is created: its id is larger than all before. -/
theorem Base.newRoom {a b : Text} (h : w.Base) :
    Base { w with lobby := (w.lobby.createRoom a b).1 } := by
  refine h.of_games (h.ids.concat fun r hr k hk hkey => ?_) (fun r hr => ?_) fun r hr => ?_
  · have hle := (h.bound r hr).2
    simp only [Option.some.injEq] at hk hkey
    change w.lobby.roomsTotal + 1 = k at hk
    omega
  · rcases List.mem_append.1 hr with hr | hr
    · have := h.bound r hr
      simp only [Lobby.createRoom]
      omega
    · rw [List.mem_singleton.1 hr]
      simp [RoomHnefatafl.create, Lobby.createRoom]
  · rcases List.mem_append.1 hr with hr | hr
    · exact h.boards r hr
    · rw [List.mem_singleton.1 hr]
      exact ⟨rfl, BoardInv.start⟩

/-- A move that leaves the game open. -/
theorem Base.moved {k : ℕ} {r r' : RoomHnefatafl} {t : Text} {b : Bool} (h : w.Base)
    (hr : w.lobby.games[k]? = some r) (hm : r.processMove t = .ok (r', b))
    (hs : r'.gameState = .gameover → r.gameState = .gameover ∨ r.roomId = 0) :
    Base { w with lobby := { w.lobby with games := w.lobby.games.set k r' } } := by
  obtain ⟨hid, -⟩ := RoomHnefatafl.processMove_players hm
  have hmem := List.mem_of_getElem? hr
  refine h.of_games (h.ids.set_of_key_eq hr (congrArg some hid)) (fun x hx => ?_) fun x hx => ?_
  · rcases List.mem_or_eq_of_mem_set hx with hx | rfl
    · exact h.bound x hx
    · rw [hid]
      exact h.bound r hmem
  · rcases List.mem_or_eq_of_mem_set hx with hx | rfl
    · exact h.boards x hx
    · obtain ⟨hplay, hpf⟩ := h.boards r hmem
      rcases RoomHnefatafl.processMove_board hm hpf with hover | ⟨hgs, hboard⟩
      · rcases hs hover with hover' | hzero
        · rw [hplay] at hover'
          cases hover'
        · have := (h.bound r hmem).1
          omega
      · exact ⟨hgs.trans hplay, hboard⟩

/-- **The invariants are kept by every elementary update.** -/
theorem Base.upd (h : w.Base) (hst : Upd w w') : w'.Base := by
  cases hst with
  | client i f hf =>
    refine h.modify (fun c hc => (hf c hc).1) (h.nicks.modify fun c hc k hk => Or.inl ?_)
    rw [nickKey_eq_some] at hk ⊢
    exact ⟨(hf c hc).2 ▸ hk.1, hk.2⟩
  | name i f n hn hf =>
    refine h.modify (fun c hc => (hf c hc).1) (h.nicks.modify fun c hc k hk => Or.inr ?_)
    intro j b _ hb hkey
    rw [nickKey_eq_some, (hf c hc).2] at hk
    exact hn b (List.mem_of_getElem? hb) ((nickKey_eq_some.1 hkey).1.trans hk.1.symm)
  | steal i j f g n hj hf hg =>
    obtain ⟨d, hd, rfl⟩ := hj
    exact h.steal hd hf hg
  | drop i =>
    exact h.of_clients (fun c hc => h.sound c (List.mem_of_mem_eraseIdx hc)) (h.nicks.eraseIdx i)
      (h.socks.eraseIdx i) fun c hc => h.watched c (List.mem_of_mem_eraseIdx hc)
  | join ip fd hpos hnew => exact h.join hnew
  | close i c hc hs => exact h.close hc hs
  | unwatch fd hfd =>
    refine h.of_clients h.sound h.nicks h.socks fun c hc hs => ?_
    rw [FD_CLR, List.mem_filter, decide_eq_true_eq]
    exact ⟨h.watched c hc hs, hfd c hc⟩
  | create a b => exact h.newRoom
  | move k r r' t b hr hm hs => exact h.moved hr hm hs
  | destroy k =>
    exact h.of_games (h.ids.eraseIdx k) (fun r hr => h.bound r (List.mem_of_mem_eraseIdx hr))
      fun r hr => h.boards r (List.mem_of_mem_eraseIdx hr)

theorem Base.upds (h : w.Base) (hst : Upds w w') : w'.Base :=
  hst.invariant (fun _ _ h hst => h.upd hst) h

theorem Base.create (clients rooms : ℕ) (fd : ℤ) : (Server.create clients rooms fd).world.Base where
  sound := fun c hc => by cases hc
  nicks := distinctKeys_nil
  socks := distinctKeys_nil
  watched := fun c hc => by cases hc
  ids := distinctKeys_nil
  bound := fun r hr => by cases hr
  boards := fun r hr => by cases hr

end World

/-- **The invariants hold in every reachable state.** -/
theorem Server.Reachable.base {clients rooms : ℕ} {fd : ℤ} {s : Server}
    (h : Server.Reachable clients rooms fd s) : s.world.Base :=
  System.Reachable.invariant (I := fun s : Server => s.world.Base) h (.create clients rooms fd)
    fun _ _ _ hs hst => hs.upds (server_step_upds hst)

end HnefServer
