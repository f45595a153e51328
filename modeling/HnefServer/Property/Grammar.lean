import HnefServer.Invariant.Follow
import HnefServer.Invariant.Rooms
import HnefServer.Network.Sent
import HnefServer.Property.Matching
import HnefServer.Property.Pairing
import HnefServer.Property.Reconnect

/-!
# The grammar of the clients

The pairing does not look at the names of the Ready clients.  As long as it puts only named clients
into a game, everything that is sent conforms to the client regex; it is the first pairing of a
client without a name that sends a message outside the grammar (`frames_conform_iff`).  The board
in the message to a client that is back in its game is in every run the board of its room.
-/

namespace HnefServer

open Protocol ClientManager

/-! ### Names -/

/-- The nick of the client at a position. -/
def nickAt (cs : List Client) (x : ℕ) : Text := (cs[x]?).elim [] Client.nick

theorem nickAt_eq {cs : List Client} {x : ℕ} {c : Client} (hc : cs[x]? = some c) :
    nickAt cs x = c.nick := by
  rw [nickAt, hc]
  rfl

namespace Server

variable {clients rooms : ℕ} {fd : ℤ} {s s' : Server} {l : Input}

/-- A client has the name it has asked for, or none. -/
def Named (s : Server) : Prop := ∀ c ∈ s.mngClient.clients, c.nick.Named

theorem named_modify {cs : List Client} {k : ℕ} {f : Client → Client}
    (h : ∀ c ∈ cs, c.nick.Named) (hf : ∀ c : Client, c.nick.Named → (f c).nick.Named) :
    ∀ c ∈ cs.modify k f, c.nick.Named := by
  intro c hc
  rcases mem_modify hc with ⟨_, _, hc⟩ | ⟨a, ha, rfl⟩
  · exact h c (List.mem_of_getElem? hc)
  · exact hf a (h a (List.mem_of_getElem? ha))

theorem Named.connect {i : ℕ} {n : Nick} (hb : s.world.Base) (h : s.Named)
    (hstep : server.Step s (.frame i (.connect n)) s') : s'.Named := by
  have hn : n.text.Named := Or.inr ⟨n, rfl⟩
  unfold Named
  rcases connect_cases hb hstep with ⟨-, -, hcs, -⟩ | ⟨-, hcs, -⟩ | hrec
  · rw [hcs]
    exact named_modify h fun _ _ => hn
  · rw [hcs]
    exact h
  · cases hrec with
    | short j d hd hdn hs hcs =>
      rw [hcs]
      refine named_modify h fun c hc => ?_
      exact hc
    | long c j d hc hd hdn hip hs hcs =>
      -- the session that was taken over has no name any more
      rw [hcs]
      exact named_modify (named_modify h fun _ _ => hn) fun _ _ => Or.inl rfl

theorem Named.step (hb : s.world.Base) (h : s.Named) (hstep : server.Step s l s') : s'.Named := by
  by_cases hconnect : ∃ i n, l = .frame i (.connect n)
  · obtain ⟨i, n, rfl⟩ := hconnect
    exact h.connect hb hstep
  by_cases hping : l = .ping
  · subst hping
    obtain ⟨m, hm, rfl⟩ := manage_eq_ok.1 hstep.2
    intro c hc
    change c ∈ m.clients at hc
    rw [(pingClients_spec hm).1] at hc
    obtain ⟨a, ha, rfl⟩ := List.mem_map.1 hc
    rw [quiet_pinged.nick]
    exact h a ha
  · have hfollow : AllFollowed false (s.follow l Client.create s.mngClient.clients)
        s'.mngClient.clients :=
      server_step_followed hb hstep (fun i n heq => hconnect ⟨i, n, heq⟩) hping nofun
    -- an accepted connection has no name yet
    have hnamed : List.Forall₂ (fun (c : Client) (_ : Client) => c.nick.Named)
        (s.follow l Client.create s.mngClient.clients)
        (s.follow l Client.create s.mngClient.clients) :=
      follow_forall₂ (List.forall₂_same.2 h) fun _ _ _ => Or.inl rfl
    intro c' hc'
    obtain ⟨k, hk⟩ := List.mem_iff_getElem?.1 hc'
    obtain ⟨c, hc, hsame⟩ := forall₂_exists_left hfollow hk
    obtain ⟨-, -, hcn⟩ := forall₂_exists_right hnamed hc
    rcases hsame with hkept | ⟨hn, -⟩
    · rw [hkept.nick]
      exact hcn
    · rw [hn]
      exact hcn

theorem Reachable.named (h : Server.Reachable clients rooms fd s) : s.Named := by
  have hboth : s.world.Base ∧ s.Named :=
    System.Reachable.invariant (I := fun s : Server => s.world.Base ∧ s.Named) h
      ⟨.create clients rooms fd, fun c hc => by cases hc⟩ fun s l s' hs hst =>
        ⟨hs.1.upds (server_step_upds hst), hs.2.step hs.1 hst⟩
  exact hboth.2

/-- The players of a room have its colours. -/
theorem Reachable.coloured (h : Server.Reachable clients rooms fd s) :
    ∀ r ∈ s.mngClient.lobby.games, Hall.Coloured r := by
  have hupd : ∀ w w' : World, (∀ r ∈ w.lobby.games, Hall.Coloured r) → w.Upd w' →
      ∀ r ∈ w'.lobby.games, Hall.Coloured r := by
    intro w w' hw hst
    cases hst with
    | client | name | steal | drop | join | close | unwatch => exact hw
    | create a b =>
      intro r hr
      rcases List.mem_append.1 hr with hr | hr
      · exact hw r hr
      · rw [List.mem_singleton.1 hr]
        exact Or.inl ⟨rfl, rfl⟩
    | move k r r' t b hr hm hs =>
      intro x hx
      rcases List.mem_or_eq_of_mem_set hx with hx | rfl
      · exact hw x hx
      · obtain ⟨-, hblack, hwhite, hplayers⟩ := RoomHnefatafl.processMove_players hm
        have hcol := hw r (List.mem_of_getElem? hr)
        unfold Hall.Coloured at hcol ⊢
        rw [hblack, hwhite]
        rcases hplayers with ⟨-, ht, hs, -⟩ | ⟨-, ht, hs⟩
        · rw [ht, hs]
          exact hcol
        · rw [ht, hs]
          exact hcol.symm
    | destroy k => exact fun r hr => hw r (List.mem_of_mem_eraseIdx hr)
  exact System.Reachable.invariant
    (I := fun s : Server => ∀ r ∈ s.world.lobby.games, Hall.Coloured r) h (fun r hr => by cases hr)
    fun _ _ _ hs hst => (server_step_upds hst).invariant hupd hs

end Server

/-! ### The messages of the pairing -/

/-- The positions, taken two by two. -/
def paired (R : List ℕ) : List ℕ := R.take (2 * (R.length / 2))

@[simp] theorem paired_nil : paired [] = [] := rfl

@[simp] theorem paired_singleton (x : ℕ) : paired [x] = [] := by simp [paired]

@[simp] theorem paired_cons (x y : ℕ) (R : List ℕ) : paired (x :: y :: R) = x :: y :: paired R := by
  have hhalf : 2 * ((x :: y :: R).length / 2) = 2 * (R.length / 2) + 1 + 1 := by
    rw [List.length_cons, List.length_cons]
    omega
  rw [paired, hhalf, List.take_succ_cons, List.take_succ_cons]
  rfl

/-- The messages of the games of the clients at some positions, by their nicks. -/
def gameMsgs (nicks : ℕ → Text) : List ℕ → List (ℕ × Text)
  | x :: y :: R =>
    (x, composeMsgInGame SC_TURN_YOU (nicks y)) :: (y, composeMsgInGame SC_TURN_OPN (nicks x)) ::
      gameMsgs nicks R
  | _ => []

/-- They conform iff all the players have names. -/
theorem forall_gameMsgs_conforms {nicks : ℕ → Text} (hnicks : ∀ x, (nicks x).Named) (R : List ℕ) :
    (∀ p ∈ gameMsgs nicks R, Conforms p.2) ↔ ∀ x ∈ paired R, nicks x ≠ [] := by
  induction R using gameMsgs.induct with
  | case1 x y R ih =>
    simp only [gameMsgs, paired_cons, List.forall_mem_cons, ih,
      Conforms.inGame_iff (Or.inl rfl) (hnicks y), Conforms.inGame_iff (Or.inr rfl) (hnicks x)]
    exact and_left_comm
  | case2 R hR =>
    match R, hR with
    | [], _ => simp [gameMsgs]
    | [x], _ => simp [gameMsgs]
    | x :: y :: R, hR => exact absurd rfl (hR x y R)

/-- None of them tells a client that its game goes on. -/
theorem gameMsgs_not_inGameRecn {nicks : ℕ → Text} {R : List ℕ} :
    ∀ p ∈ gameMsgs nicks R, ¬ SC_RESP_RECN ++ OP_SEP ++ SC_IN_GAME <+: p.2 := by
  induction R using gameMsgs.induct with
  | case1 x y R ih =>
    rw [gameMsgs, List.forall_mem_cons, List.forall_mem_cons]
    refine ⟨?_, ?_, ih⟩
    · rintro ⟨t, ht⟩
      cases ht
    · rintro ⟨t, ht⟩
      cases ht
  | case2 R hR =>
    intro p hp
    rw [gameMsgs] at hp
    · cases hp
    · exact hR

namespace ClientManager

variable {m m' : ClientManager} {i j : ℕ} {c d : Client}

/-- The start of a game changes no nick. -/
theorem Paired.nickAt (h : m.Paired m' i j c d) : nickAt m'.clients = nickAt m.clients := by
  funext x
  rw [HnefServer.nickAt, HnefServer.nickAt, h.clients, List.getElem?_modify, List.getElem?_modify]
  cases m.clients[x]? with
  | none => rfl
  | some e =>
    dsimp only [Option.map_some, Option.elim_some]
    split_ifs
    · rfl
    · rfl
    · rfl
    · rfl

/-- **What the pairing sends**, from position `i` on. -/
theorem sent_pairLoop {fuel : ℕ} (hfuel : m.clients.length ≤ fuel + i)
    (h : pairLoop fuel m i = .ok m') :
    m'.sent = m.sent ++ gameMsgs (nickAt m.clients) (readyPositions m.clients i) := by
  refine pairLoop_induction
    (P := fun m R m' => m'.sent = m.sent ++ gameMsgs (HnefServer.nickAt m.clients) R)
    (fun m => ?_) (fun m x m' hrest => ?_) (fun m m₁ m' x y c d R hp hsent _ hrest => ?_) hfuel h
  · simp [gameMsgs]
  · simpa [gameMsgs] using hrest
  · rw [hrest, hsent, hp.nickAt, gameMsgs, nickAt_eq hp.fst, nickAt_eq hp.snd, List.append_assoc]
    rfl

/-- The players of the rooms have names. -/
def PlayersSpelled (m : ClientManager) : Prop :=
  ∀ r ∈ m.lobby.games, r.black.Spelled ∧ r.white.Spelled

/-- The pairing of named clients opens rooms for players with names. -/
theorem spelled_pairLoop {fuel : ℕ} (hfuel : m.clients.length ≤ fuel + i)
    (h : pairLoop fuel m i = .ok m') (hnamed : ∀ x, (nickAt m.clients x).Named)
    (hpaired : ∀ x ∈ paired (readyPositions m.clients i), nickAt m.clients x ≠ [])
    (hm : m.PlayersSpelled) : m'.PlayersSpelled := by
  refine pairLoop_induction (P := fun m R m' => (∀ x, (HnefServer.nickAt m.clients x).Named) →
    (∀ x ∈ paired R, HnefServer.nickAt m.clients x ≠ []) → m.PlayersSpelled → m'.PlayersSpelled)
    (fun m _ _ hm => hm) (fun m x m' hrest hnamed _ hm => hrest hnamed (by simp) hm)
    (fun m m₁ m' x y c d R hp _ _ hrest hnamed hpaired hm => ?_) hfuel h hnamed hpaired hm
  rw [paired_cons, List.forall_mem_cons, List.forall_mem_cons] at hpaired
  obtain ⟨hx, hy, hR⟩ := hpaired
  have hcs := (hnamed x).resolve_left hx
  have hds := (hnamed y).resolve_left hy
  rw [nickAt_eq hp.fst] at hcs
  rw [nickAt_eq hp.snd] at hds
  refine hrest (hp.nickAt ▸ hnamed) (hp.nickAt ▸ hR) fun r hr => ?_
  rw [hp.lobby] at hr
  rcases List.mem_append.1 hr with hr | hr
  · exact hm r hr
  · rw [List.mem_singleton.1 hr]
    exact ⟨hcs, hds⟩

end ClientManager

/-! ### Steps -/

namespace Server

variable {clients rooms : ℕ} {fd : ℤ} {s s' : Server} {l : Input}

/-- The clients that the pairing puts into a game have names. -/
def PairsNamed (s : Server) : Input → Prop
  | .pair => ∀ x ∈ paired (readyPositions s.mngClient.clients 0), nickAt s.mngClient.clients x ≠ []
  | _ => True

instance (s : Server) : (l : Input) → Decidable (s.PairsNamed l)
  | .pair => inferInstanceAs (Decidable (∀ x ∈ paired (readyPositions s.mngClient.clients 0), _))
  | .accept _ _ | .frame _ _ | .close _ | .kick _ | .flags _ | .ping | .shutdown => isTrue trivial

theorem Named.nickAt (h : s.Named) (x : ℕ) : (nickAt s.mngClient.clients x).Named := by
  cases hc : s.mngClient.clients[x]? with
  | none =>
    rw [HnefServer.nickAt, hc]
    exact Or.inl rfl
  | some c =>
    rw [nickAt_eq hc]
    exact h c (List.mem_of_getElem? hc)

/-- A step that pairs named clients only. -/
theorem spelled_step (hnamed : s.Named) (h : s.mngClient.PlayersSpelled) (hp : s.PairsNamed l)
    (hstep : server.Step s l s') : s'.mngClient.PlayersSpelled := by
  by_cases hl : l = .pair
  · subst hl
    obtain ⟨m, hm, rfl⟩ := manage_eq_ok.1 hstep.2
    exact spelled_pairLoop (m := s.clearSent.mngClient) (by omega) hm hnamed.nickAt hp h
  · -- every room is one from before
    intro r hr
    have hnarrow := (server_step_rooms hstep hl).games
    obtain ⟨a, ha, hid⟩ := List.mem_map.1 (hnarrow.subset (List.mem_map_of_mem hr))
    simp only [RoomHnefatafl.identity, Prod.mk.injEq] at hid
    rw [← hid.2.1, ← hid.2.2]
    exact h a ha

theorem spelled_of_reachableIf (h : server.ReachableIf PairsNamed (create clients rooms fd) s) :
    s.mngClient.PlayersSpelled := by
  have hboth : Server.Reachable clients rooms fd s ∧ s.mngClient.PlayersSpelled := by
    refine System.ReachableIf.invariant (I := fun s : Server =>
      Server.Reachable clients rooms fd s ∧ s.mngClient.PlayersSpelled) h
      ⟨.refl _, fun r hr => by cases hr⟩ fun s l s' hs hp hst => ?_
    exact ⟨hs.1.tail trivial hst, spelled_step hs.1.named hs.2 hp hst⟩
  exact hboth.2

/-! ### The message to a client that is back -/

/-- What `composeMsgInGameRecn` composes: the opponent is one of the players of the room. -/
theorem composeMsgInGameRecn_cases {m : ClientManager} {c : Client} {msg : Text}
    (h : m.composeMsgInGameRecn c = .ok msg) : ∃ r turn nick,
      m.lobby.games[m.lobby.getRoomById c.roomId]? = some r ∧
      (turn = SC_TURN_YOU ∨ turn = SC_TURN_OPN) ∧ (nick = r.onTurn ∨ nick = r.onStand) ∧
      msg = backInGame turn nick r.getPlayfieldString := by
  obtain ⟨nick, hnick, h₁⟩ := bind_eq_ok.1 h
  obtain ⟨pf, hpf, h₂⟩ := bind_eq_ok.1 h₁
  obtain ⟨r, hr, hnick⟩ := bind_eq_ok.1 hnick
  obtain ⟨r', hr', hpf⟩ := bind_eq_ok.1 hpf
  obtain rfl : r = r' := Except.ok.inj (hr.symm.trans hr')
  cases hpf
  cases h₂
  refine ⟨r, _, nick, lobby_deref_eq_ok.1 hr, ?_, ?_, rfl⟩
  · split_ifs
    · exact Or.inl rfl
    · exact Or.inr rfl
  · split_ifs at hnick
    · exact Or.inr (Except.ok.inj hnick).symm
    · exact Or.inl (Except.ok.inj hnick).symm

/-- The client `c` is told of a game, and the board it is told is that of its room. -/
def TellsBoard (m : ClientManager) (c : Client) (msg : Text) : Prop :=
  ∃ turn nick board, msg = backInGame turn nick board ∧
    (turn = SC_TURN_YOU ∨ turn = SC_TURN_OPN) ∧ board.length = 121 ∧
    (∀ b ∈ board, b.isDigit = true) ∧ (∃ r ∈ m.lobby.games, r.roomId = c.roomId) ∧
    ∀ r ∈ m.lobby.games, r.roomId = c.roomId → ∀ q, fieldAt board q = some (r.pf q)

theorem tellsBoard (hb : s.world.Base) {c : Client} {msg : Text}
    (h : s.mngClient.composeMsgInGameRecn c = .ok msg) : TellsBoard s.mngClient c msg := by
  obtain ⟨r, turn, nick, hr, hturn, -, rfl⟩ := composeMsgInGameRecn_cases h
  have hid := room_of_getRoomById hr
  refine ⟨turn, nick, _, rfl, hturn, r.length_getPlayfieldString, r.isDigit_getPlayfieldString,
    ⟨r, List.mem_of_getElem? hr, hid⟩, fun r' hr' hid' q => ?_⟩
  -- the room found is the only one with its id
  obtain rfl : r' = r := hb.ids.eq_of_mem hr' (List.mem_of_getElem? hr) rfl
    (congrArg some (hid.trans hid'.symm))
  exact r'.fieldAt_getPlayfieldString q

theorem conforms_composeMsgInGameRecn {m : ClientManager} {c : Client} {msg : Text}
    (hspelled : m.PlayersSpelled) (hcol : ∀ r ∈ m.lobby.games, Hall.Coloured r)
    (h : m.composeMsgInGameRecn c = .ok msg) : Conforms msg := by
  obtain ⟨r, turn, nick, hr, hturn, hnick, rfl⟩ := composeMsgInGameRecn_cases h
  have hmem := List.mem_of_getElem? hr
  obtain ⟨hblack, hwhite⟩ := hspelled r hmem
  have hr := hcol r hmem
  unfold Hall.Coloured at hr
  have hn : nick.Spelled := by
    rcases hr with ⟨hb, hw⟩ | ⟨hb, hw⟩
    · rcases hnick with rfl | rfl
      · exact hb ▸ hblack
      · exact hw ▸ hwhite
    · rcases hnick with rfl | rfl
      · exact hw ▸ hwhite
      · exact hb ▸ hblack
  exact .inGameRecn hturn hn r.length_getPlayfieldString r.isDigit_getPlayfieldString

/-- **What the clients are sent.**  In every run the board in a message to a client that is back in
its game is the board of its room.  In a run that has paired named clients only, the messages of
the next step conform to the client regex iff the step pairs named clients only. -/
theorem frames_conform_iff (h : Server.Reachable clients rooms fd s)
    (hstep : server.Step s l s') :
    (∀ p ∈ s'.mngClient.sent, SC_RESP_RECN ++ OP_SEP ++ SC_IN_GAME <+: p.2 →
      ∃ c, s'.mngClient.clients[p.1]? = some c ∧ TellsBoard s'.mngClient c p.2) ∧
    (server.ReachableIf PairsNamed (create clients rooms fd) s →
      ((∀ p ∈ s'.mngClient.sent, Conforms p.2) ↔ s.PairsNamed l)) := by
  have h' : Server.Reachable clients rooms fd s' := h.tail trivial hstep
  by_cases hl : l = .pair
  · subst hl
    obtain ⟨m, hm, rfl⟩ := manage_eq_ok.1 hstep.2
    have hsent : m.sent = gameMsgs (nickAt s.mngClient.clients)
        (readyPositions s.mngClient.clients 0) :=
      sent_pairLoop (m := s.clearSent.mngClient) (by omega) hm
    change (∀ p ∈ m.sent, _ → _) ∧ (_ → ((∀ p ∈ m.sent, _) ↔ _))
    rw [hsent]
    refine ⟨fun p hp hback => absurd hback (gameMsgs_not_inGameRecn p hp), fun _ => ?_⟩
    exact forall_gameMsgs_conforms h.named.nickAt _
  · have htold := server_step_told hstep hl
    refine ⟨fun p hp hback => ?_, fun hrun => ?_⟩
    · rcases htold p hp with hplain | ⟨c, hc, hmsg⟩
      · exact absurd hback hplain.not_inGameRecn
      · exact ⟨c, hc, tellsBoard h'.base hmsg⟩
    · have hpairs : s.PairsNamed l := by
        cases l with
        | pair => exact absurd rfl hl
        | accept | frame | close | kick | flags | ping | shutdown => exact trivial
      have hspelled := spelled_of_reachableIf (hrun.tail hpairs hstep)
      refine iff_of_true (fun p hp => ?_) hpairs
      rcases htold p hp with hplain | ⟨c, -, hmsg⟩
      · exact hplain.conforms
      · exact conforms_composeMsgInGameRecn hspelled h'.coloured hmsg

/-- A player whose connection was closed comes back to its game. -/
theorem frames_conform_reconnect : ∃ s s', server.ReachableIf PairsNamed (create 10 5 3) s ∧
    server.Step s (.frame 2 (.connect alice)) s' ∧
    (∃ p ∈ s'.mngClient.sent, SC_RESP_RECN ++ OP_SEP ++ SC_IN_GAME <+: p.2) ∧
    (∀ p ∈ s'.mngClient.sent, SC_RESP_RECN ++ OP_SEP ++ SC_IN_GAME <+: p.2 →
      ∃ c, s'.mngClient.clients[p.1]? = some c ∧ TellsBoard s'.mngClient c p.2) ∧
    ((∀ p ∈ s'.mngClient.sent, Conforms p.2) ↔ s.PairsNamed (.frame 2 (.connect alice))) := by
  have hrun : (server.replay PairsNamed (create 10 5 3)
      (firstGame ++ [.close 0, .accept "10.0.0.4".toList 6])).any (fun s =>
        decide (server.guard s (.frame 2 (.connect alice))) &&
          (server.exec s (.frame 2 (.connect alice))).toOption.any fun s' =>
            decide (∃ p ∈ s'.mngClient.sent, SC_RESP_RECN ++ OP_SEP ++ SC_IN_GAME <+: p.2)) =
        true := by
    decide +kernel
  obtain ⟨s, s', hs, hstep, ht⟩ := System.exists_step hrun
  have hconform := frames_conform_iff hs.reachable hstep
  exact ⟨s, s', hs, hstep, of_decide_eq_true ht, hconform.1, hconform.2 hs⟩

/-- Two clients without a name are told that they play against each other. -/
theorem nameless_game_told : ∃ s s', Server.Reachable 10 5 3 s ∧ server.Step s .pair s' ∧
    s'.mngClient.sent = [(0, "ig,ty,on:".toList), (1, "ig,to,on:".toList)] ∧
      ¬ ∀ p ∈ s'.mngClient.sent, Conforms p.2 := by
  have hrun : (server.replay (fun _ _ => True) (create 10 5 3) unnamedReady).any (fun s =>
      decide (server.guard s .pair) && (server.exec s .pair).toOption.any fun s' =>
        decide (s'.mngClient.sent = [(0, "ig,ty,on:".toList), (1, "ig,to,on:".toList)] ∧
          ¬ ∀ p ∈ s'.mngClient.sent, Conforms p.2)) = true := by
    decide +kernel
  obtain ⟨s, s', hs, hstep, ht⟩ := System.exists_step hrun
  exact ⟨s, s', hs, hstep, of_decide_eq_true ht⟩

end Server

end HnefServer
