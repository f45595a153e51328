import HnefServer.Invariant.Steps

/-!
# The turn

The turn is kept twice: by the nicks in the room and by the states of its two players.
`Hall.Turns` says that the two agree.  Every change of a strictly orderly run keeps it
(`Hall.Turns.change`): the turn passes with a move only.
-/

namespace HnefServer

open ClientManager

namespace Hall

open Client

/-- If the client `c` is a player of the room `r`, it is in the state the room says. -/
structure InRole (r : RoomHnefatafl) (c : Client) : Prop where
  turn : c.nick = r.onTurn → c.logical = .playingOnTurn
  stand : c.nick = r.onStand → c.logical = .playingOnStand

/-- The rooms and the states of the clients agree on the turn. -/
def Turns (h : Hall) : Prop := ∀ r ∈ h.lobby.games, ∀ c ∈ h.clients, InRole r c

section Turns

variable {h h' : Hall} {i j : ℕ} {c c' d : Client} {f g : Client → Client} {r : RoomHnefatafl}

/-- A client that a room lists is in this room. -/
theorem Member.roomId_of_player (hm : h.Member) (hr : r ∈ h.lobby.games) (hc : c ∈ h.clients)
    (hn : c.nick = r.onTurn ∨ c.nick = r.onStand) : c.nick ≠ [] ∧ c.roomId = r.roomId := by
  obtain ⟨ht, hs⟩ := hm.arranged.seated ⟨r, hr, rfl, rfl, rfl⟩
  rcases hn with hn | hn
  · rw [← hn] at ht
    exact ⟨ht.1, hm.arranged.sits_unique ⟨ht.1, c, hc, rfl, rfl⟩ ht⟩
  · rw [← hn] at hs
    exact ⟨hs.1, hm.arranged.sits_unique ⟨hs.1, c, hc, rfl, rfl⟩ hs⟩

/-- A client that no room lists has no role. -/
theorem InRole.of_not_player (hn : ¬ (c.nick = r.onTurn ∨ c.nick = r.onStand)) : InRole r c :=
  ⟨fun ht => absurd (Or.inl ht) hn, fun hs => absurd (Or.inr hs) hn⟩

/-- A client in the lobby has no role. -/
theorem Member.inRole_of_lobby (hm : h.Member) (hr : r ∈ h.lobby.games) (hc : c ∈ h.clients)
    (hroom : c.roomId = 0) : InRole r c := by
  refine .of_not_player fun hn => ?_
  have hid := (hm.roomId_of_player hr hc hn).2
  exact hm.arranged.zero ⟨r, hr, hid.symm.trans hroom, rfl, rfl⟩

theorem InRole.congr (h : InRole r c) (hn : c'.nick = c.nick) (hlog : c'.logical = c.logical) :
    InRole r c' := ⟨fun ht => hlog ▸ h.turn (hn ▸ ht), fun hs => hlog ▸ h.stand (hn ▸ hs)⟩

/-- Two clients get the roles of the two players of the room `r`: nobody else has one there. -/
theorem inRole_modify₂ (hm : h.Member) (hc : h.clients[i]? = some c) (hd : h.clients[j]? = some d)
    (hij : i ≠ j) (hcn : c.nick = r.onTurn) (hdn : d.nick = r.onStand) (hcne : c.nick ≠ [])
    (hdne : d.nick ≠ []) (hfn : (f c).nick = c.nick) (hgn : (g d).nick = d.nick)
    (hf : (f c).logical = .playingOnTurn) (hg : (g d).logical = .playingOnStand) :
    ∀ e ∈ (h.clients.modify i f).modify j g, InRole r e := by
  have hcd : c.nick ≠ d.nick := fun hn => hij (eq_of_nick hm.names hc hd hn hcne)
  intro e he
  rcases mem_modify₂ hc hd hij he with ⟨k, hki, hkj, hk⟩ | rfl | rfl
  · refine .of_not_player ?_
    rintro (ht | hs)
    · exact hki (eq_of_nick hm.names hc hk (hcn.trans ht.symm) hcne).symm
    · exact hkj (eq_of_nick hm.names hd hk (hdn.trans hs.symm) hdne).symm
  · refine ⟨fun _ => hf, fun hs => ?_⟩
    rw [hfn, ← hdn] at hs
    exact absurd hs hcd
  · refine ⟨fun ht => ?_, fun _ => hg⟩
    rw [hgn, ← hcn] at ht
    exact absurd ht.symm hcd

/-- **Every change of a strictly orderly run keeps the agreement on the turn.** -/
theorem Turns.change (hm : h.Member) (ht : h.Turns) (hst : Change true h h') : h'.Turns := by
  have hm' := hm.change hst
  cases hst with
  | client i c f hc hf hrole =>
    intro r hr e he
    rcases mem_modify he with ⟨k, -, hk⟩ | ⟨c', hc', rfl⟩
    · exact ht r hr e (List.mem_of_getElem? hk)
    · obtain rfl : c = c' := Option.some.inj (hc.symm.trans hc')
      by_cases hroom : c.roomId = 0
      · exact hm'.inRole_of_lobby hr he (hf.room.trans hroom)
      · exact (ht r hr c (List.mem_of_getElem? hc)).congr hf.nick (hrole rfl hroom)
  | name i c f hc hroom hok hroom' hne hfree =>
    intro r hr e he
    rcases mem_modify he with ⟨k, -, hk⟩ | ⟨c', hc', rfl⟩
    · exact ht r hr e (List.mem_of_getElem? hk)
    · obtain rfl : c = c' := Option.some.inj (hc.symm.trans hc')
      exact hm'.inRole_of_lobby hr he hroom'
  | transfer i j c d f g hc hd hij hroom hne hok hn hx hlog hg hgn =>
    intro r hr e he
    rcases mem_modify₂ hc hd hij he with ⟨k, -, -, hk⟩ | rfl | rfl
    · exact ht r hr e (List.mem_of_getElem? hk)
    · exact (ht r hr d (List.mem_of_getElem? hd)).congr hn hlog
    · exact .of_not_player fun hp => (hm'.roomId_of_player hr he hp).1 hgn
  | drop i c hc hroom => exact fun r hr e he => ht r hr e (List.mem_of_mem_eraseIdx he)
  | join ip fd hfd =>
    intro r hr e he
    rcases List.mem_append.1 he with hmem | hnew
    · exact ht r hr e hmem
    · rw [List.mem_singleton.1 hnew] at he ⊢
      exact hm'.inRole_of_lobby hr he rfl
  | start i j c d f g hc hd hij hcroom hdroom hcn hdn hf hg hflog hglog =>
    intro r hr e he
    rcases List.mem_append.1 hr with hold | hnew
    · -- nobody plays in the new room and in an old one
      have hnew : e.roomId = h.lobby.roomsTotal + 1 → InRole r e := by
        intro hroom
        refine .of_not_player fun hp => ?_
        have hid := (hm'.roomId_of_player hr he hp).2
        have hle := hm.bound r hold
        omega
      rcases mem_modify₂ hc hd hij he with ⟨k, -, -, hk⟩ | rfl | rfl
      · exact ht r hold e (List.mem_of_getElem? hk)
      · exact hnew hf.room
      · exact hnew hg.room
    · rw [List.mem_singleton.1 hnew]
      exact inRole_modify₂ hm hc hd hij rfl rfl hcn hdn hf.nick hg.nick hflog hglog e he
  | reject k r r' hr hr' hturn hstand =>
    intro x hx e he
    rcases List.mem_or_eq_of_mem_set hx with hx | rfl
    · exact ht x hx e he
    · have hrole := ht r (List.mem_of_getElem? hr) e he
      exact ⟨fun h' => hrole.turn (h'.trans hturn), fun h' => hrole.stand (h'.trans hstand)⟩
  | turn k i j r r' c d f g hr hr' hturn hstand hc hd hij hcn hdn hf hg hflog hglog =>
    intro x hx e he
    have hmem := List.mem_of_getElem? hr
    obtain ⟨hcne, hcroom⟩ := hm.roomId_of_player hmem (List.mem_of_getElem? hc)
      (Or.inr (hcn.trans hturn))
    obtain ⟨hdne, hdroom⟩ := hm.roomId_of_player hmem (List.mem_of_getElem? hd)
      (Or.inl (hdn.trans hstand))
    rcases (mem_set (List.getElem?_eq_some_iff.1 hr).1).1 hx with rfl | ⟨n, hnk, hn⟩
    · exact inRole_modify₂ hm hc hd hij hcn hdn hcne hdne hf.nick hg.nick hflog hglog e he
    · -- the two players are not in another room
      have hother : x.roomId ≠ r.roomId := fun hid =>
        hnk (hm.ids n k x r r.roomId hn hr (congrArg some hid) rfl)
      rcases mem_modify₂ hc hd hij he with ⟨m, -, -, hm₁⟩ | rfl | rfl
      · exact ht x (List.mem_of_getElem? hn) e (List.mem_of_getElem? hm₁)
      · refine .of_not_player fun hp => hother ?_
        rw [← (hm'.roomId_of_player hx he hp).2, hf.room, hcroom]
      · refine .of_not_player fun hp => hother ?_
        rw [← (hm'.roomId_of_player hx he hp).2, hg.room, hdroom]
  | finish k i j r c d f g hr hc hd hij hn hf hg =>
    intro x hx e he
    rcases mem_modify₂ hc hd hij he with ⟨m, -, -, hm₁⟩ | rfl | rfl
    · exact ht x (List.mem_of_mem_eraseIdx hx) e (List.mem_of_getElem? hm₁)
    · exact hm'.inRole_of_lobby hx he hf.room
    · exact hm'.inRole_of_lobby hx he hg.room

end Turns

end Hall

/-- **The rooms and the states agree on the turn** in every state a strictly orderly run
reaches. -/
theorem Server.OrderlyReachable.turns {clients rooms : ℕ} {fd : ℤ} {s : Server}
    (h : Server.OrderlyReachable true clients rooms fd s) : s.hall.Turns := by
  have hboth : s.hall.Member ∧ s.hall.Turns :=
    System.ReachableIf.invariant (I := fun s : Server => s.hall.Member ∧ s.hall.Turns) h
      ⟨Hall.Member.create clients rooms fd, fun r hr => by cases hr⟩
      fun _ _ _ hs ho hst =>
        (server_step_changes hs.1 ho hst).invariant (fun _ _ hm ht hst => ht.change hm hst) hs.1
          hs.2
  exact hboth.2

end HnefServer
