import HnefServer.Invariant.Follow
import HnefServer.Property.Reconnect
import HnefServer.Property.Turns

/-!
# Presence

A client is Disconnected iff it has no socket (`Client.Present`), as long as no move is made
whose player on turn is Disconnected: such a move writes the state of this player without looking
at it.  `presence_iff` says so for all runs, and that an instance without a socket stays
Disconnected, on the countdown of the ping rounds.
-/

namespace HnefServer

open Protocol ClientManager

/-- A client is Disconnected iff it has no socket. -/
def Client.Present (c : Client) : Prop := c.state = .disconnected ↔ c.socketNum < 0

namespace Server

variable {clients rooms : ℕ} {fd : ℤ} {s s' : Server} {i : ℕ} {c c' d : Client} {l : Input}
  {n : Nick}

/-- What the instance `c`, if it has no socket, is after the step `l`: Disconnected, without a
socket, and further on the countdown if the step is a ping round. -/
def StaysAway (l : Input) (c c' : Client) : Prop :=
  c.socketNum < 0 → c'.socketNum < 0 ∧ c'.state = .disconnected ∧ (l = .ping → c' = countDown c)

theorem present_pinged (h : c.Present) : (pinged c).Present ∧ StaysAway .ping c (pinged c) := by
  unfold pinged
  split_ifs with hunnamed
  · exact ⟨h, fun hneg => absurd hneg (by omega)⟩
  have hping : ∀ s : State, s ≠ .disconnected → c.state ≠ .disconnected →
      (c.setState s).Present ∧ StaysAway .ping c (c.setState s) := fun s hs hc =>
    ⟨⟨fun hd => absurd hd hs, fun hneg => absurd (h.2 hneg) hc⟩, fun hneg => absurd (h.2 hneg) hc⟩
  cases hs : c.state with
  | disconnected =>
    have hkept : (countDown c).state = c.state ∧ (countDown c).socketNum = c.socketNum := by
      unfold countDown
      dsimp only
      split_ifs
      · exact ⟨rfl, rfl⟩
      · exact ⟨rfl, rfl⟩
    refine ⟨?_, fun hneg => ⟨hkept.2 ▸ hneg, hkept.1.trans hs, fun _ => rfl⟩⟩
    rw [Client.Present, hkept.1, hkept.2]
    exact h
  | lost => exact ⟨h, fun hneg => by simp [h.2 hneg] at hs⟩
  | pinged | new | waiting | ready | playingOnTurn | playingOnStand =>
    exact hping _ (by decide) (by simp [hs])

/-- A connect request is one of a client that has a socket. -/
theorem present_connect (hb : s.world.Base) (hp : ∀ c ∈ s.mngClient.clients, c.Present)
    (hstep : server.Step s (.frame i (.connect n)) s') :
    List.Forall₂ (fun c c' => c'.Present ∧ StaysAway (.frame i (.connect n)) c c')
      s.mngClient.clients s'.mngClient.clients := by
  obtain ⟨-, a, ha, hsock⟩ := hstep.1
  have hsame : ∀ c ∈ s.mngClient.clients,
      c.Present ∧ StaysAway (.frame i (.connect n)) c c := fun c hc =>
    ⟨hp c hc, fun hneg => ⟨hneg, (hp c hc).2 hneg, nofun⟩⟩
  -- the requester gets a state that is not Disconnected, and keeps its socket
  have hset : ∀ f : Client → Client, (f a).state ≠ .disconnected → (f a).socketNum = a.socketNum →
      List.Forall₂ (fun c c' => c'.Present ∧ StaysAway (.frame i (.connect n)) c c')
        s.mngClient.clients (s.mngClient.clients.modify i f) := by
    intro f hf hfs
    refine forall₂_modify_right (List.forall₂_same.2 hsame) fun c c' hc hc' _ => ?_
    obtain rfl : a = c := Option.some.inj (ha.symm.trans hc)
    obtain rfl : a = c' := Option.some.inj (ha.symm.trans hc')
    exact ⟨⟨fun hd => absurd hd hf, fun hneg => by omega⟩, fun hneg => by omega⟩
  rcases connect_cases hb hstep with ⟨-, -, hcs, -⟩ | ⟨-, hcs, -⟩ | hrec
  · rw [hcs]
    exact hset (enter n.text) nofun rfl
  · rw [hcs]
    exact List.forall₂_same.2 hsame
  · cases hrec with
    | short j d hd hn hs hcs =>
      rw [hcs]
      refine hset _ (fun hgone => ?_) rfl
      have hlast := (hb.sound a (List.mem_of_getElem? ha)).last
      have hgone : a.stateLast = .disconnected := hgone
      simp [hgone, State.inaccessible] at hlast
    | long c j d hc hd hn hip hs hcs =>
      rw [hcs]
      refine forall₂_modify_right (hset (takeOver n.text d) (fun hgone => ?_) rfl)
        fun c c' _ _ h => ⟨h.1, fun hneg => ⟨(h.2 hneg).1, (h.2 hneg).2.1, nofun⟩⟩
      have hlast := (hb.sound d (List.mem_of_getElem? hd)).last
      have hgone : d.stateLast = .disconnected := hgone
      simp [hgone, State.inaccessible] at hlast

/-- A step that overwrites the state of no Disconnected player. -/
theorem present_step (hb : s.world.Base) (hp : ∀ c ∈ s.mngClient.clients, c.Present)
    (hmover : s.MoverPresent l) (hstep : server.Step s l s') :
    List.Forall₂ (fun c c' => c'.Present ∧ StaysAway l c c')
      (s.follow l Client.create s.mngClient.clients) s'.mngClient.clients := by
  by_cases hconnect : ∃ i n, l = .frame i (.connect n)
  · obtain ⟨i, n, rfl⟩ := hconnect
    exact present_connect hb hp hstep
  by_cases hping : l = .ping
  · subst hping
    obtain ⟨m, hm, rfl⟩ := manage_eq_ok.1 hstep.2
    change List.Forall₂ _ s.mngClient.clients m.clients
    rw [(pingClients_spec hm).1]
    exact List.forall₂_map_right_iff.2 (List.forall₂_same.2 fun c hc => present_pinged (hp c hc))
  · have hsame : List.Forall₂ (fun c c' => c = c' ∧ c.Present) s.mngClient.clients
        s.mngClient.clients := List.forall₂_same.2 fun c hc => ⟨rfl, hp c hc⟩
    have hbefore : List.Forall₂ (fun c c' => c = c' ∧ c.Present)
        (s.follow l Client.create s.mngClient.clients)
        (s.follow l Client.create s.mngClient.clients) := by
      refine follow_forall₂ hsame fun ip fd hfd => ⟨rfl, nofun, fun hneg => ?_⟩
      have hneg : fd < 0 := hneg
      omega
    have hfollow : AllFollowed true (s.follow l Client.create s.mngClient.clients)
        s'.mngClient.clients :=
      server_step_followed hb hstep (fun i n heq => hconnect ⟨i, n, heq⟩) hping fun _ => hmover
    refine forall₂_trans hbefore hfollow fun c c₁ c' ⟨heq, hc⟩ hc' => ?_
    subst heq
    rcases hc' with hkept | ⟨-, -, hsock, hgone⟩
    · have hpresent : c'.Present := by
        rw [Client.Present, hkept.gone rfl, hkept.sock]
        exact hc
      refine ⟨hpresent, fun hneg => ?_⟩
      have hneg' : c'.socketNum < 0 := hkept.sock ▸ hneg
      exact ⟨hneg', hpresent.2 hneg', fun h => absurd h hping⟩
    · exact ⟨⟨fun _ => hsock, fun _ => hgone⟩, fun _ => ⟨hsock, hgone, fun h => absurd h hping⟩⟩

/-- The client that hands over the turn stands by, whatever its state was. -/
theorem handedOver_stand {m : ClientManager} {a b : ℕ} {t : Text} (st : State)
    (hd : m.clients[b]? = some d) : ∃ e, (m.handedOver a b st t).clients[b]? = some e ∧
      e.socketNum = d.socketNum ∧ e.state = .playingOnStand := by
  refine ⟨(if a = b then handOver st d else d).setState .playingOnStand, ?_, ?_, rfl⟩
  · change ((m.clients.modify a (handOver st)).modify b (·.setState .playingOnStand))[b]? = _
    rw [List.getElem?_modify_eq, List.getElem?_modify, hd]
    rfl
  · change (if a = b then handOver st d else d).socketNum = d.socketNum
    split_ifs
    · exact handOver_sock st d
    · rfl

/-- A move that is made writes the state of the player who was on turn. -/
theorem not_present_of_move {t : Coordinates} {r : RoomHnefatafl}
    (hstep : server.Step s (.frame i (.move t)) s') (hc : s.mngClient.clients[i]? = some c)
    (hacc : (Frame.move t).acceptedIn c.state = true)
    (hr : s.mngClient.lobby.games[s.mngClient.lobby.getRoomById c.roomId]? = some r)
    (hmade : MoveMade r t.text)
    (hd : s.mngClient.clients[s.mngClient.findClientByNick r.onTurn]? = some d) :
    ∃ d', s'.mngClient.clients[s.mngClient.findClientByNick r.onTurn]? = some d' ∧
      d'.socketNum = d.socketNum ∧ d'.state ≠ .disconnected := by
  obtain ⟨c', m, b, hc', rfl, ⟨hrej, -⟩ | ⟨-, hserve⟩⟩ := frame_cases hstep.2
  · obtain rfl : c = c' := Option.some.inj (hc.symm.trans hc')
    rw [hacc] at hrej
    cases hrej
  obtain ⟨r', hproc⟩ := hmade
  obtain ⟨c₁, k, r₁, r₂, hc₁, rfl, hr₁, -, hcases⟩ := requestMove_outcome hserve
  obtain rfl : c = c₁ := Option.some.inj (hc.symm.trans hc₁)
  obtain rfl : r = r₁ := Option.some.inj (hr.symm.trans hr₁)
  rcases hcases with ⟨hrej, -⟩ | ⟨-, -, -, a, d₁, ha, hd₁, hover⟩
  · rw [hproc] at hrej
    cases hrej
  -- the player who was on turn stands by now
  obtain ⟨e, he, hsock, hstate⟩ := handedOver_stand (t := t.text)
    (m := s.clearSent.mngClient.putRoom (s.mngClient.lobby.getRoomById c.roomId) r₂)
    (a := s.mngClient.findClientByNick r.onStand) a.state hd
  rcases hover with ⟨-, rfl⟩ | ⟨-, hdestroy⟩
  · exact ⟨e, he, hsock, by simp [hstate]⟩
  · have hfreed : AllKept true _ m.clients := AllKept.destroyRoom hdestroy
    rw [clients_sendToClient, clients_sendToClient] at hfreed
    obtain ⟨d', hd', hkept⟩ := forall₂_exists_right hfreed he
    refine ⟨d', hd', hkept.sock.trans hsock, fun hgone => ?_⟩
    rw [hkept.gone rfl, hstate] at hgone
    cases hgone

theorem not_moverPresent (h : ¬ s.MoverPresent l) : ∃ i t, l = .frame i (.move t) ∧
    ∃ c, s.mngClient.clients[i]? = some c ∧ (Frame.move t).acceptedIn c.state = true ∧
      ∃ r, s.mngClient.lobby.games[s.mngClient.lobby.getRoomById c.roomId]? = some r ∧
        MoveMade r t.text ∧ ∃ d, s.mngClient.clients[s.mngClient.findClientByNick r.onTurn]? =
          some d ∧ d.state = .disconnected := by
  cases l with
  | frame i f =>
    cases f with
    | move t =>
      refine ⟨i, t, rfl, ?_⟩
      simp only [MoverPresent, not_forall, ne_eq, not_not, exists_prop] at h
      exact h
    | ping | pong | connect | ready | leave | chat | ok => exact absurd trivial h
  | accept | close | kick | flags | pair | ping | shutdown => exact absurd trivial h

/-- The clients are Disconnected iff they have no socket. -/
def AllPresent (s : Server) : Prop := ∀ c ∈ s.mngClient.clients, c.Present

/-- **Disconnected means no socket** in every run in which no move is made whose player on turn
is Disconnected, and no longer after such a move.  An instance without a socket stays Disconnected
without a socket, and every ping round counts it down. -/
theorem presence_iff (h : server.ReachableIf MoverPresent (create clients rooms fd) s) :
    s.AllPresent ∧ ∀ l s', server.Step s l s' → (s'.AllPresent ↔ s.MoverPresent l) ∧
      (s.MoverPresent l → List.Forall₂ (StaysAway l)
        (s.follow l Client.create s.mngClient.clients) s'.mngClient.clients) := by
  have hafter : ∀ {s s' : Server} {l : Input}, s.world.Base → s.AllPresent → s.MoverPresent l →
      server.Step s l s' → s'.AllPresent := by
    intro s s' l hb hall hmover hstep c' hc'
    obtain ⟨k, hk⟩ := List.mem_iff_getElem?.1 hc'
    obtain ⟨c, -, hpresent, -⟩ := forall₂_exists_left (present_step hb hall hmover hstep) hk
    exact hpresent
  have hall : s.AllPresent := by
    induction h with
    | refl => exact fun c hc => by cases hc
    | tail hrun hst ih =>
      obtain ⟨l, hmover, hst⟩ := hst
      exact hafter (Server.Reachable.base (System.ReachableIf.reachable hrun)) ih hmover hst
  have hb : s.world.Base := Server.Reachable.base (System.ReachableIf.reachable h)
  refine ⟨hall, fun l s' hstep => ⟨⟨fun hall' => ?_, fun hmover => hafter hb hall hmover hstep⟩,
    fun hmover => (present_step hb hall hmover hstep).imp fun _ _ hc => hc.2⟩⟩
  by_contra hmover
  obtain ⟨i, t, rfl, c, hc, hacc, r, hr, hmade, d, hd, hgone⟩ := not_moverPresent hmover
  obtain ⟨d', hd', hsock, hstate⟩ := not_present_of_move hstep hc hacc hr hmade hd
  refine hstate ((hall' d' (List.mem_of_getElem? hd')).2 ?_)
  rw [hsock]
  exact (hall d (List.mem_of_getElem? hd)).1 hgone

/-- A player whose connection was closed, and its opponent leaves the game. -/
theorem presence_firstGame : ∃ s : Server, s.mngClient.lobby.games = [] ∧
    ∃ c ∈ s.mngClient.clients, c.state = .disconnected ∧
    s.AllPresent ∧ ∀ l s', server.Step s l s' → (s'.AllPresent ↔ s.MoverPresent l) ∧
      (s.MoverPresent l → List.Forall₂ (StaysAway l)
        (s.follow l Client.create s.mngClient.clients) s'.mngClient.clients) := by
  have hrun : (server.replay MoverPresent (create 10 5 3)
      (firstGame ++ [.frame 0 (.move opening), .close 0, .frame 1 .leave])).any
      (fun s => decide (s.mngClient.lobby.games = [] ∧
        ∃ c ∈ s.mngClient.clients, c.state = .disconnected)) = true := by
    decide +kernel
  obtain ⟨s, hs, ht⟩ := System.exists_reachableIf hrun
  obtain ⟨hgames, c, hc, hstate⟩ := of_decide_eq_true ht
  exact ⟨s, hgames, c, hc, hstate, presence_iff hs⟩

/-- The player on turn is gone, and a move of its opponent, who was pinged, is made: the player is
on the server without a socket, but is not Disconnected. -/
theorem player_without_socket : ∃ (s : Server) (c : Client), Server.Reachable 10 5 3 s ∧
    c ∈ s.mngClient.clients ∧ ¬ (c.state = .disconnected ↔ c.socketNum < 0) := by
  have hrun : (server.replay (fun _ _ => True) (create 10 5 3)
      (firstGame ++ [.ping, .close 0, .frame 1 (.move opening)])).any
      (fun s => decide (∃ c ∈ s.mngClient.clients,
        ¬ (c.state = .disconnected ↔ c.socketNum < 0))) = true := by
    decide +kernel
  obtain ⟨s, hs, ht⟩ := exists_reachable hrun
  obtain ⟨c, hc, hnot⟩ := of_decide_eq_true ht
  exact ⟨s, c, hs, hc, hnot⟩

end Server

end HnefServer
