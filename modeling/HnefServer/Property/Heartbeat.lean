import HnefServer.Invariant.Follow
import HnefServer.Invariant.Waiting

/-!
# Pings and pongs

An observer follows one client, by its descriptor, and accepts the runs in which this client
answers every ping it is sent with one pong, before the next round.  As long as the client gets
ready, and its turn is taken from it, only while it is accessible, neither a ping round nor a pong
changes its session.  A pong restores the kept state whatever the state is: after a request that
was handled between the ping and the pong it undoes this request.
-/

namespace HnefServer

open Protocol ClientManager

namespace Server

variable {clients rooms : ℕ} {fd k : ℤ} {s s' : Server} {i : ℕ} {l : Input}

/-! ### Clients that answer pings -/

/-- A ping round sends a ping to the client. -/
def Pings (c : Client) : Prop :=
  ¬ (c.state ≠ .new ∧ c.nick = [] ∧ c.socketNum > 0) ∧ c.state ≠ .lost ∧ c.state ≠ .disconnected

instance (c : Client) : Decidable (Pings c) :=
  inferInstanceAs (Decidable (¬ (_ ∧ _ ∧ _) ∧ _ ∧ _))

/-- The observer of the client with the descriptor `k`; it knows whether the client owes a pong.
A ping round comes after the pong has come, a pong only if it is owed, and while it is owed the
other frames of the client are ready, move, leave and chat frames. -/
def heartbeat (k : ℤ) (s : Server) : Input → Bool → Option Bool
  | .ping, owed =>
    if owed ∧ ∃ c ∈ s.mngClient.clients, c.socketNum = k then none
    else some (decide (∃ c ∈ s.mngClient.clients, c.socketNum = k ∧ Pings c))
  | .accept _ fd, owed => some (if fd = k then false else owed)
  | .frame i f, owed =>
    if ∃ c ∈ s.mngClient.clients[i]?, c.socketNum = k then
      match f with
      | .pong => if owed then some false else none
      | .ready | .move _ | .leave | .chat _ => some owed
      | .ping | .connect _ | .ok => if owed then none else some owed
    else some owed
  | .close _, owed | .kick _, owed | .flags _, owed | .pair, owed | .shutdown, owed => some owed

/-- While the client with the descriptor `k` is inaccessible, it does not get ready, and no move
takes the turn from it. -/
def Undisturbed (k : ℤ) (s : Server) : Input → Prop
  | .frame i .ready => ∀ c ∈ s.mngClient.clients[i]?, c.socketNum = k → c.state.inaccessible = false
  | .frame i (.move t) => ∀ c ∈ s.mngClient.clients[i]?,
      ∀ r ∈ s.mngClient.lobby.games[s.mngClient.lobby.getRoomById c.roomId]?, MoveMade r t.text →
        ∀ d ∈ s.mngClient.clients[s.mngClient.findClientByNick r.onTurn]?, d.socketNum = k →
          d.state.inaccessible = false
  | _ => True

instance (k : ℤ) (s : Server) : (l : Input) → Decidable (s.Undisturbed k l)
  | .frame i .ready => inferInstanceAs (Decidable (∀ c ∈ s.mngClient.clients[i]?, _ → _))
  | .frame i (.move t) => inferInstanceAs (Decidable (∀ c ∈ s.mngClient.clients[i]?,
      ∀ r ∈ s.mngClient.lobby.games[s.mngClient.lobby.getRoomById c.roomId]?, MoveMade r t.text →
        ∀ d ∈ s.mngClient.clients[s.mngClient.findClientByNick r.onTurn]?, _ → _))
  | .frame _ .ping | .frame _ .pong | .frame _ (.connect _) | .frame _ .leave | .frame _ .ok
  | .frame _ (.chat _) | .accept _ _ | .close _ | .kick _ | .flags _ | .pair | .ping
  | .shutdown => isTrue trivial

/-- A state of the server with what the observer of the descriptor `k` knows, reached by a run
that leaves the client undisturbed. -/
def Observed (k : ℤ) (clients rooms : ℕ) (fd : ℤ) (p : Server × Bool) : Prop :=
  (server.observe (heartbeat k)).ReachableIf (fun p l => p.1.Undisturbed k l)
    (create clients rooms fd, false) p

/-- The client `c'` has the session of `c`. -/
structure SameSession (c c' : Client) : Prop where
  logical : c'.logical = c.logical
  nick : c'.nick = c.nick
  room : c'.roomId = c.roomId

/-! ### A client that owes a pong is inaccessible -/

theorem pinged_keeps (c : Client) :
    SameSession c (pinged c) ∧ (pinged c).socketNum = c.socketNum := by
  have hping : ∀ s : State, s.inaccessible = true →
      SameSession c (c.setState s) ∧ (c.setState s).socketNum = c.socketNum := fun s hs =>
    ⟨⟨Client.logical_setState_of_inaccessible hs, rfl, rfl⟩, rfl⟩
  unfold pinged
  split_ifs
  · exact ⟨⟨rfl, rfl, rfl⟩, rfl⟩
  cases c.state with
  | pinged => exact hping _ rfl
  | lost => exact ⟨⟨rfl, rfl, rfl⟩, rfl⟩
  | disconnected =>
    dsimp only [countDown]
    split_ifs <;> exact ⟨⟨rfl, rfl, rfl⟩, rfl⟩
  | new | waiting | ready | playingOnTurn | playingOnStand => exact hping _ rfl

theorem pinged_inaccessible {c : Client} (h : Pings c) : (pinged c).state.inaccessible = true := by
  obtain ⟨hnamed, hlost, hdisc⟩ := h
  rw [pinged, if_neg hnamed]
  cases hs : c.state with
  | lost => exact absurd hs hlost
  | disconnected => exact absurd hs hdisc
  | pinged | new | waiting | ready | playingOnTurn | playingOnStand => rfl

theorem waits_pings (hb : s.world.Base) (hk : 0 ≤ k) (hs' : s'.mngClient.clients =
    s.mngClient.clients.map pinged) (hp : ∃ c ∈ s.mngClient.clients, c.socketNum = k ∧ Pings c) :
    Waits k s'.mngClient.clients := by
  obtain ⟨c, hc, hck, hping⟩ := hp
  rw [hs']
  intro e he hek
  obtain ⟨d, hd, rfl⟩ := List.mem_map.1 he
  rw [(pinged_keeps d).2] at hek
  -- there is one client with the descriptor
  obtain rfl : c = d := hb.socks.eq_of_mem hc hd (Client.sockKey_eq_some.2 ⟨hck, hk⟩)
    (Client.sockKey_eq_some.2 ⟨hek, hk⟩)
  exact pinged_inaccessible hping

/-- What the observer knows after a frame, if the pong is still owed. -/
theorem heartbeat_frame {f : Frame} {c : Client} (hc : s.mngClient.clients[i]? = some c)
    {owed owed' : Bool} (hnext : heartbeat k s (.frame i f) owed = some owed')
    (ho : owed' = true) :
    owed = true ∧ (c.socketNum = k → f = .ready ∨ f.ofPlayer = true) := by
  subst ho
  by_cases hck : c.socketNum = k
  · have hown : ∃ c ∈ s.mngClient.clients[i]?, c.socketNum = k := ⟨c, hc, hck⟩
    simp only [heartbeat, hown, if_true] at hnext
    cases f with
    | pong =>
      dsimp only at hnext
      split_ifs at hnext
      cases hnext
    | ready => exact ⟨Option.some.inj hnext, fun _ => Or.inl rfl⟩
    | move t => exact ⟨Option.some.inj hnext, fun _ => Or.inr rfl⟩
    | leave => exact ⟨Option.some.inj hnext, fun _ => Or.inr rfl⟩
    | chat msg => exact ⟨Option.some.inj hnext, fun _ => Or.inr rfl⟩
    | ping | connect | ok =>
      dsimp only at hnext
      split_ifs at hnext with howed
      exact absurd (Option.some.inj hnext) howed
  · have hother : ¬ ∃ c ∈ s.mngClient.clients[i]?, c.socketNum = k := by
      rintro ⟨d, hd, hdk⟩
      obtain rfl : c = d := Option.some.inj (hc.symm.trans hd)
      exact hck hdk
    simp only [heartbeat, hother, if_false] at hnext
    exact ⟨Option.some.inj hnext, fun hk => absurd hk hck⟩

/-- **A client that owes a pong is inaccessible**, whatever the other clients do. -/
theorem waits_step (hk : 0 ≤ k) (hb : s.world.Base) {owed owed' : Bool}
    (hw : owed = true → Waits k s.mngClient.clients) (hund : s.Undisturbed k l)
    (hstep : server.Step s l s') (hnext : heartbeat k s l owed = some owed') (ho : owed' = true) :
    Waits k s'.mngClient.clients := by
  obtain ⟨hguard, hexec⟩ := hstep
  change s.clearSent.handle l = .ok s' at hexec
  change owed = true → Waits k s.clearSent.mngClient.clients at hw
  cases l with
  | accept ip fd =>
    obtain ⟨hfd, howed⟩ : fd ≠ k ∧ owed = true := by
      by_cases hfd : fd = k
      · simp only [heartbeat, hfd, if_true, Option.some.injEq] at hnext
        rw [ho] at hnext
        cases hnext
      · simp only [heartbeat, hfd, if_false, Option.some.injEq] at hnext
        exact ⟨hfd, hnext.trans ho⟩
    exact (Waits.preserving hk).checkCapacity hexec (Waits.acceptConnection hfd (hw howed))
  | frame i f =>
    obtain ⟨c, m, b, hc, rfl, ⟨-, rfl⟩ | ⟨hacc, hserve⟩⟩ := frame_cases hexec
    · exact hw (heartbeat_frame hc hnext ho).1
    obtain ⟨howed, hown⟩ := heartbeat_frame hc hnext ho
    refine Waits.serveFrame (hw howed) (fun hf => ?_) ?_ hserve
    · rintro d hd hdk
      obtain rfl : c = d := Option.some.inj (hc.symm.trans hd)
      rcases hown hdk with rfl | hplayer
      · have hacc' := hund c hc hdk
        rw [hw howed c (List.mem_of_getElem? hc) hdk] at hacc'
        cases hacc'
      · rw [hf] at hplayer
        cases hplayer
    · rintro t rfl d hd r r' hr hproc e he hek
      have hacc' := hund d hd r hr ⟨r', hproc⟩ e he hek
      rw [hw howed e (List.mem_of_getElem? he) hek] at hacc'
      cases hacc'
  | close i =>
    obtain rfl := Option.some.inj hnext
    exact Waits.closeConnection hk hexec (hw ho)
  | kick i =>
    obtain rfl := Option.some.inj hnext
    exact (Waits.preserving hk).kick hexec (hw ho)
  | flags i =>
    obtain rfl := Option.some.inj hnext
    exact (Waits.preserving hk).processFlags hexec (hw ho)
  | pair =>
    obtain rfl := Option.some.inj hnext
    obtain ⟨m, hm, rfl⟩ := manage_eq_ok.1 hexec
    exact Waits.pairLoop (hw ho) hm
  | ping =>
    obtain ⟨m, hm, rfl⟩ := manage_eq_ok.1 hexec
    simp only [heartbeat] at hnext
    split_ifs at hnext
    rw [Option.some.injEq, ho, decide_eq_true_eq] at hnext
    exact waits_pings hb hk (pingClients_spec hm).1 hnext
  | shutdown =>
    obtain rfl := Option.some.inj hnext
    obtain ⟨s₁, hs₁, h₁⟩ := bind_eq_ok.1 hexec
    cases h₁
    have hclosed := (Waits.preserving hk).closeClientSockets hs₁ (hw ho)
    exact hclosed

variable {p p' : Server × Bool}

/-- The observer does not add states to those the server can reach. -/
theorem Observed.reachable (h : Observed k clients rooms fd p) :
    Server.Reachable clients rooms fd p.1 :=
  System.reachable_of_observe h

/-- A client that owes a pong is inaccessible. -/
theorem Observed.waits (hk : 0 ≤ k) (h : Observed k clients rooms fd p) :
    p.2 = true → Waits k p.1.mngClient.clients := by
  induction h with
  | refl => exact nofun
  | tail hrun hst ih =>
    obtain ⟨l, hund, hst⟩ := hst
    obtain ⟨hstep, hnext⟩ := System.observe_step.1 hst
    exact waits_step hk (Observed.reachable hrun).base ih hund hstep hnext

/-- **Heartbeat transparency.**  In every run in which the client with the descriptor `k` answers
its pings and is left undisturbed while it is inaccessible, neither a ping round nor a pong
changes its logical state, its nick or its room. -/
theorem heartbeat_transparent (hk : 0 ≤ k) (h : Observed k clients rooms fd p)
    (hl : l = .ping ∨ ∃ j, l = .frame j .pong) (hstep : (server.observe (heartbeat k)).Step p l p')
    {c : Client} (hc : p.1.mngClient.clients[i]? = some c) (hck : c.socketNum = k) :
    ∃ c', p'.1.mngClient.clients[i]? = some c' ∧ SameSession c c' := by
  have hb := h.reachable.base
  have hw := h.waits hk
  obtain ⟨hst, hnext⟩ := System.observe_step.1 hstep
  rcases hl with rfl | ⟨j, rfl⟩
  · obtain ⟨m, hm, hs'⟩ := manage_eq_ok.1 hst.2
    rw [← hs']
    refine ⟨pinged c, ?_, (pinged_keeps c).1⟩
    change m.clients[i]? = _
    rw [(pingClients_spec hm).1, List.getElem?_map]
    exact congrArg (Option.map pinged) hc
  · obtain ⟨d, m, b, hd, hs', ⟨hacc, -⟩ | ⟨-, hserve⟩⟩ := frame_cases hst.2
    · cases hacc
    cases hserve
    rw [hs']
    change ∃ c', (p.1.mngClient.clients.modify j fun c => c.setState c.stateLast)[i]? = some c' ∧ _
    by_cases hij : j = i
    · subst hij
      -- the pong was owed, so the client is inaccessible
      have howed : p.2 = true := by
        have hown : ∃ c ∈ p.1.mngClient.clients[j]?, c.socketNum = k := ⟨c, hc, hck⟩
        simp only [heartbeat, hown, if_true] at hnext
        split_ifs at hnext with howed
        exact howed
      have hinacc := hw howed c (List.mem_of_getElem? hc) hck
      have hlast := (hb.sound c (List.mem_of_getElem? hc)).last
      refine ⟨c.setState c.stateLast, by rw [List.getElem?_modify_eq, hc]; rfl, ?_, rfl, rfl⟩
      rw [Client.logical_setState hlast, Client.logical_of_inaccessible hinacc]
    · rw [List.getElem?_modify_ne _ _ hij, hc]
      exact ⟨c, rfl, rfl, rfl, rfl⟩

/-- A player on turn is pinged and answers. -/
theorem heartbeat_transparent_firstGame : ∃ (p p' : Server × Bool) (c : Client),
    Observed 4 10 5 3 p ∧ (server.observe (heartbeat 4)).Step p (.frame 0 .pong) p' ∧
      p.1.mngClient.clients[0]? = some c ∧ c.logical = .playingOnTurn ∧
      ∃ c', p'.1.mngClient.clients[0]? = some c' ∧ SameSession c c' := by
  have hrun : ((server.observe (heartbeat 4)).replay (fun p l => p.1.Undisturbed 4 l)
      (create 10 5 3, false) (firstGame ++ [.ping])).any (fun p =>
        decide ((server.observe (heartbeat 4)).guard p (.frame 0 .pong)) &&
          ((server.observe (heartbeat 4)).exec p (.frame 0 .pong)).toOption.any fun _ =>
            (p.1.mngClient.clients[0]?).any fun c =>
              decide (c.socketNum = 4 ∧ c.logical = .playingOnTurn)) = true := by
    decide +kernel
  obtain ⟨p, p', hp, hstep, ht⟩ := System.exists_step hrun
  obtain ⟨c, hc, ht⟩ := (Option.any_eq_true _ _).1 ht
  obtain ⟨hsock, hlog⟩ := of_decide_eq_true ht
  exact ⟨p, p', c, hp, hstep, hc, hlog,
    heartbeat_transparent (by decide) hp (Or.inr ⟨0, rfl⟩) hstep hc hsock⟩

/-- A client gets ready after it was pinged; its pong undoes this. -/
theorem pong_undoes_ready : ∃ (p p' : Server × Bool) (c c' : Client),
    (server.observe (heartbeat 4)).Reachable (create 10 5 3, false) p ∧
      (server.observe (heartbeat 4)).Step p (.frame 0 .pong) p' ∧
      p.1.mngClient.clients[0]? = some c ∧ c.socketNum = 4 ∧
      p'.1.mngClient.clients[0]? = some c' ∧ ¬ SameSession c c' := by
  have hrun : ((server.observe (heartbeat 4)).replay (fun _ _ => True) (create 10 5 3, false)
      [.accept "10.0.0.4".toList 4, .frame 0 (.connect alice), .ping, .frame 0 .ready]).any
      (fun p => decide ((server.observe (heartbeat 4)).guard p (.frame 0 .pong)) &&
        ((server.observe (heartbeat 4)).exec p (.frame 0 .pong)).toOption.any fun p' =>
          (p.1.mngClient.clients[0]?).any fun c => (p'.1.mngClient.clients[0]?).any fun c' =>
            decide (c.socketNum = 4 ∧ c'.logical ≠ c.logical)) = true := by
    decide +kernel
  obtain ⟨p, p', hp, hstep, ht⟩ := System.exists_step hrun
  obtain ⟨c, hc, ht⟩ := (Option.any_eq_true _ _).1 ht
  obtain ⟨c', hc', ht⟩ := (Option.any_eq_true _ _).1 ht
  obtain ⟨hsock, hlog⟩ := of_decide_eq_true ht
  exact ⟨p, p', c, c', hp, hstep, hc, hsock, hc', fun h => hlog h.logical⟩

end Server

end HnefServer
