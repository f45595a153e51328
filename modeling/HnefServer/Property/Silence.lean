import HnefServer.Invariant.Follow
import HnefServer.Property.Reconnect

/-!
# Clients that do not respond

A round of the pinging thread gives a client up when it is Lost.  `not_responding_silent` says
what has happened before: two rounds, one right after the other, have tried to ping it, and since
the first of them it has not sent a ping or a pong that was handled.
-/

namespace HnefServer

open Protocol ClientManager

/-! ### What a round sends -/

/-- An instance without a name that a round removes. -/
def Client.Useless (c : Client) : Prop := c.state ≠ .new ∧ c.nick = [] ∧ c.socketNum > 0

/-- A round pings the client. -/
def Client.Due (c : Client) : Prop := ¬ c.Useless ∧ c.state ≠ .lost ∧ c.state ≠ .disconnected

namespace ClientManager

variable {m m' : ClientManager} {i k : ℕ} {c : Client}

theorem pingClient_sent (h : m.pingClient i = .ok m') :
    ∃ c msgs, m.clients[i]? = some c ∧ m'.sent = m.sent ++ msgs ∧
      (c.Due → (i, OP_PING) ∈ msgs) ∧
      ∀ j, (j, SC_KICK) ∈ msgs → j = i ∧ ¬ c.Useless ∧ c.state = .lost := by
  have hping : SC_KICK ≠ OP_PING := by decide
  have hlost : SC_KICK ≠ SC_OPN_LOST := by decide
  obtain ⟨c, hc, h₁⟩ := bind_eq_ok.1 h
  rw [deref_eq_ok] at hc
  by_cases hunnamed : c.state ≠ .new ∧ c.nick = [] ∧ c.socketNum > 0
  · rw [if_pos hunnamed] at h₁
    cases h₁
    exact ⟨c, [], hc, (List.append_nil _).symm, fun hdue => absurd hunnamed hdue.1, nofun⟩
  rw [if_neg hunnamed] at h₁
  by_cases hp : c.state = .pinged
  · rw [if_pos hp] at h₁
    obtain ⟨c', -, h₂⟩ := bind_eq_ok.1 h₁
    split_ifs at h₂
    · obtain ⟨-, n, -, -, rfl | rfl⟩ := sendToOpponentOf_cases h₂
      · exact ⟨c, [(i, OP_PING)], hc, rfl, fun _ => List.mem_cons_self, by simp [hping]⟩
      · refine ⟨c, [(i, OP_PING), (_, SC_OPN_LOST)], hc, List.append_assoc _ _ _,
          fun _ => List.mem_cons_self, by simp [hping, hlost]⟩
    · cases h₂
      exact ⟨c, [(i, OP_PING)], hc, rfl, fun _ => List.mem_cons_self, by simp [hping]⟩
  rw [if_neg hp] at h₁
  by_cases hl : c.state = .lost
  · rw [if_pos hl] at h₁
    cases h₁
    refine ⟨c, [(i, SC_KICK)], hc, rfl, fun hdue => absurd hl hdue.2.1, fun j hj => ?_⟩
    exact ⟨(Prod.mk.inj (List.mem_singleton.1 hj)).1, hunnamed, hl⟩
  rw [if_neg hl] at h₁
  by_cases hd : c.state = .disconnected
  · rw [if_pos hd] at h₁
    obtain ⟨c', -, h₂⟩ := bind_eq_ok.1 h₁
    refine ⟨c, [], hc, ?_, fun hdue => absurd hd hdue.2.2, nofun⟩
    split_ifs at h₂
    · cases h₂
      exact (List.append_nil _).symm
    · cases h₂
      exact (List.append_nil _).symm
  · rw [if_neg hd] at h₁
    cases h₁
    exact ⟨c, [(i, OP_PING)], hc, rfl, fun _ => List.mem_cons_self, by simp [hping]⟩

/-- A round pings all clients that are due, and kicks Lost ones only. -/
theorem pingLoop_sent (h : (List.range k).foldlM pingClient m = .ok m') :
    (∀ j c, m.clients[j]? = some c → j < k → c.Due → (j, OP_PING) ∈ m'.sent) ∧
      ∀ j, (j, SC_KICK) ∈ m'.sent → (j, SC_KICK) ∈ m.sent ∨
        ∃ c, m.clients[j]? = some c ∧ ¬ c.Useless ∧ c.state = .lost := by
  induction k generalizing m' with
  | zero =>
    cases h
    exact ⟨fun j c _ hj => absurd hj (Nat.not_lt_zero j), fun j hj => Or.inl hj⟩
  | succ k ih =>
    rw [List.range_succ, List.foldlM_append] at h
    obtain ⟨m₁, hm₁, h₁⟩ := bind_eq_ok.1 h
    obtain ⟨m₂, hm₂, h₂⟩ := bind_eq_ok.1 h₁
    cases h₂
    obtain ⟨hpings, hkicks⟩ := ih hm₁
    obtain ⟨c, msgs, hc, hsent, hping, hkick⟩ := pingClient_sent hm₂
    -- the client at `k` is as it was before the round
    have hc : m.clients[k]? = some c := by
      rw [(pingLoop_spec hm₁).1] at hc
      obtain ⟨a, ha, rfl⟩ := Option.map_eq_some_iff.1 hc
      rw [ha, if_neg (Nat.lt_irrefl k)]
    rw [hsent]
    refine ⟨fun j a ha hj hdue => ?_, fun j hj => ?_⟩
    · rcases Nat.lt_succ_iff_lt_or_eq.1 hj with hj | rfl
      · exact List.mem_append_left _ (hpings j a ha hj hdue)
      · obtain rfl : c = a := Option.some.inj (hc.symm.trans ha)
        exact List.mem_append_right _ (hping hdue)
    · rcases List.mem_append.1 hj with hj | hj
      · exact hkicks j hj
      · obtain ⟨rfl, hstate⟩ := hkick j hj
        exact Or.inr ⟨c, hc, hstate⟩

end ClientManager

/-! ### Histories -/

/-- What matters of a run for one client. -/
inductive Beat
  /-- A round in which the client was pinged. -/
  | attempt
  /-- A round in which it was not. -/
  | silent
  /-- A ping or a pong of the client was handled. -/
  | answer
  deriving DecidableEq

/-- Two rounds, one right after the other, have pinged the client, which has not answered since
the first of them.  The history has the latest event first. -/
def Unanswered (h : List Beat) : Prop :=
  ∃ since before, h = since ++ .attempt :: .attempt :: before ∧ .answer ∉ since

theorem Unanswered.cons {h : List Beat} {e : Beat} (hu : Unanswered h) (he : e ≠ .answer) :
    Unanswered (e :: h) := by
  obtain ⟨since, before, rfl, hsince⟩ := hu
  refine ⟨e :: since, before, rfl, ?_⟩
  rw [List.mem_cons, not_or]
  exact ⟨he.symm, hsince⟩

/-- What a round is in the history of the client at `i`. -/
def roundBeat (s' : Server) (i : ℕ) : Beat :=
  if (i, OP_PING) ∈ s'.mngClient.sent then .attempt else .silent

/-- The histories of the clients after a step. -/
def recordBeats (s : Server) (l : Input) (s' : Server) (hs : List (List Beat)) :
    List (List Beat) :=
  match l with
  | .ping => hs.mapIdx fun i h => roundBeat s' i :: h
  | .frame i .ping | .frame i .pong => hs.modify i (.answer :: ·)
  | _ => s.follow l (fun _ _ => []) hs

/-- What the history of a client says about its state. -/
structure Ladder (h : List Beat) (c : Client) : Prop where
  pinged : c.state = .pinged → (∃ before, h = .attempt :: before) ∨ c.nick = [] ∧ 0 < c.socketNum
  lost : c.state = .lost → Unanswered h

namespace Ladder

variable {h : List Beat} {c c' : Client}

theorem of_state (hp : c.state ≠ .pinged) (hl : c.state ≠ .lost) : Ladder h c :=
  ⟨fun hs => absurd hs hp, fun hs => absurd hs hl⟩

theorem of_accessible (hs : c.state.inaccessible = false) : Ladder h c := by
  refine of_state (fun hp => ?_) fun hl => ?_
  · simp [hp, State.inaccessible] at hs
  · simp [hl, State.inaccessible] at hs

/-- No step but a round puts a client on the ladder. -/
theorem followed (hl : Ladder h c) (hc : Server.Followed false c c') : Ladder h c' := by
  rcases hc with hkept | ⟨-, -, -, hgone⟩
  · refine ⟨fun hs => ?_, fun hs => ?_⟩
    · rw [hkept.nick, hkept.sock]
      exact hl.pinged ((hkept.ladder (Or.inl hs)).symm.trans hs)
    · exact hl.lost ((hkept.ladder (Or.inr hs)).symm.trans hs)
  · exact of_state (by simp [hgone]) (by simp [hgone])

/-- A round moves a client up the ladder. -/
theorem round {e : Beat} (hl : Ladder h c) (hdue : c.Due → e = .attempt) (he : e ≠ .answer) :
    Ladder (e :: h) (ClientManager.pinged c) := by
  unfold ClientManager.pinged
  split_ifs with huseless
  · -- an instance without a name stays where it is
    refine ⟨fun _ => Or.inr huseless.2, fun hs => ?_⟩
    exact (hl.lost hs).cons he
  have hattempt : c.state ≠ .lost → c.state ≠ .disconnected → e = .attempt :=
    fun hlost hgone => hdue ⟨huseless, hlost, hgone⟩
  cases hs : c.state with
  | pinged =>
    obtain rfl := hattempt (by simp [hs]) (by simp [hs])
    refine ⟨nofun, fun _ => ?_⟩
    rcases hl.pinged hs with ⟨before, rfl⟩ | hunnamed
    · exact ⟨[], before, rfl, List.not_mem_nil⟩
    · exact absurd ⟨by simp [hs], hunnamed⟩ huseless
  | lost =>
    refine ⟨fun hp => ?_, fun _ => (hl.lost hs).cons he⟩
    have hp : c.state = .pinged := hp
    rw [hs] at hp
    cases hp
  | disconnected =>
    have hstate : (countDown c).state = .disconnected := by
      unfold countDown
      dsimp only
      split_ifs <;> exact hs
    exact of_state (by simp [hstate]) (by simp [hstate])
  | new | waiting | ready | playingOnTurn | playingOnStand =>
    obtain rfl := hattempt (by simp [hs]) (by simp [hs])
    exact ⟨fun _ => Or.inl ⟨h, rfl⟩, nofun⟩

theorem expire (hl : Ladder h c) : Ladder h (expire c) :=
  ⟨fun hs => (hl.pinged hs).imp_right fun hc => ⟨rfl, hc.2⟩, fun hs => hl.lost hs⟩

end Ladder

/-- The histories say so of all clients. -/
abbrev AllLadder : List (List Beat) → List Client → Prop := List.Forall₂ Ladder

/-! ### Steps -/

namespace Server

variable {clients rooms : ℕ} {fd : ℤ} {s s' : Server} {i : ℕ} {l : Input} {hs : List (List Beat)}

/-- A ping or a pong that was handled has taken its client off the ladder. -/
theorem answered (hb : s.world.Base) {f : Frame} (hf : f = .ping ∨ f = .pong)
    (hst : server.Step s (.frame i f) s') {c' : Client}
    (hc' : s'.mngClient.clients[i]? = some c') : c'.state ≠ .pinged ∧ c'.state ≠ .lost := by
  obtain ⟨c, m, b, hc, rfl, hcases⟩ := frame_cases hst.2
  have hlast := (hb.sound c (List.mem_of_getElem? hc)).last
  have hrestored : (c.setState c.stateLast).state ≠ .pinged ∧
      (c.setState c.stateLast).state ≠ .lost := by
    refine ⟨fun hp => ?_, fun hl => ?_⟩
    · have hp : c.stateLast = .pinged := hp
      rw [hp] at hlast
      cases hlast
    · have hl : c.stateLast = .lost := hl
      rw [hl] at hlast
      cases hlast
  have hmod : ∀ cs : List Client, cs[i]? = some c →
      (cs.modify i fun c => c.setState c.stateLast)[i]? = some c' →
        c' = c.setState c.stateLast := by
    intro cs hcs hmod
    rw [List.getElem?_modify_eq, hcs] at hmod
    exact (Option.some.inj hmod).symm
  rcases hf with rfl | rfl
  · obtain ⟨hacc, -⟩ | ⟨-, hserve⟩ := hcases
    · cases hacc
    · cases hserve
      change (requestPing _ i c.state).1.clients[i]? = _ at hc'
      unfold requestPing at hc'
      dsimp only at hc'
      split_ifs at hc' with hstate
      · rw [hmod _ hc hc']
        exact hrestored
      · obtain rfl : c = c' := Option.some.inj (hc.symm.trans hc')
        exact not_or.1 hstate
  · obtain ⟨hacc, -⟩ | ⟨-, hserve⟩ := hcases
    · cases hacc
    · cases hserve
      rw [hmod _ hc hc']
      exact hrestored

/-- A connect request leaves no client on the ladder that it has changed. -/
theorem ladder_connect {n : Nick} (hb : s.world.Base) (h : AllLadder hs s.mngClient.clients)
    (hst : server.Step s (.frame i (.connect n)) s') : AllLadder hs s'.mngClient.clients := by
  rcases connect_cases hb hst with ⟨-, -, hcs, -⟩ | ⟨-, hcs, -⟩ | hrec
  · rw [hcs]
    exact forall₂_modify_right h fun _ _ _ _ _ => .of_accessible rfl
  · rw [hcs]
    exact h
  · cases hrec with
    | short j d hd hn hstate hcs =>
      rw [hcs]
      refine forall₂_modify_right h fun _ c _ hc _ => .of_accessible ?_
      exact (hb.sound c (List.mem_of_getElem? hc)).last
    | long c j d hc hd hn hip hstate hcs =>
      rw [hcs]
      have hlast := (hb.sound d (List.mem_of_getElem? hd)).last
      have htaken : AllLadder hs (s.mngClient.clients.modify i (takeOver n.text d)) :=
        forall₂_modify_right h fun _ c _ _ _ =>
          .of_accessible (show (takeOver n.text d c).state.inaccessible = false from hlast)
      exact forall₂_modify_right htaken fun _ _ _ _ hl => hl.expire

/-- A round adds to every history. -/
theorem ladder_ping (h : AllLadder hs s.mngClient.clients) (hst : server.Step s .ping s') :
    AllLadder (recordBeats s .ping s' hs) s'.mngClient.clients := by
  obtain ⟨m, hm, rfl⟩ := manage_eq_ok.1 hst.2
  have hsent := (pingLoop_sent hm).1
  have hcs : m.clients = s.mngClient.clients.map ClientManager.pinged := (pingClients_spec hm).1
  change AllLadder _ m.clients
  rw [hcs]
  refine forall₂_iff_getElem?.2 ⟨?_, fun j a b ha hb => ?_⟩
  · rw [recordBeats, List.length_mapIdx, List.length_map]
    exact h.length_eq
  · rw [recordBeats, List.getElem?_mapIdx] at ha
    obtain ⟨h₀, hh, rfl⟩ := Option.map_eq_some_iff.1 ha
    rw [List.getElem?_map] at hb
    obtain ⟨c, hc, rfl⟩ := Option.map_eq_some_iff.1 hb
    have hladder := (forall₂_iff_getElem?.1 h).2 j h₀ c hh hc
    refine hladder.round (fun hdue => ?_) ?_
    · exact if_pos (hsent j c hc (List.getElem?_eq_some_iff.1 hc).1 hdue)
    · unfold roundBeat
      split_ifs <;> decide

/-- **The histories stay true in every step.** -/
theorem ladder_step (hb : s.world.Base) (h : AllLadder hs s.mngClient.clients)
    (hst : server.Step s l s') : AllLadder (recordBeats s l s' hs) s'.mngClient.clients := by
  have hfollowed : (∀ i n, l ≠ .frame i (.connect n)) → l ≠ .ping →
      AllLadder (s.follow l (fun _ _ => []) hs) s'.mngClient.clients := by
    intro hconnect hping
    have hparallel : AllLadder (s.follow l (fun _ _ => []) hs)
        (s.follow l Client.create s.mngClient.clients) :=
      follow_forall₂ h fun _ _ _ => .of_accessible rfl
    have hstep : AllFollowed false _ s'.mngClient.clients :=
      server_step_followed hb hst hconnect hping nofun
    exact forall₂_trans hparallel hstep fun _ _ _ => Ladder.followed
  have hanswered : ∀ i f, l = .frame i f → f = .ping ∨ f = .pong →
      AllLadder (hs.modify i (.answer :: ·)) s'.mngClient.clients := by
    rintro i f rfl hf
    have hall : AllLadder hs s'.mngClient.clients :=
      hfollowed (by rcases hf with rfl | rfl <;> exact nofun) nofun
    rw [← List.modify_id i s'.mngClient.clients]
    refine forall₂_modify_both hall fun a b _ hb' _ => ?_
    obtain ⟨hp, hl⟩ := answered hb hf hst hb'
    exact .of_state hp hl
  cases l with
  | ping => exact ladder_ping h hst
  | frame i f =>
    cases f with
    | ping => exact hanswered i .ping rfl (Or.inl rfl)
    | pong => exact hanswered i .pong rfl (Or.inr rfl)
    | connect n => exact ladder_connect hb h hst
    | ready | move | leave | chat | ok => exact hfollowed nofun nofun
  | accept | close | kick | flags | pair | shutdown => exact hfollowed nofun nofun

/-- The histories of a run tell the state of every client. -/
theorem Recorded.ladder (h : server.Recorded recordBeats (create clients rooms fd) [] s hs) :
    s.world.Base ∧ AllLadder hs s.mngClient.clients := by
  induction h with
  | nil => exact ⟨.create clients rooms fd, .nil⟩
  | snoc _ hst ih => exact ⟨ih.1.upds (server_step_upds hst), ladder_step ih.1 ih.2 hst⟩

/-- The round that leads to `s'` flags the client at `i`, which was `c`, as not responding. -/
def GivesUp (s' : Server) (i : ℕ) (c c' : Client) : Prop :=
  (i, SC_KICK) ∈ s'.mngClient.sent ∨
    ¬ c.Useless ∧ c.flagToDisconnect = false ∧ c'.flagToDisconnect = true

/-- A round flags instances without a name, and Lost clients. -/
theorem lost_of_flagged {c : Client} (huseless : ¬ c.Useless) (hflag : c.flagToDisconnect = false)
    (h : (ClientManager.pinged c).flagToDisconnect = true) : c.state = .lost := by
  rw [ClientManager.pinged, if_neg (show ¬ (_ ∧ _) from huseless)] at h
  cases hs : c.state with
  | lost => rfl
  | disconnected =>
    have hsame : (countDown c).flagToDisconnect = c.flagToDisconnect := by
      unfold countDown
      dsimp only
      split_ifs <;> rfl
    simp [hs, hsame, hflag] at h
  | new | waiting | ready | playingOnTurn | playingOnStand | pinged =>
    simp [hs, Client.setState, hflag] at h

theorem GivesUp.lost (hst : server.Step s .ping s') {c c' : Client}
    (hc : s.mngClient.clients[i]? = some c) (hc' : s'.mngClient.clients[i]? = some c')
    (h : GivesUp s' i c c') : c.state = .lost ∧ c'.flagToDisconnect = true := by
  obtain ⟨m, hm, rfl⟩ := manage_eq_ok.1 hst.2
  have hcs : m.clients = s.mngClient.clients.map ClientManager.pinged := (pingClients_spec hm).1
  change m.clients[i]? = _ at hc'
  rw [hcs, List.getElem?_map, hc] at hc'
  obtain rfl := Option.some.inj hc'
  rcases h with hkick | ⟨huseless, hflag, hflagged⟩
  · obtain hnone | ⟨c₁, hc₁, huseless, hlost⟩ := (pingLoop_sent hm).2 i hkick
    · cases hnone
    · obtain rfl : c = c₁ := Option.some.inj (hc.symm.trans hc₁)
      refine ⟨hlost, ?_⟩
      rw [ClientManager.pinged, if_neg (show ¬ (_ ∧ _) from huseless), hlost]
      rfl
  · exact ⟨lost_of_flagged huseless hflag hflagged, hflagged⟩

/-- **No client is given up that was not silent.**  A round flags a client as not responding only
if the client has not answered since the first of two earlier consecutive rounds that pinged it;
and the last state of a client is never one of the ladder. -/
theorem not_responding_silent
    (h : server.Recorded recordBeats (create clients rooms fd) [] s hs) :
    (∀ c ∈ s.mngClient.clients, c.stateLast ≠ .pinged ∧ c.stateLast ≠ .lost ∧
      c.stateLast ≠ .disconnected) ∧
    ∀ s' i c c', server.Step s .ping s' → s.mngClient.clients[i]? = some c →
      s'.mngClient.clients[i]? = some c' → GivesUp s' i c c' →
        c'.flagToDisconnect = true ∧ ∃ h, hs[i]? = some h ∧ Unanswered h := by
  obtain ⟨hb, hladder⟩ := Recorded.ladder h
  refine ⟨fun c hc => ?_, fun s' i c c' hst hc hc' hup => ?_⟩
  · have hlast := (hb.sound c hc).last
    refine ⟨fun hs => ?_, fun hs => ?_, fun hs => ?_⟩
    all_goals
      rw [hs] at hlast
      cases hlast
  · obtain ⟨hlost, hflag⟩ := hup.lost hst hc hc'
    obtain ⟨h₀, hh, hl⟩ := forall₂_exists_left hladder hc
    exact ⟨hflag, h₀, hh, hl.lost hlost⟩

/-- A client is silent for three rounds. -/
theorem not_responding_silent_kick : ∃ (s s' : Server) (hs : List (List Beat)) (c c' : Client),
    server.Recorded recordBeats (create 10 5 3) [] s hs ∧ server.Step s .ping s' ∧
      s.mngClient.clients[0]? = some c ∧ s'.mngClient.clients[0]? = some c' ∧
      GivesUp s' 0 c c' ∧ c'.flagToDisconnect = true ∧ ∃ h, hs[0]? = some h ∧ Unanswered h := by
  have hrun : (server.replay (fun _ _ => True) (create 10 5 3)
      [.accept "10.0.0.4".toList 4, .frame 0 (.connect alice), .ping, .ping]).any (fun s =>
        decide (server.guard s .ping) && (server.exec s .ping).toOption.any fun s' =>
          (s.mngClient.clients[0]?).isSome && (s'.mngClient.clients[0]?).isSome &&
            decide ((0, SC_KICK) ∈ s'.mngClient.sent)) = true := by
    decide +kernel
  obtain ⟨s, s', hreach, hstep, ht⟩ := System.exists_step hrun
  simp only [Bool.and_eq_true, decide_eq_true_eq] at ht
  obtain ⟨⟨hc, hc'⟩, hkick⟩ := ht
  obtain ⟨c, hc⟩ := Option.isSome_iff_exists.1 hc
  obtain ⟨c', hc'⟩ := Option.isSome_iff_exists.1 hc'
  obtain ⟨hs, hrec⟩ := System.Recorded.exists_of_reachable recordBeats [] hreach
  exact ⟨s, s', hs, c, c', hrec, hstep, hc, hc', Or.inl hkick,
    (not_responding_silent hrec).2 s' 0 c c' hstep hc hc' (Or.inl hkick)⟩

end Server

end HnefServer
