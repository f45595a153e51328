import HnefServer.Invariant.Base

/-!
# Reconnection

A connect request with a nick in use, from the address of the client that uses it, reconnects.
`reconnection_restores_iff` says when a reconnection that was confirmed has given the requester
the session it asked for, and `live_sessions_kept_iff` when a connect request leaves the other
connected clients alone.
-/

namespace HnefServer

open Protocol ClientManager

namespace Server

variable {clients rooms : ℕ} {fd : ℤ} {s s' : Server} {i : ℕ} {n : Nick}

/-- The two ends of a reconnection: the requester, and the session it is given. -/
inductive Reconnects (s : Server) (i : ℕ) (n : Nick) (s' : Server) : Prop
  /-- The session was inaccessible for a short time: the requester gets its own last state. -/
  | short (j : ℕ) (d : Client) (hd : s.mngClient.clients[j]? = some d) (hn : d.nick = n.text)
      (hs : d.state = .pinged ∨ d.state = .lost)
      (hcs : s'.mngClient.clients = s.mngClient.clients.modify i fun c => c.setState c.stateLast)
  /-- The requester gets the name, the room and the last state of the session. -/
  | long (c : Client) (j : ℕ) (d : Client) (hc : s.mngClient.clients[i]? = some c)
      (hd : s.mngClient.clients[j]? = some d) (hn : d.nick = n.text)
      (hip : d.ipAddress = c.ipAddress)
      (hs : d.state = .new ∨ d.state = .ready ∨ d.state = .disconnected)
      (hcs : s'.mngClient.clients =
        (s.mngClient.clients.modify i (takeOver n.text d)).modify j expire)

/-- Two instances with one nick are the same. -/
theorem eq_of_nick (hb : s.world.Base) {j k : ℕ} {d e : Client}
    (hd : s.mngClient.clients[j]? = some d) (he : s.mngClient.clients[k]? = some e)
    (hdn : d.nick = n.text) (hen : e.nick = n.text) : j = k :=
  hb.nicks j k d e n.text hd he (Client.nickKey_eq_some.2 ⟨hdn, n.ne_nil⟩)
    (Client.nickKey_eq_some.2 ⟨hen, n.ne_nil⟩)

/-- The session named `n` can be asked for from the address of the client at `i`. -/
def Offers (s : Server) (i : ℕ) (n : Nick) (d : Client) : Prop :=
  d ∈ s.mngClient.clients ∧ d.nick = n.text ∧
    ∃ c, s.mngClient.clients[i]? = some c ∧ d.ipAddress = c.ipAddress

/-- The client may be given a nick that is free. -/
def Nameable (c : Client) : Prop :=
  c.stateLast = .new ∧ (c.state = .new ∨ c.state.inaccessible = true)

/-- What a connect request does to the clients: the nick is free and is given; nothing happens,
since no session is offered or it is in use; or the client reconnects. -/
theorem connect_cases (hb : s.world.Base) (hstep : server.Step s (.frame i (.connect n)) s') :
    ((∀ d ∈ s.mngClient.clients, d.nick ≠ n.text) ∧
        (∃ c, s.mngClient.clients[i]? = some c ∧ Nameable c) ∧
        s'.mngClient.clients = s.mngClient.clients.modify i (enter n.text) ∧
        s'.mngClient.sent = [(i, SC_RESP_CONN), (i, SC_IN_LOBBY)]) ∨
      ((∀ d, Offers s i n d → d.state = .waiting ∨ d.state.inGame = true) ∧
        s'.mngClient.clients = s.mngClient.clients ∧
        (s'.mngClient.sent = [] ∨ s'.mngClient.sent = [(i, SC_NICK_USED)])) ∨
      Reconnects s i n s' := by
  obtain ⟨c, m, b, hc, rfl, ⟨hacc, -⟩ | ⟨-, hserve⟩⟩ := frame_cases hstep.2
  · cases hacc
  obtain ⟨c', hc', ⟨hfree, ⟨hlast, hs, rfl⟩ | ⟨rfl, -⟩⟩ | ⟨hnone, rfl⟩ | ⟨d, hd, hn, hip, hrec⟩⟩ :=
    requestConnect_cases hserve
  · obtain rfl : c = c' := Option.some.inj (hc.symm.trans hc')
    exact Or.inl ⟨hfree, ⟨c, hc, hlast, hs⟩, rfl, rfl⟩
  · exact Or.inr (Or.inl ⟨fun d ⟨hd, hn, _⟩ => absurd hn (hfree d hd), rfl, Or.inl rfl⟩)
  · refine Or.inr (Or.inl ⟨fun d ⟨hd, hn, c₁, hc₁, hip⟩ => ?_, rfl, Or.inr rfl⟩)
    obtain rfl : c' = c₁ := Option.some.inj (hc'.symm.trans hc₁)
    exact absurd hip (hnone d hd hn)
  · obtain ⟨d', hd', hcases⟩ := handleReconnection_cases hrec
    obtain rfl : d = d' := Option.some.inj (hd.symm.trans hd')
    rcases hcases with ⟨hs, rfl⟩ | ⟨hs, hrep⟩ | ⟨hs, hrep⟩
    · refine Or.inr (Or.inl ⟨fun e ⟨he, hen, _⟩ => ?_, rfl, Or.inr rfl⟩)
      obtain ⟨k, hk⟩ := List.mem_iff_getElem?.1 he
      obtain rfl := eq_of_nick hb hk hd hen hn
      obtain rfl : e = d := Option.some.inj (hk.symm.trans hd)
      exact hs
    · exact Or.inr (Or.inr (.short _ d hd hn hs (reportReconnection_same hrep).1))
    · exact Or.inr (Or.inr (.long c' _ d hc' hd hn hip hs (reportReconnection_same hrep).1))

/-! ### What a reconnection restores -/

/-- The client at `i` was told that it has reconnected. -/
def Reconfirmed (s' : Server) (i : ℕ) : Prop :=
  ∃ p ∈ s'.mngClient.sent, p.1 = i ∧ SC_RESP_RECN <+: p.2

instance (s' : Server) (i : ℕ) : Decidable (s'.Reconfirmed i) :=
  inferInstanceAs (Decidable (∃ p ∈ s'.mngClient.sent, p.1 = i ∧ SC_RESP_RECN <+: p.2))

/-- The client at `i` has the nick `n`, which no other instance has, and the room and the
logical state the session named `n` had in `s`. -/
def Restored (s : Server) (i : ℕ) (n : Nick) (s' : Server) : Prop :=
  ∃ d ∈ s.mngClient.clients, d.nick = n.text ∧
    (∃ c, s'.mngClient.clients[i]? = some c ∧ c.nick = n.text ∧ c.roomId = d.roomId ∧
      c.logical = d.logical) ∧
    ∀ k e, s'.mngClient.clients[k]? = some e → e.nick = n.text → k = i

/-- The session named `n` is the requester itself, Pinged or Lost; or it is another instance,
neither Pinged nor Lost, whose last state is its logical state. -/
def Restorable (s : Server) (i : ℕ) (n : Nick) : Prop :=
  ∃ j d, s.mngClient.clients[j]? = some d ∧ d.nick = n.text ∧
    (j = i ∧ (d.state = .pinged ∨ d.state = .lost) ∨
      j ≠ i ∧ d.state ≠ .pinged ∧ d.state ≠ .lost ∧ d.stateLast = d.logical)

theorem Reconnects.restored_iff (hb : s.world.Base) (h : Reconnects s i n s')
    (hi : s.Connected i) : Restored s i n s' ↔ Restorable s i n := by
  obtain ⟨c, hc, -⟩ := hi
  cases h with
  | short j d hd hn hs hcs =>
    have hnick : ∀ k e, s'.mngClient.clients[k]? = some e → e.nick = n.text → k = j := by
      intro k e he hen
      rw [hcs, List.getElem?_modify] at he
      obtain ⟨e', he', rfl⟩ := Option.map_eq_some_iff.1 he
      refine eq_of_nick hb he' hd ?_ hn
      split_ifs at hen
      · exact hen
      · exact hen
    constructor
    · rintro ⟨-, -, -, ⟨c', hc', hcn, -⟩, -⟩
      exact ⟨j, d, hd, hn, Or.inl ⟨(hnick i c' hc' hcn).symm, hs⟩⟩
    · rintro ⟨j', d', hd', hn', hcase⟩
      obtain rfl := eq_of_nick hb hd' hd hn' hn
      obtain rfl : d' = d := Option.some.inj (hd'.symm.trans hd)
      rcases hcase with ⟨rfl, -⟩ | ⟨-, hpinged, hlost, -⟩
      · have hlast := (hb.sound d' (List.mem_of_getElem? hd)).last
        have hinacc : d'.state.inaccessible = true := by
          rcases hs with hs | hs <;> simp [hs, State.inaccessible]
        refine ⟨d', List.mem_of_getElem? hd, hn, ⟨d'.setState d'.stateLast, ?_, hn, rfl, ?_⟩, hnick⟩
        · simp [hcs, hd]
        · rw [Client.logical_setState hlast, Client.logical_of_inaccessible hinacc]
      · exact absurd hs (not_or.2 ⟨hpinged, hlost⟩)
  | long c' j d hc' hd hn hip hs hcs =>
    obtain rfl : c' = c := Option.some.inj (hc'.symm.trans hc)
    have hnotshort : ¬ (d.state = .pinged ∨ d.state = .lost) := by
      rcases hs with hs | hs | hs <;> simp [hs]
    -- the instance that was taken over has lost its name
    have hj : ∀ e, s'.mngClient.clients[j]? = some e → e.nick = [] := by
      intro e he
      rw [hcs, List.getElem?_modify] at he
      obtain ⟨e', -, rfl⟩ := Option.map_eq_some_iff.1 he
      rw [if_pos rfl]
      rfl
    constructor
    · rintro ⟨d', hd', hn', ⟨c₁, hc₁, hcn, -, hlog⟩, -⟩
      have hij : j ≠ i := by
        rintro rfl
        exact n.ne_nil (hcn.symm.trans (hj c₁ hc₁))
      obtain ⟨j', hj'⟩ := List.mem_iff_getElem?.1 hd'
      obtain rfl := eq_of_nick hb hj' hd hn' hn
      obtain rfl : d' = d := Option.some.inj (hj'.symm.trans hd)
      have hlast := (hb.sound d' hd').last
      obtain rfl : takeOver n.text d' c' = c₁ := by simpa [hcs, hij, hc] using hc₁
      refine ⟨j', d', hd, hn, Or.inr ⟨hij, fun h => hnotshort (Or.inl h),
        fun h => hnotshort (Or.inr h), ?_⟩⟩
      rw [← hlog, logical_takeOver hlast]
    · rintro ⟨j', d', hd', hn', hcase⟩
      obtain rfl := eq_of_nick hb hd' hd hn' hn
      obtain rfl : d' = d := Option.some.inj (hd'.symm.trans hd)
      rcases hcase with ⟨-, hshort⟩ | ⟨hij, -, -, hsame⟩
      · exact absurd hshort hnotshort
      · have hlast := (hb.sound d' (List.mem_of_getElem? hd)).last
        refine ⟨d', List.mem_of_getElem? hd, hn, ⟨takeOver n.text d' c', ?_, rfl, rfl, ?_⟩, ?_⟩
        · simp [hcs, hij, hc]
        · rw [logical_takeOver hlast, hsame]
        · intro k e he hen
          by_contra hki
          have hkj : j' ≠ k := by
            rintro rfl
            exact n.ne_nil (hen.symm.trans (hj e he))
          rw [hcs, List.getElem?_modify_ne _ _ hkj,
            List.getElem?_modify_ne _ _ (Ne.symm hki)] at he
          exact hkj (eq_of_nick hb hd he hn hen)

/-- **When a reconnection restores the session.**  A requester that was told that it has
reconnected has got the session it asked for iff the session was its own and was Pinged or Lost,
or was that of another instance which was neither and kept its logical state as its last one. -/
theorem reconnection_restores_iff (h : Server.Reachable clients rooms fd s)
    (hstep : server.Step s (.frame i (.connect n)) s') (hre : s'.Reconfirmed i) :
    Restored s i n s' ↔ Restorable s i n := by
  rcases connect_cases h.base hstep with ⟨-, -, -, hsent⟩ | ⟨-, -, hsent | hsent⟩ | hrec
  · exact absurd hre (by simp [Reconfirmed, hsent, SC_RESP_RECN, SC_RESP_CONN, SC_IN_LOBBY])
  · exact absurd hre (by simp [Reconfirmed, hsent])
  · exact absurd hre (by simp [Reconfirmed, hsent, SC_RESP_RECN, SC_NICK_USED])
  · exact hrec.restored_iff h.base hstep.1.2

/-- A session that is restored: the instance of a player whose connection was closed is taken
over from a new connection. -/
theorem reconnection_restores_disconnected : ∃ s s',
    server.Step s (.frame 1 (.connect alice)) s' ∧ s'.Reconfirmed 1 ∧ Restorable s 1 alice ∧
      (Restored s 1 alice s' ↔ Restorable s 1 alice) := by
  have hrun : (server.replay (fun _ _ => True) (create 10 5 3)
      [.accept "10.0.0.4".toList 4, .frame 0 (.connect alice), .close 0,
        .accept "10.0.0.4".toList 5]).any (fun s =>
        decide (server.guard s (.frame 1 (.connect alice))) &&
          (server.exec s (.frame 1 (.connect alice))).toOption.any fun s' =>
            decide (s'.Reconfirmed 1) && (s.mngClient.clients[0]?).any fun d =>
              decide (d.nick = alice.text ∧ d.state ≠ .pinged ∧ d.state ≠ .lost ∧
                d.stateLast = d.logical)) = true := by
    decide +kernel
  obtain ⟨s, s', hs, hstep, ht⟩ := System.exists_step hrun
  rw [Bool.and_eq_true, decide_eq_true_eq] at ht
  obtain ⟨d, hd, hsession⟩ := (Option.any_eq_true _ _).1 ht.2
  obtain ⟨hn, hpinged, hlost, hlast⟩ := of_decide_eq_true hsession
  exact ⟨s, s', hstep, ht.1, ⟨0, d, hd, hn, Or.inr ⟨by decide, hpinged, hlost, hlast⟩⟩,
    reconnection_restores_iff hs hstep ht.1⟩

/-- A client asks for the session of another connection, from the same address, after a ping: it
is told that it is back in the lobby, but has neither the nick nor a state of the session. -/
theorem reconnection_to_pinged_session : ∃ s s', Server.Reachable 10 5 3 s ∧
    server.Step s (.frame 1 (.connect alice)) s' ∧ s'.Reconfirmed 1 ∧
      ¬ Restored s 1 alice s' := by
  have hrun : (server.replay (fun _ _ => True) (create 10 5 3)
      [.accept "10.0.0.4".toList 4, .frame 0 (.connect alice), .ping,
        .accept "10.0.0.4".toList 5]).any (fun s =>
        decide (server.guard s (.frame 1 (.connect alice))) &&
          (server.exec s (.frame 1 (.connect alice))).toOption.any fun s' =>
            decide (s'.Reconfirmed 1) && (s'.mngClient.clients[1]?).all fun c =>
              decide (c.nick ≠ alice.text)) = true := by
    decide +kernel
  obtain ⟨s, s', hs, hstep, ht⟩ := System.exists_step hrun
  rw [Bool.and_eq_true, decide_eq_true_eq] at ht
  refine ⟨s, s', hs, hstep, ht.1, ?_⟩
  rintro ⟨-, -, -, ⟨c, hc, hcn, -⟩, -⟩
  have hnick := ht.2
  rw [hc] at hnick
  exact of_decide_eq_true hnick hcn

/-! ### Live sessions -/

/-- The identity of the client at `k`, if it is connected, is what it was. -/
def KeepsLive (s s' : Server) (k : ℕ) : Prop :=
  ∀ e, s.mngClient.clients[k]? = some e → 0 ≤ e.socketNum →
    ∃ e', s'.mngClient.clients[k]? = some e' ∧ e'.nick = e.nick ∧ e'.roomId = e.roomId ∧
      e'.state = e.state ∧ e'.stateLast = e.stateLast ∧ e'.flagToErase = e.flagToErase

/-- The session named `n` is that of another connection from the address of the client at `i`,
and is Ready or New. -/
def TakesLive (s : Server) (i : ℕ) (n : Nick) : Prop :=
  ∃ c j d, s.mngClient.clients[i]? = some c ∧ s.mngClient.clients[j]? = some d ∧ j ≠ i ∧
    d.nick = n.text ∧ d.ipAddress = c.ipAddress ∧ 0 ≤ d.socketNum ∧
    (d.state = .ready ∨ d.state = .new)

theorem keepsLive_of_eq {k : ℕ} (h : s'.mngClient.clients[k]? = s.mngClient.clients[k]?) :
    KeepsLive s s' k := fun e he _ => ⟨e, h.trans he, rfl, rfl, rfl, rfl, rfl⟩

/-- **When a connect request leaves the other live sessions alone.**  It does iff it does not
name a session of another connection from the same address that is Ready or New. -/
theorem live_sessions_kept_iff (h : Server.Reachable clients rooms fd s)
    (hstep : server.Step s (.frame i (.connect n)) s') :
    (∀ k, k ≠ i → KeepsLive s s' k) ↔ ¬ TakesLive s i n := by
  have hb := h.base
  rcases connect_cases hb hstep with ⟨hfree, -, hcs, -⟩ | ⟨hused, hcs, -⟩ | hrec
  · -- the nick is not in use
    refine ⟨fun _ => ?_, fun _ k hk => keepsLive_of_eq ?_⟩
    · rintro ⟨-, j, d, -, hd, -, hn, -⟩
      exact hfree d (List.mem_of_getElem? hd) hn
    · rw [hcs, List.getElem?_modify_ne _ _ (Ne.symm hk)]
  · refine ⟨fun _ => ?_, fun _ k hk => keepsLive_of_eq (by rw [hcs])⟩
    rintro ⟨c, j, d, hc, hd, -, hn, hip, -, hs⟩
    have huse := hused d ⟨List.mem_of_getElem? hd, hn, c, hc, hip⟩
    rcases hs with hs | hs <;> simp [hs, State.inGame] at huse
  · cases hrec with
    | short j d hd hn hs hcs =>
      refine ⟨fun _ => ?_, fun _ k hk => keepsLive_of_eq ?_⟩
      · rintro ⟨-, j', d', -, hd', -, hn', -, -, hs'⟩
        obtain rfl := eq_of_nick hb hd' hd hn' hn
        obtain rfl : d' = d := Option.some.inj (hd'.symm.trans hd)
        rcases hs with hs | hs <;> simp [hs] at hs'
      · rw [hcs, List.getElem?_modify_ne _ _ (Ne.symm hk)]
    | long c j d hc hd hn hip hs hcs =>
      constructor
      · rintro hkeep ⟨c', j', d', hc', hd', hij, hn', hip', hsock, -⟩
        obtain rfl := eq_of_nick hb hd' hd hn' hn
        obtain rfl : d' = d := Option.some.inj (hd'.symm.trans hd)
        obtain ⟨e', he', hnick, -⟩ := hkeep j' hij d' hd hsock
        -- the session was renamed
        rw [hcs, List.getElem?_modify_eq, List.getElem?_modify_ne _ _ (Ne.symm hij), hd] at he'
        obtain rfl := Option.some.inj he'
        exact n.ne_nil (hn'.symm.trans hnick.symm)
      · intro hlive k hki
        by_cases hkj : k = j
        · subst hkj
          intro e he hsock
          obtain rfl : d = e := Option.some.inj (hd.symm.trans he)
          rcases hs with hs | hs | hs
          · exact absurd ⟨c, k, d, hc, hd, hki, hn, hip, hsock, Or.inr hs⟩ hlive
          · exact absurd ⟨c, k, d, hc, hd, hki, hn, hip, hsock, Or.inl hs⟩ hlive
          · have hgone := (hb.sound d (List.mem_of_getElem? hd)).gone hs
            omega
        · refine keepsLive_of_eq ?_
          rw [hcs, List.getElem?_modify_ne _ _ (Ne.symm hkj),
            List.getElem?_modify_ne _ _ (Ne.symm hki)]

/-- A connect request that leaves the other sessions alone: a new name. -/
theorem live_sessions_kept_new_name : ∃ s s',
    server.Step s (.frame 1 (.connect bobby)) s' ∧ ¬ TakesLive s 1 bobby ∧
      ((∀ k, k ≠ 1 → KeepsLive s s' k) ↔ ¬ TakesLive s 1 bobby) := by
  have hrun : (server.replay (fun _ _ => True) (create 10 5 3)
      [.accept "10.0.0.4".toList 4, .frame 0 (.connect alice), .frame 0 .ready,
        .accept "10.0.0.4".toList 5]).any (fun s =>
        decide (server.guard s (.frame 1 (.connect bobby))) &&
          (server.exec s (.frame 1 (.connect bobby))).toOption.any fun _ =>
            s.mngClient.clients.all fun d => decide (d.nick ≠ bobby.text)) = true := by
    decide +kernel
  obtain ⟨s, s', hs, hstep, ht⟩ := System.exists_step hrun
  refine ⟨s, s', hstep, ?_, live_sessions_kept_iff hs hstep⟩
  rintro ⟨-, j, d, -, hd, -, hn, -⟩
  exact of_decide_eq_true (List.all_eq_true.1 ht d (List.mem_of_getElem? hd)) hn

/-- A client that is connected, and is Ready, loses its nick to a connect request from its
address. -/
theorem live_session_taken : ∃ s s', Server.Reachable 10 5 3 s ∧
    server.Step s (.frame 1 (.connect alice)) s' ∧ ¬ KeepsLive s s' 0 := by
  have hrun : (server.replay (fun _ _ => True) (create 10 5 3)
      [.accept "10.0.0.4".toList 4, .frame 0 (.connect alice), .frame 0 .ready,
        .accept "10.0.0.4".toList 5]).any (fun s =>
        decide (server.guard s (.frame 1 (.connect alice))) &&
          (server.exec s (.frame 1 (.connect alice))).toOption.any fun s' =>
            (s.mngClient.clients[0]?).any fun d =>
              decide (0 ≤ d.socketNum) && (s'.mngClient.clients[0]?).all fun d' =>
                decide (d'.nick ≠ d.nick)) = true := by
    decide +kernel
  obtain ⟨s, s', hs, hstep, ht⟩ := System.exists_step hrun
  obtain ⟨d, hd, ht'⟩ := (Option.any_eq_true _ _).1 ht
  rw [Bool.and_eq_true, decide_eq_true_eq] at ht'
  refine ⟨s, s', hs, hstep, fun hkeep => ?_⟩
  obtain ⟨d', hd', hnick, -⟩ := hkeep d hd ht'.1
  have hchanged := ht'.2
  rw [hd'] at hchanged
  exact of_decide_eq_true hchanged hnick

end Server

end HnefServer
