import HnefServer.Invariant.Follow
import HnefServer.Property.Reconnect

/-!
# Names

No two instances carry the same nick (`nicks_unique`).  A step changes the nick of an instance
that has one only by a connect request, and `names_kept_iff` says by which: the request of a
client that has a name already, for a nick that is free or for a session of another instance.
-/

namespace HnefServer

open Protocol ClientManager

namespace Server

variable {clients rooms : ℕ} {fd : ℤ} {s s' : Server} {i j : ℕ} {c d : Client} {l : Input}
  {n : Nick}

/-! ### One name, one instance -/

/-- **No two instances carry the same nick.** -/
theorem nicks_unique (h : Server.Reachable clients rooms fd s)
    (hc : s.mngClient.clients[i]? = some c) (hd : s.mngClient.clients[j]? = some d)
    (hne : c.nick ≠ []) (hn : c.nick = d.nick) : i = j :=
  h.base.nicks i j c d c.nick hc hd (Client.nickKey_eq_some.2 ⟨rfl, hne⟩)
    (Client.nickKey_eq_some.2 ⟨hn.symm, hne⟩)

/-- The instance of a player whose connection was closed, after it was taken over. -/
theorem nicks_unique_takeOver : ∃ s c, Server.Reachable 10 5 3 s ∧
    s.mngClient.clients[1]? = some c ∧ c.nick = alice.text ∧
      ∀ (j : ℕ) (d : Client), s.mngClient.clients[j]? = some d → d.nick = alice.text → 1 = j := by
  have hrun : (server.replay (fun _ _ => True) (create 10 5 3)
      [.accept "10.0.0.4".toList 4, .frame 0 (.connect alice), .close 0,
        .accept "10.0.0.4".toList 5, .frame 1 (.connect alice)]).any (fun s =>
        (s.mngClient.clients[1]?).any fun c => decide (c.nick = alice.text)) = true := by
    decide +kernel
  obtain ⟨s, hs, ht⟩ := exists_reachable hrun
  obtain ⟨c, hc, hn⟩ := (Option.any_eq_true _ _).1 ht
  have hn := of_decide_eq_true hn
  exact ⟨s, c, hs, hc, hn, fun j d hd hdn =>
    nicks_unique hs hc hd (hn ▸ alice.ne_nil) (hn.trans hdn.symm)⟩

/-! ### Renaming -/

/-- An instance that has a nick has it, or none, afterwards. -/
def KeepsName (c c' : Client) : Prop := c.nick ≠ [] → c'.nick = c.nick ∨ c'.nick = []

instance (c c' : Client) : Decidable (KeepsName c c') := inferInstanceAs (Decidable (_ → _ ∨ _))

theorem KeepsName.of_eq (h : d.nick = c.nick) : KeepsName c d := fun _ => Or.inl h

/-- The client at `i` has a name and asks for another: for a nick that is free, or for a session
of another instance that is taken over. -/
def Renames (s : Server) (i : ℕ) (n : Nick) : Prop :=
  ∃ c, s.mngClient.clients[i]? = some c ∧ c.nick ≠ [] ∧
    ((∀ d ∈ s.mngClient.clients, d.nick ≠ n.text) ∧ Nameable c ∨
      ∃ j d, j ≠ i ∧ s.mngClient.clients[j]? = some d ∧ d.nick = n.text ∧
        d.ipAddress = c.ipAddress ∧ (d.state = .new ∨ d.state = .ready ∨ d.state = .disconnected))

/-- A connect request for a nick that is free. -/
theorem connect_free (hstep : server.Step s (.frame i (.connect n)) s')
    (hc : s.mngClient.clients[i]? = some c) (hfree : ∀ d ∈ s.mngClient.clients, d.nick ≠ n.text)
    (hnew : Nameable c) :
    s'.mngClient.clients = s.mngClient.clients.modify i (enter n.text) := by
  obtain ⟨c', m, b, hc', rfl, ⟨hacc, -⟩ | ⟨-, hserve⟩⟩ := frame_cases hstep.2
  · cases hacc
  obtain rfl : c = c' := Option.some.inj (hc.symm.trans hc')
  change s.clearSent.mngClient.requestConnect i n.text c.state = .ok (m, b) at hserve
  rw [requestConnect_free hc' hfree hnew.1 hnew.2] at hserve
  cases hserve
  rfl

/-- A connect request renames nobody else, and the requester only if it has no name yet, unless
the request is one that renames. -/
theorem connect_keeps_names (hb : s.world.Base)
    (hstep : server.Step s (.frame i (.connect n)) s') :
    List.Forall₂ KeepsName s.mngClient.clients s'.mngClient.clients ↔ ¬ s.Renames i n := by
  constructor
  · rintro hkeep ⟨c, hc, hname, ⟨hfree, hnew⟩ | ⟨j, d, hji, hd, hdn, hip, hs⟩⟩
    · -- the nick that is free is given
      rw [connect_free hstep hc hfree hnew] at hkeep
      obtain ⟨c', hc', hkept⟩ := forall₂_exists_right hkeep hc
      rw [List.getElem?_modify_eq, hc] at hc'
      obtain rfl := Option.some.inj hc'
      rcases hkept hname with heq | hnil
      · exact hfree c (List.mem_of_getElem? hc) heq.symm
      · exact n.ne_nil hnil
    · rcases connect_cases hb hstep with ⟨hfree, -⟩ | ⟨hused, -⟩ | hrec
      · exact hfree d (List.mem_of_getElem? hd) hdn
      · have huse := hused d ⟨List.mem_of_getElem? hd, hdn, c, hc, hip⟩
        rcases hs with hs | hs | hs <;> simp [hs, State.inGame] at huse
      · cases hrec with
        | short j' d' hd' hdn' hs' hcs =>
          obtain rfl := eq_of_nick hb hd hd' hdn hdn'
          obtain rfl : d = d' := Option.some.inj (hd.symm.trans hd')
          rcases hs with hs | hs | hs <;> simp [hs] at hs'
        | long c' j' d' hc₁ hd' hdn' hip' hs' hcs =>
          obtain rfl := eq_of_nick hb hd hd' hdn hdn'
          rw [hcs] at hkeep
          obtain ⟨c₂, hc₂, hkept⟩ := forall₂_exists_right hkeep hc
          rw [List.getElem?_modify_ne _ _ hji, List.getElem?_modify_eq, hc] at hc₂
          obtain rfl := Option.some.inj hc₂
          rcases hkept hname with heq | hnil
          · have heq : n.text = c.nick := heq
            exact hji (eq_of_nick hb hd hc hdn heq.symm)
          · exact n.ne_nil hnil
  · intro hnot
    rcases connect_cases hb hstep with ⟨hfree, ⟨c, hc, hnew⟩, hcs, -⟩ | ⟨-, hcs, -⟩ | hrec
    · rw [hcs]
      refine forall₂_modify (fun _ => .of_eq rfl) fun a ha hname => ?_
      obtain rfl : c = a := Option.some.inj (hc.symm.trans ha)
      exact absurd ⟨c, hc, hname, Or.inl ⟨hfree, hnew⟩⟩ hnot
    · rw [hcs]
      exact List.forall₂_same.2 fun _ _ => .of_eq rfl
    · cases hrec with
      | short j d hd hdn hs hcs =>
        rw [hcs]
        exact forall₂_modify (fun _ => .of_eq rfl) fun _ _ => .of_eq rfl
      | long c j d hc hd hdn hip hs hcs =>
        rw [hcs]
        refine forall₂_iff_getElem?.2 ⟨by simp, fun k a b ha hb hname => ?_⟩
        rw [List.getElem?_modify, List.getElem?_modify, ha] at hb
        obtain rfl := Option.some.inj hb
        dsimp only
        by_cases hjk : j = k
        · rw [if_pos hjk]
          exact Or.inr rfl
        rw [if_neg hjk]
        by_cases hik : i = k
        · subst hik
          obtain rfl : c = a := Option.some.inj (hc.symm.trans ha)
          exact absurd ⟨c, hc, hname, Or.inr ⟨j, d, hjk, hd, hdn, hip, hs⟩⟩ hnot
        · rw [if_neg hik]
          exact Or.inl rfl

/-- **When a step leaves the names as they are.**  It does iff it is not a connect request of a
client that has a name, for a nick that is free or for a session that is taken over. -/
theorem names_kept_iff (h : Server.Reachable clients rooms fd s) (hstep : server.Step s l s') :
    List.Forall₂ KeepsName (s.follow l Client.create s.mngClient.clients) s'.mngClient.clients ↔
      ∀ i n, l = .frame i (.connect n) → ¬ s.Renames i n := by
  by_cases hconnect : ∃ i n, l = .frame i (.connect n)
  · obtain ⟨i, n, rfl⟩ := hconnect
    have hkeeps := connect_keeps_names h.base hstep
    refine ⟨fun hkeep i' n' heq => ?_, fun hnot => hkeeps.2 (hnot i n rfl)⟩
    cases heq
    exact hkeeps.1 hkeep
  refine ⟨fun _ i n heq => absurd ⟨i, n, heq⟩ hconnect, fun _ => ?_⟩
  by_cases hping : l = .ping
  · subst hping
    obtain ⟨m, hm, rfl⟩ := manage_eq_ok.1 hstep.2
    change List.Forall₂ KeepsName s.mngClient.clients m.clients
    rw [(pingClients_spec hm).1]
    exact List.forall₂_map_right_iff.2
      (List.forall₂_same.2 fun c _ => .of_eq (quiet_pinged.nick c))
  · have hfollow : AllFollowed false (s.follow l Client.create s.mngClient.clients)
        s'.mngClient.clients :=
      server_step_followed h.base hstep (fun i n heq => hconnect ⟨i, n, heq⟩) hping nofun
    refine hfollow.imp fun c c' hc => .of_eq ?_
    rcases hc with hkept | ⟨hn, -⟩
    · exact hkept.nick
    · exact hn

/-- A client gets its nick beside one that has a name. -/
theorem names_kept_connect : ∃ s s', server.Step s (.frame 1 (.connect bobby)) s' ∧
    (∃ c ∈ s.mngClient.clients, c.nick = alice.text) ∧
    (∀ i n, Input.frame 1 (.connect bobby) = .frame i (.connect n) → ¬ s.Renames i n) ∧
    (List.Forall₂ KeepsName (s.follow (.frame 1 (.connect bobby)) Client.create s.mngClient.clients)
      s'.mngClient.clients ↔
        ∀ i n, Input.frame 1 (.connect bobby) = .frame i (.connect n) → ¬ s.Renames i n) := by
  have hrun : (server.replay (fun _ _ => True) (create 10 5 3) [.accept "10.0.0.4".toList 4,
      .accept "10.0.0.5".toList 5, .frame 0 (.connect alice)]).any (fun s =>
        decide (server.guard s (.frame 1 (.connect bobby))) &&
          (server.exec s (.frame 1 (.connect bobby))).toOption.any fun _ =>
            (s.mngClient.clients.any fun c => c.nick == alice.text) &&
              s.mngClient.clients[1]?.any fun c => decide (c.nick = [])) = true := by
    decide +kernel
  obtain ⟨s, s', hs, hstep, ht⟩ := System.exists_step hrun
  simp only [Bool.and_eq_true, List.any_eq_true, beq_iff_eq, Option.any_eq_true,
    decide_eq_true_eq] at ht
  obtain ⟨hnamed, c, hc, hunnamed⟩ := ht
  refine ⟨s, s', hstep, hnamed, ?_, names_kept_iff hs hstep⟩
  rintro i n ⟨rfl⟩ ⟨c', hc', hname, -⟩
  obtain rfl : c = c' := Option.some.inj (hc.symm.trans hc')
  exact hname hunnamed

/-- A client that has a name asks for the session of a client whose connection was closed, from
the same address. -/
theorem client_renamed : ∃ (s s' : Server) (i : ℕ) (c c' : Client), Server.Reachable 10 5 3 s ∧
    server.Step s (.frame 0 (.connect bobby)) s' ∧ s.mngClient.clients[i]? = some c ∧
      (s.follow (.frame 0 (.connect bobby)) Client.create s.mngClient.clients)[i]? = some c ∧
      s'.mngClient.clients[i]? = some c' ∧ c.nick ≠ [] ∧ c'.nick ≠ [] ∧ c'.nick ≠ c.nick := by
  have hrun : (server.replay (fun _ _ => True) (create 10 5 3)
      [.accept "10.0.0.4".toList 4, .accept "10.0.0.4".toList 5, .frame 0 (.connect alice),
        .frame 1 (.connect bobby), .close 1]).any (fun s =>
        decide (server.guard s (.frame 0 (.connect bobby))) &&
          (server.exec s (.frame 0 (.connect bobby))).toOption.any fun s' =>
            (s.mngClient.clients[0]?).any fun c => (s'.mngClient.clients[0]?).any fun c' =>
              decide (c.nick ≠ [] ∧ c'.nick ≠ [] ∧ c'.nick ≠ c.nick)) = true := by
    decide +kernel
  obtain ⟨s, s', hs, hstep, ht⟩ := System.exists_step hrun
  obtain ⟨c, hc, ht⟩ := (Option.any_eq_true _ _).1 ht
  obtain ⟨c', hc', ht⟩ := (Option.any_eq_true _ _).1 ht
  exact ⟨s, s', 0, c, c', hs, hstep, hc, hc, hc', of_decide_eq_true ht⟩

end Server

end HnefServer
