import HnefServer.Invariant.Follow
import HnefServer.Invariant.Marks
import HnefServer.Invariant.Steps
import HnefServer.Network.Setup
import HnefServer.Property.Reconnect

/-!
# Descriptors

The server watches its own descriptor and those of the clients that are connected
(`Server.Registered`), as long as no instance is erased before its connection was closed.
`registered_iff` says so for all runs: an instance that is erased although it is connected leaves
its descriptor behind.
-/

namespace HnefServer

open Protocol ClientManager

namespace Server

variable {clients rooms : ℕ} {fd : ℤ} {s s' : Server} {i : ℕ} {c : Client} {l : Input}

/-- The clients that are connected have different descriptors, and the descriptors that are watched
are these and that of the server. -/
structure Registered (s : Server) : Prop where
  watched : ∀ fd, fd ∈ s.sockets ∧ fd ≠ s.serverSocket ↔
    ∃ c ∈ s.mngClient.clients, c.sockKey = some fd
  distinct : DistinctKeys Client.sockKey s.mngClient.clients

/-- The descriptors that are watched are those of the clients, and, while the server runs, its
own. -/
structure Watches (s : Server) : Prop where
  others : ∀ fd, fd ∈ s.sockets ∧ fd ≠ s.serverSocket ↔
    ∃ c ∈ s.mngClient.clients, c.sockKey = some fd
  own : s.isRunning = true → s.serverSocket ∈ s.sockets

/-- An instance that is erased is closed before. -/
def ClosedFirst (s : Server) : Input → Prop
  | .flags i => ∀ c ∈ s.mngClient.clients[i]?, c.flagToErase = true →
      c.flagToDisconnect = true ∨ c.socketNum < 0
  | _ => True

instance (s : Server) : (l : Input) → Decidable (s.ClosedFirst l)
  | .flags i => inferInstanceAs (Decidable (∀ c ∈ s.mngClient.clients[i]?, _ → _ ∨ _))
  | .frame _ _ | .accept _ _ | .close _ | .kick _ | .pair | .ping | .shutdown => isTrue trivial

/-! ### What the parts of a step do -/

theorem sockKey_of_neg (h : c.socketNum < 0) : c.sockKey = none := if_pos h

theorem Watches.same {m : ClientManager} (h : s.Watches)
    (hm : SameSocks s.mngClient.clients m.clients) : Watches { s with mngClient := m } := by
  refine ⟨fun fd => (h.others fd).trans ⟨?_, ?_⟩, h.own⟩
  · rintro ⟨c, hc, hkey⟩
    obtain ⟨j, hj⟩ := List.mem_iff_getElem?.1 hc
    obtain ⟨c', hc', hsock⟩ := forall₂_exists_right hm hj
    exact ⟨c', List.mem_of_getElem? hc', by rw [Client.sockKey, hsock]; exact hkey⟩
  · rintro ⟨c', hc', hkey⟩
    obtain ⟨j, hj⟩ := List.mem_iff_getElem?.1 hc'
    obtain ⟨c, hc, hsock⟩ := forall₂_exists_left hm hj
    exact ⟨c, List.mem_of_getElem? hc, by rw [Client.sockKey, ← hsock]; exact hkey⟩

/-- Closing a connection clears the descriptor of one client, which no other has. -/
theorem Watches.close (h : s.Watches) (hb : s.world.Base) (hs' : s.closeConnection i = .ok s') :
    s'.Watches := by
  obtain ⟨c, hc, ⟨-, rfl⟩ | ⟨hsock, m, hcs, -, rfl⟩⟩ := closeConnection_cases hs'
  · exact h
  refine ⟨fun fd => ?_, fun hrun => ?_⟩
  swap
  · refine List.mem_filter.2 ⟨h.own hrun, decide_eq_true fun heq => ?_⟩
    exact ((h.others c.socketNum).2 ⟨c, List.mem_of_getElem? hc,
      Client.sockKey_eq_some.2 ⟨rfl, hsock⟩⟩).2 heq.symm
  change fd ∈ FD_CLR c.socketNum s.sockets ∧ fd ≠ s.serverSocket ↔ ∃ e ∈ m.clients, e.sockKey = _
  rw [FD_CLR, List.mem_filter, decide_eq_true_eq, and_right_comm, h.others fd, hcs]
  constructor
  · rintro ⟨⟨e, he, hkey⟩, hne⟩
    obtain ⟨j, hj⟩ := List.mem_iff_getElem?.1 he
    have hij : i ≠ j := by
      rintro rfl
      obtain rfl : c = e := Option.some.inj (hc.symm.trans hj)
      exact hne (Client.sockKey_eq_some.1 hkey).1.symm
    refine ⟨e, List.mem_of_getElem? (i := j) ?_, hkey⟩
    rw [List.getElem?_modify_ne _ _ hij, hj]
  · rintro ⟨e, he, hkey⟩
    rcases mem_modify he with ⟨j, hji, hj⟩ | ⟨a, -, rfl⟩
    · refine ⟨⟨e, List.mem_of_getElem? hj, hkey⟩, fun heq => hji ?_⟩
      exact hb.socks j i e c fd hj hc hkey (Client.sockKey_eq_some.2 ⟨heq.symm, heq ▸ hsock⟩)
    · rw [sockKey_of_neg (disconnect_socketNum a)] at hkey
      cases hkey

/-- A client that has no socket is dropped. -/
theorem Watches.drop {m : ClientManager} (h : s.Watches) (hc : s.mngClient.clients[i]? = some c)
    (hsock : c.socketNum < 0) (hm : SameSocks (s.mngClient.clients.eraseIdx i) m.clients) :
    Watches { s with mngClient := m } := by
  refine Watches.same (s := { s with mngClient :=
    { s.mngClient with clients := s.mngClient.clients.eraseIdx i } })
      ⟨fun fd => (h.others fd).trans ⟨?_, ?_⟩, h.own⟩ hm
  · rintro ⟨e, he, hkey⟩
    obtain ⟨j, hj⟩ := List.mem_iff_getElem?.1 he
    refine ⟨e, List.mem_eraseIdx_iff_getElem?.2 ⟨j, ?_, hj⟩, hkey⟩
    rintro rfl
    obtain rfl : c = e := Option.some.inj (hc.symm.trans hj)
    rw [sockKey_of_neg hsock] at hkey
    cases hkey
  · rintro ⟨e, he, hkey⟩
    exact ⟨e, List.mem_of_mem_eraseIdx he, hkey⟩

theorem Watches.erase {m : ClientManager} (h : s.Watches) (hc : s.mngClient.clients[i]? = some c)
    (hsock : c.socketNum < 0) (hm : s.mngClient.eraseClient i = .ok m) :
    Watches { s with mngClient := m } :=
  h.drop hc hsock (AllKept.sameSocks (AllKept.eraseClient hm))

theorem Watches.dismissed {msg : Text} (h : s.Watches) (hb : s.world.Base)
    (hd : Dismissed msg i s s') : s'.Watches := by
  obtain ⟨s₁, hs₁, herase⟩ := hd
  have htold : Watches { s with mngClient := s.mngClient.sendToClient i msg } := ⟨h.others, h.own⟩
  obtain ⟨-, c, -, hc, hsock, -⟩ := closed_of_closeConnection hs₁
  obtain ⟨m, hm, rfl⟩ := manage_eq_ok.1 herase
  exact (htold.close hb hs₁).erase hc hsock hm

/-- A connection is accepted on a descriptor that was not watched. -/
theorem Watches.accept {ip : Text} {f : ℤ} (h : s.Watches) (hnew : f ∉ s.sockets)
    (hrun : s.isRunning = true) : (s.acceptConnection ip f).Watches := by
  unfold acceptConnection
  split_ifs with hf
  swap
  · exact h
  have hset : FD_SET f s.sockets = f :: s.sockets := if_neg hnew
  refine ⟨fun fd => ?_, fun _ => hset ▸ List.mem_cons_of_mem _ (h.own hrun)⟩
  change fd ∈ FD_SET f s.sockets ∧ fd ≠ s.serverSocket ↔
    ∃ c ∈ s.mngClient.clients ++ [Client.create ip f], c.sockKey = some fd
  have hkey : (Client.create ip f).sockKey = some f := if_neg (not_lt.2 hf.le)
  rw [hset, List.mem_cons, or_and_right, h.others fd]
  constructor
  · rintro (⟨rfl, -⟩ | ⟨c, hc, hc'⟩)
    · exact ⟨_, List.mem_append_right _ (List.mem_singleton.2 rfl), hkey⟩
    · exact ⟨c, List.mem_append_left _ hc, hc'⟩
  · rintro ⟨c, hc, hc'⟩
    rcases List.mem_append.1 hc with hc | hc
    · exact Or.inr ⟨c, hc, hc'⟩
    · rw [List.mem_singleton.1 hc, hkey] at hc'
      obtain rfl := Option.some.inj hc'
      exact Or.inl ⟨rfl, fun heq => hnew (heq ▸ h.own hrun)⟩

theorem Watches.checkCapacity (h : s.Watches) (hb : s.world.Base)
    (hs' : s.checkCapacity = .ok s') : s'.Watches := by
  rcases checkCapacity_cases hs' with ⟨-, k, c, -, hc, hgone, rfl⟩ | ⟨-, -, hdismiss⟩ | ⟨-, rfl⟩
  · have hsock := (hb.sound c (List.mem_of_getElem? hc)).gone hgone
    exact h.drop hc hsock (SameSocks.refl _)
  · exact h.dismissed hb hdismiss
  · exact h

/-- The flags of an instance that is closed before it is erased. -/
theorem Watches.processFlags (h : s.Watches) (hb : s.world.Base) (hfirst : s.ClosedFirst (.flags i))
    (hs' : s.processFlags i = .ok s') : s'.Watches := by
  obtain ⟨c, s₁, c₁, hc, hc₁, hflag, hclose, hsecond⟩ := processFlags_cases hs'
  have hclosed : s₁.Watches ∧ (c₁.flagToErase = true → c₁.socketNum < 0) := by
    rcases hclose with ⟨-, hsock, s₂, hs₂, rfl⟩ | ⟨hdisc, rfl⟩
    · exact ⟨(h.close hb hs₂).same (SameSocks.modify _ fun _ => rfl), fun _ => hsock⟩
    · obtain rfl : c = c₁ := Option.some.inj (hc.symm.trans hc₁)
      exact ⟨h, fun he => (hfirst c hc he).resolve_left (by simp [hdisc])⟩
  rcases hsecond with ⟨he, herase⟩ | ⟨-, rfl⟩
  · obtain ⟨m, hm, rfl⟩ := manage_eq_ok.1 herase
    exact hclosed.1.erase hc₁ (hclosed.2 (hflag.trans he)) hm
  · exact hclosed.1

theorem Watches.closeClientSockets {fuel : ℕ} (h : s.Watches) (hb : s.world.Base)
    (hs' : closeClientSockets fuel s = .ok s') : s'.Watches := by
  have hboth := closeClientSockets_invariant (P := fun s => s.world.Base ∧ s.Watches)
    (fun _ _ hs hst => ⟨hs.1.upds (preserving_upds.dismissed (by simp) hst), hs.2.dismissed hs.1 hst⟩) ⟨hb, h⟩ hs'
  exact hboth.2

/-! ### Steps -/

/-- A step that erases no instance before it was closed. -/
theorem Watches.step (h : s.Watches) (hb : s.world.Base) (hfirst : s.ClosedFirst l)
    (hst : server.Step s l s') : s'.Watches := by
  obtain ⟨hguard, hexec⟩ := hst
  change s.clearSent.handle l = .ok s' at hexec
  have h : s.clearSent.Watches := ⟨h.others, h.own⟩
  change s.clearSent.world.Base at hb
  cases l with
  | accept ip f =>
    exact (h.accept hguard.2 hguard.1).checkCapacity
      (hb.upds (upds_acceptConnection (s := s.clearSent) hguard.2)) hexec
  | frame i f =>
    obtain ⟨c, m, b, -, rfl, ⟨-, rfl⟩ | ⟨-, hserve⟩⟩ := frame_cases hexec
    · exact h
    · exact h.same (AllMarked.sameSocks (AllMarked.serveFrame hserve))
  | close i => exact h.close hb hexec
  | kick i =>
    exact Watches.close
      (s := { s.clearSent with mngClient := s.clearSent.mngClient.sendToClient i SC_KICK })
      ⟨h.others, h.own⟩ hb hexec
  | flags i => exact h.processFlags hb hfirst hexec
  | pair =>
    obtain ⟨m, hm, rfl⟩ := manage_eq_ok.1 hexec
    exact h.same (AllKept.sameSocks (AllKept.pairLoop hm))
  | ping =>
    obtain ⟨m, hm, rfl⟩ := manage_eq_ok.1 hexec
    refine h.same ?_
    rw [(pingClients_spec hm).1]
    exact List.forall₂_map_right_iff.2 (List.forall₂_same.2 fun c _ => quiet_pinged.sock c)
  | shutdown =>
    obtain ⟨s₁, hs₁, h₁⟩ := bind_eq_ok.1 hexec
    cases h₁
    have hwatch := h.closeClientSockets hb hs₁
    refine ⟨fun fd => ?_, nofun⟩
    refine Iff.trans ?_ (hwatch.others fd)
    change fd ∈ FD_CLR s₁.serverSocket s₁.sockets ∧ fd ≠ s₁.serverSocket ↔ _
    rw [FD_CLR, List.mem_filter, decide_eq_true_eq, and_assoc, and_self]

/-- An instance that is erased although it is connected leaves its descriptor behind. -/
theorem not_registered_of_erased (h : s.Watches) (hb : s.world.Base)
    (hc : s.mngClient.clients[i]? = some c) (herase : c.flagToErase = true)
    (hdisc : c.flagToDisconnect = false) (hsock : 0 ≤ c.socketNum)
    (hs' : s.processFlags i = .ok s') : ¬ s'.Registered := by
  obtain ⟨c', hc', h₁⟩ := bind_eq_ok.1 hs'
  obtain rfl : c = c' := Option.some.inj (hc.symm.trans (deref_eq_ok.1 hc'))
  rw [if_neg (by simp [hdisc]), ok_bind, hc', ok_bind, if_pos herase] at h₁
  obtain ⟨m, hm, rfl⟩ := manage_eq_ok.1 h₁
  have hkey := Client.sockKey_eq_some.2 ⟨rfl, hsock⟩
  intro hreg
  obtain ⟨e, he, hekey⟩ := (hreg.watched c.socketNum).1
    ((h.others c.socketNum).2 ⟨c, List.mem_of_getElem? hc, hkey⟩)
  -- no other client has the descriptor
  have hsame : SameSocks (s.mngClient.clients.eraseIdx i) m.clients :=
    AllKept.sameSocks (AllKept.eraseClient hm)
  obtain ⟨k, hk⟩ := List.mem_iff_getElem?.1 he
  obtain ⟨a, ha, hsame⟩ := forall₂_exists_left hsame hk
  obtain ⟨j, hji, hj⟩ := List.mem_eraseIdx_iff_getElem?.1 (List.mem_of_getElem? ha)
  refine hji (hb.socks j i a c c.socketNum hj hc ?_ hkey)
  rw [Client.sockKey, ← hsame]
  exact hekey

/-- **The descriptors that are watched are those of the clients** in every run in which no instance
is erased before it was closed, and no longer after an instance was. -/
theorem registered_iff (h : server.ReachableIf ClosedFirst (create clients rooms fd) s) :
    s.Registered ∧ ∀ l s', server.Step s l s' → (s'.Registered ↔ s.ClosedFirst l) := by
  have hreach : Server.Reachable clients rooms fd s := System.ReachableIf.reachable h
  have hwatch : s.Watches := by
    induction h with
    | refl =>
      refine ⟨fun f => ⟨fun hf => ?_, fun ⟨c, hc, _⟩ => by cases hc⟩, fun _ => List.mem_cons_self⟩
      exact absurd (List.mem_singleton.1 hf.1) hf.2
    | tail hrun hst ih =>
      obtain ⟨l, hfirst, hst⟩ := hst
      have hbefore : Server.Reachable clients rooms fd _ := System.ReachableIf.reachable hrun
      exact (ih hbefore).step hbefore.base hfirst hst
  refine ⟨⟨hwatch.others, hreach.base.socks⟩, fun l s' hst => ⟨fun hreg => ?_, fun hfirst => ?_⟩⟩
  · cases l with
    | flags i =>
      intro c hc herase
      by_contra hnot
      obtain ⟨hdisc, hsock⟩ := not_or.1 hnot
      exact not_registered_of_erased (s := s.clearSent) ⟨hwatch.others, hwatch.own⟩ hreach.base hc
        herase (by simpa using hdisc) (not_lt.1 hsock) hst.2 hreg
    | accept | frame | close | kick | pair | ping | shutdown => exact trivial
  · exact ⟨(hwatch.step hreach.base hfirst hst).others,
      (hreach.base.upds (server_step_upds hst)).socks⟩

/-- A client logs out, and its instance is erased when the countdown has ended. -/
theorem registered_logout : ∃ s : Server, s.mngClient.clients = [] ∧ s.Registered ∧
    ∀ l s', server.Step s l s' → (s'.Registered ↔ s.ClosedFirst l) := by
  have hrun : (server.replay ClosedFirst (create 10 5 3)
      [.accept "10.0.0.4".toList 4, .frame 0 (.connect alice), .close 0, .ping, .ping,
        .flags 0]).any (fun s => decide (s.mngClient.clients = [])) = true := by
    decide +kernel
  obtain ⟨s, hs, ht⟩ := System.exists_reachableIf hrun
  exact ⟨s, of_decide_eq_true ht, registered_iff hs⟩

/-- A session that is Ready is taken over from another connection and erased: its descriptor is
still watched. -/
theorem descriptor_left_behind : ∃ (s : Server) (f : ℤ), Server.Reachable 10 5 3 s ∧
    f ∈ s.sockets ∧ f ≠ s.serverSocket ∧ ¬ ∃ c ∈ s.mngClient.clients, c.sockKey = some f := by
  have hrun : (server.replay (fun _ _ => True) (create 10 5 3)
      [.accept "10.0.0.4".toList 4, .accept "10.0.0.4".toList 5, .frame 0 (.connect alice),
        .frame 0 .ready, .frame 1 (.connect alice), .flags 0]).any (fun s =>
        decide (4 ∈ s.sockets ∧ 4 ≠ s.serverSocket ∧
          ¬ ∃ c ∈ s.mngClient.clients, c.sockKey = some 4)) = true := by
    decide +kernel
  obtain ⟨s, hs, ht⟩ := exists_reachable hrun
  exact ⟨s, 4, hs, of_decide_eq_true ht⟩

end Server

end HnefServer
