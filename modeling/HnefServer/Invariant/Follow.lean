import HnefServer.Invariant.Base
import HnefServer.Invariant.Kept

/-!
# Following the instances

A client instance is a position of the client vector, and a step of the server may move it: the
accepted connection is appended, an evicted or erased instance leaves a gap that closes.
`Server.follow` does to any list that runs parallel to the vector what a step does to the vector,
so that a list of clients, of records or of anything else can be compared with the vector after
the step, instance by instance.  `server_step_followed` is the comparison for all steps but a
connect request and a ping round.
-/

namespace HnefServer

open Protocol ClientManager

namespace Server

/-- The instance that the check of the capacity erases. -/
def evicted (s : Server) : Option ℕ :=
  if s.mngClient.clients.length = s.maxClients then
    some (s.mngClient.longestDisconnected.getD (s.mngClient.clients.length - 1))
  else none

/-- A list that runs parallel to the clients, after a step; `new` makes the entry of an accepted
connection. -/
def follow {α : Type*} (s : Server) (l : Input) (new : Text → ℤ → α) (xs : List α) : List α :=
  match l with
  | .accept ip fd =>
    let ys := if fd > 0 then xs ++ [new ip fd] else xs
    match (s.acceptConnection ip fd).evicted with
    | some k => ys.eraseIdx k
    | none => ys
  | .flags k => if ∃ c ∈ s.mngClient.clients[k]?, c.flagToErase = true then xs.eraseIdx k else xs
  | .shutdown => []
  | _ => xs

/-- What a step keeps of the instance `c`, unless it closes its connection. -/
def Followed (strict : Bool) (c c' : Client) : Prop :=
  Kept strict c c' ∨ c'.nick = c.nick ∧ c'.ipAddress = c.ipAddress ∧
    c'.socketNum < 0 ∧ c'.state = .disconnected

/-- The move is made in the room. -/
def MoveMade (r : RoomHnefatafl) (t : Text) : Prop := ∃ r', r.processMove t = .ok (r', true)

instance (r : RoomHnefatafl) (t : Text) : Decidable (MoveMade r t) :=
  match h : r.processMove t with
  | .ok (r', true) => isTrue ⟨r', h⟩
  | .ok (r', false) => isFalse fun ⟨_, h'⟩ => by simp [h] at h'
  | .error _ => isFalse fun ⟨_, h'⟩ => by simp [h] at h'

/-- The player on turn is there when the move is made that its opponent, or it, asks for. -/
def MoverPresent (s : Server) : Input → Prop
  | .frame i (.move t) => ∀ c ∈ s.mngClient.clients[i]?, (Frame.move t).acceptedIn c.state = true →
      ∀ r ∈ s.mngClient.lobby.games[s.mngClient.lobby.getRoomById c.roomId]?, MoveMade r t.text →
        ∀ d ∈ s.mngClient.clients[s.mngClient.findClientByNick r.onTurn]?, d.state ≠ .disconnected
  | _ => True

instance (s : Server) : (l : Input) → Decidable (s.MoverPresent l)
  | .frame i (.move t) => inferInstanceAs (Decidable (∀ c ∈ s.mngClient.clients[i]?, _ →
      ∀ r ∈ s.mngClient.lobby.games[s.mngClient.lobby.getRoomById c.roomId]?, MoveMade r t.text →
        ∀ d ∈ s.mngClient.clients[s.mngClient.findClientByNick r.onTurn]?, _))
  | .frame _ .ping | .frame _ .pong | .frame _ (.connect _) | .frame _ .ready | .frame _ .leave
  | .frame _ .ok | .frame _ (.chat _) | .accept _ _ | .close _ | .kick _ | .flags _ | .pair
  | .ping | .shutdown => isTrue trivial

end Server

open Server

variable {strict : Bool} {s s' : Server} {i : ℕ} {l : Input}

/-- All instances are followed. -/
abbrev AllFollowed (strict : Bool) : List Client → List Client → Prop :=
  List.Forall₂ (Followed strict)

namespace AllFollowed

variable {cs cs' cs'' : List Client}

theorem of_kept (h : AllKept strict cs cs') : AllFollowed strict cs cs' :=
  h.imp fun _ _ => Or.inl

theorem refl (cs : List Client) : AllFollowed strict cs cs := of_kept (AllKept.refl cs)

theorem kept (h : AllFollowed strict cs cs') (h' : AllKept true cs' cs'') :
    AllFollowed strict cs cs'' := by
  refine forall₂_trans h h' fun c d e hcd hde => ?_
  rcases hcd with hcd | ⟨hn, hip, hsock, hgone⟩
  · exact Or.inl (hcd.trans hde.weaken)
  · exact Or.inr ⟨hde.nick.trans hn, hde.address.trans hip, hde.sock.symm ▸ hsock,
      (hde.gone rfl).2 hgone⟩

theorem close (h : s.closeConnection i = .ok s') :
    AllFollowed strict s.mngClient.clients s'.mngClient.clients := by
  obtain ⟨c, hc, ⟨-, rfl⟩ | ⟨-, m, hcs, -, rfl⟩⟩ := closeConnection_cases h
  · exact refl _
  · change AllFollowed strict _ m.clients
    rw [hcs]
    exact forall₂_modify (R := Followed strict) (fun c => Or.inl (Kept.refl c))
      fun c _ => Or.inr ⟨rfl, rfl, disconnect_socketNum c, rfl⟩

/-- The connection of an instance is closed and the instance is erased. -/
theorem close_erase (hclose : s.closeConnection i = .ok s')
    {s'' : Server} (herase : s'.manage (s'.mngClient.eraseClient i) = .ok s'') :
    AllFollowed strict (s.mngClient.clients.eraseIdx i) s''.mngClient.clients := by
  obtain ⟨m, hm, rfl⟩ := manage_eq_ok.1 herase
  have hclosed : AllFollowed strict s.mngClient.clients s'.mngClient.clients := close hclose
  exact kept (forall₂_eraseIdx hclosed i) (AllKept.eraseClient hm)

end AllFollowed

namespace Server

theorem clients_acceptConnection (ip : Text) (fd : ℤ) :
    (s.acceptConnection ip fd).mngClient.clients =
      if fd > 0 then s.mngClient.clients ++ [Client.create ip fd] else s.mngClient.clients := by
  unfold acceptConnection
  split_ifs
  · rfl
  · rfl

/-- The check of the capacity erases the evicted instance. -/
theorem checkCapacity_followed (h : s.checkCapacity = .ok s') :
    AllFollowed strict (match s.evicted with
      | some k => s.mngClient.clients.eraseIdx k
      | none => s.mngClient.clients) s'.mngClient.clients := by
  unfold evicted
  rcases checkCapacity_cases h with ⟨hfull, k, c, hk, -, -, rfl⟩ | ⟨hfull, hk, s₁, hs₁, herase⟩ |
    ⟨hfull, rfl⟩
  · rw [if_pos hfull, hk]
    exact AllFollowed.refl _
  · rw [if_pos hfull, hk]
    exact AllFollowed.close_erase (s := { s with mngClient := s.mngClient.sendToClient _ _ }) hs₁
      herase
  · rw [if_neg hfull]
    exact AllFollowed.refl _

/-- The flags of an instance are processed: it is erased iff it is flagged so. -/
theorem processFlags_followed (h : s.processFlags i = .ok s') :
    AllFollowed strict (if ∃ c ∈ s.mngClient.clients[i]?, c.flagToErase = true then
      s.mngClient.clients.eraseIdx i else s.mngClient.clients) s'.mngClient.clients := by
  obtain ⟨c, s₁, c₁, hc, -, -, hfirst, hsecond⟩ := processFlags_cases h
  have hclosed : AllFollowed strict s.mngClient.clients s₁.mngClient.clients := by
    rcases hfirst with ⟨-, -, s₂, hs₂, rfl⟩ | ⟨-, rfl⟩
    · have hclose : AllFollowed strict s.mngClient.clients s₂.mngClient.clients :=
        AllFollowed.close hs₂
      exact hclose.kept (AllKept.modify fun _ _ => .of_state rfl rfl rfl rfl)
    · exact AllFollowed.refl _
  rcases hsecond with ⟨he, herase⟩ | ⟨he, rfl⟩
  · rw [if_pos ⟨c, hc, he⟩]
    obtain ⟨m, hm, rfl⟩ := manage_eq_ok.1 herase
    exact AllFollowed.kept (forall₂_eraseIdx hclosed i) (AllKept.eraseClient hm)
  · rw [if_neg (by simp [hc, he])]
    exact hclosed

end Server

/-- **The instances are followed** by every step but a connect request and a ping round. -/
theorem server_step_followed (hb : s.world.Base) (h : server.Step s l s')
    (hconnect : ∀ i n, l ≠ .frame i (.connect n)) (hping : l ≠ .ping)
    (hturn : strict = true → s.MoverPresent l) :
    AllFollowed strict (s.follow l Client.create s.mngClient.clients) s'.mngClient.clients := by
  obtain ⟨hguard, hexec⟩ := h
  change s.clearSent.handle l = .ok s' at hexec
  cases l with
  | accept ip fd =>
    have hcap : AllFollowed strict _ s'.mngClient.clients := checkCapacity_followed hexec
    have hevicted : (s.clearSent.acceptConnection ip fd).evicted =
        (s.acceptConnection ip fd).evicted := by
      unfold acceptConnection
      split_ifs
      · rfl
      · rfl
    rw [hevicted, clients_acceptConnection] at hcap
    exact hcap
  | frame i f =>
    obtain ⟨c, m, b, hc, rfl, ⟨-, rfl⟩ | ⟨hacc, hserve⟩⟩ := frame_cases hexec
    · exact AllFollowed.refl _
    · obtain ⟨-, c', hc', hsock⟩ := hguard
      obtain rfl : c = c' := Option.some.inj (hc.symm.trans hc')
      have hsound := hb.sound c (List.mem_of_getElem? hc')
      refine AllFollowed.of_kept (AllKept.serveFrame (m := s.clearSent.mngClient)
        (fun n hn => hconnect i n (hn ▸ rfl)) hc hsound ?_ ?_ hserve)
      · intro hgone
        have hneg := hsound.gone hgone
        omega
      · rintro t rfl hstrict r r' hr hmade d hd
        exact hturn hstrict c hc' hacc r hr ⟨r', hmade⟩ d hd
  | close i => exact AllFollowed.close (s := s.clearSent) hexec
  | kick i =>
    exact AllFollowed.close
      (s := { s.clearSent with mngClient := s.clearSent.mngClient.sendToClient i SC_KICK }) hexec
  | flags i => exact processFlags_followed (s := s.clearSent) hexec
  | pair =>
    obtain ⟨m, hm, rfl⟩ := manage_eq_ok.1 hexec
    exact AllFollowed.of_kept (AllKept.pairLoop (m := s.clearSent.mngClient) hm)
  | ping => exact absurd rfl hping
  | shutdown =>
    obtain ⟨s₁, hs₁, h₁⟩ := bind_eq_ok.1 hexec
    cases h₁
    have hend := nil_of_closeClientSockets le_rfl hs₁
    change AllFollowed strict [] s₁.mngClient.clients
    rw [hend]
    exact .nil

/-- Lists that agree position by position agree after a step. -/
theorem Server.follow_forall₂ {α β : Type*} {R : α → β → Prop} {new : Text → ℤ → α}
    {new' : Text → ℤ → β} {xs : List α} {ys : List β} (h : List.Forall₂ R xs ys)
    (hnew : ∀ ip fd, 0 < fd → R (new ip fd) (new' ip fd)) :
    List.Forall₂ R (s.follow l new xs) (s.follow l new' ys) := by
  cases l with
  | accept ip fd =>
    have happend : List.Forall₂ R (if fd > 0 then xs ++ [new ip fd] else xs)
        (if fd > 0 then ys ++ [new' ip fd] else ys) := by
      split_ifs with hfd
      · exact forall₂_append h (.cons (hnew ip fd hfd) .nil)
      · exact h
    dsimp only [follow]
    cases (s.acceptConnection ip fd).evicted with
    | none => exact happend
    | some k => exact forall₂_eraseIdx happend k
  | flags k =>
    dsimp only [follow]
    split_ifs
    · exact forall₂_eraseIdx h k
    · exact h
  | shutdown => exact .nil
  | frame | close | kick | pair | ping => exact h

end HnefServer
