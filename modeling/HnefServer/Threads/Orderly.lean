import HnefServer.Invariant.NoFault
import HnefServer.Threads.Atomic

/-!
# Orderly threads

An action of a process is orderly when it takes no branch of the requests that looks at less than
it should (`Process.Orderly`): the frames that the main thread reads from a buffer are orderly one
after the other, and the capacity check evicts no player.  Then the clients and the rooms agree
between any two actions, also in the middle of a pass, and no step of a thread faults
(`Process.ends_act`).
-/

namespace HnefServer

open Protocol ClientManager Hall

/-! ### Orderly passes -/

/-- The frames of a client take, one after the other, no branch that looks at less than it
should. -/
def ClientManager.OrderlyFrames (i : ℕ) : ClientManager → List Frame → Prop
  | _, [] => True
  | m, d :: ds => (∀ c ∈ m.clients[i]?, m.OrderlyFrame false c d) ∧
      ∀ p ∈ (m.handleFrame i d).toOption, p.2 = 0 → OrderlyFrames i p.1 ds

/-- Whether frames are orderly is decided by handling them. -/
def ClientManager.decidableOrderlyFrames (i : ℕ) :
    (m : ClientManager) → (ds : List Frame) → Decidable (m.OrderlyFrames i ds)
  | _, [] => isTrue trivial
  | m, d :: ds =>
    have (p : ClientManager × ℤ) : Decidable (p.1.OrderlyFrames i ds) :=
      decidableOrderlyFrames i p.1 ds
    inferInstanceAs (Decidable ((∀ c ∈ m.clients[i]?, m.OrderlyFrame false c d) ∧
      ∀ p ∈ (m.handleFrame i d).toOption, p.2 = 0 → p.1.OrderlyFrames i ds))

instance (i : ℕ) (m : ClientManager) (ds : List Frame) : Decidable (m.OrderlyFrames i ds) :=
  m.decidableOrderlyFrames i ds

/-- If the loop over the clients serves the one at `cli`, and the buffer is valid, its frames are
orderly. -/
def Server.OrderlyUpdate (s : Server) (ev : Events) (cli : ℕ) : Prop :=
  ∀ c ∈ s.mngClient.clients[cli]?, c.flagToDisconnect = false → c.flagToErase = false →
    0 ≤ c.socketNum → c.socketNum ∉ ev.fds_except → c.socketNum ∈ ev.fds_read →
    ∀ buffer, ev.received c.socketNum = .message buffer → isValidFormat buffer = 0 →
      ∃ ds, ds ≠ [] ∧ buffer = Frame.wire ds ∧ s.mngClient.OrderlyFrames cli ds

/-- The clients and the rooms agree, and there is a limit. -/
structure Server.Sane (s : Server) : Prop where
  member : s.hall.Member
  maxClients : 0 < s.maxClients

namespace Server

variable {s s' : Server} {m : ClientManager} {ev : Events} {i cli : ℕ} {c : Client}

/-- A change of the clients and the rooms that keeps the setup. -/
theorem Sane.changes (hs : s.Sane) (h : Changes false s.hall s'.hall) (hset : SameSetup s s') :
    s'.Sane :=
  ⟨hs.member.changes h, hset.maxClients ▸ hs.maxClients⟩

theorem ends_closeConnection (hs : s.Sane) (hc : s.mngClient.clients[i]? = some c) :
    Ends Sane (s.closeConnection i) :=
  .of_returns (returns_closeConnection hs.member hc) fun _ h =>
    hs.changes (changes_closeConnection hs.member h) (.closeConnection h)

/-- An instance without a connection is erased. -/
theorem ends_erase (hs : s.Sane) (hc : s.mngClient.clients[i]? = some c)
    (hsock : c.socketNum < 0) : Ends Sane (s.manage (s.mngClient.eraseClient i)) := by
  have hm := hs.member
  refine .of_returns (returns_manage ?_) fun _ h =>
    hs.changes (changes_erase hm hc hsock h) (.manage h)
  exact returns_eraseClient hm.names hc fun h => hm.opponent hc h.1 h.2.1

theorem ends_checkCapacity (hs : s.Sane) (hevict : s.EvictsNoPlayer) :
    Ends Sane s.checkCapacity :=
  .of_returns (returns_checkCapacity hs.member hs.maxClients) fun _ h =>
    hs.changes (changes_checkCapacity hs.member hevict h) (SameSetup.preserving.checkCapacity h)

theorem Sane.acceptRequest (hs : s.Sane) (ev : Events) : (s.acceptRequest ev).Sane := by
  unfold Server.acceptRequest
  split_ifs
  · exact hs.changes changes_acceptConnection (.acceptConnection _ _)
  · exact hs

/-! ### Serving a client -/

theorem ends_handleFrame {d : Frame} (hm : m.hall.Member)
    (hi : ∃ c, m.clients[i]? = some c ∧ 0 ≤ c.socketNum)
    (ho : ∀ c ∈ m.clients[i]?, m.OrderlyFrame false c d) :
    Ends (fun p => p.1.hall.Member) (m.handleFrame i d) := by
  obtain ⟨c, hc, hsock⟩ := hi
  refine .of_returns (returns_handleFrame hm hc hsock (ho c hc)) fun p h => ?_
  rw [handleFrame, deref_eq_ok.2 hc, ok_bind] at h
  split_ifs at h with hacc
  · have hserve : Changes false m.hall p.1.hall :=
      changes_serveFrame hm hc hsock (ho c hc) hacc h
    exact hm.changes hserve
  · cases h
    exact hm

theorem ends_handleFrames {ds : List Frame} (hm : m.hall.Member)
    (hi : ∃ c, m.clients[i]? = some c ∧ 0 ≤ c.socketNum) (ho : m.OrderlyFrames i ds) :
    Ends (fun p => p.1.hall.Member) (handleFrames i m ds) := by
  induction ds generalizing m with
  | nil => exact .ok hm
  | cons d ds ih =>
    rw [handleFrames]
    refine (ends_handleFrame hm hi ho.1).bind fun p hp hm₁ => ?_
    dsimp only
    split_ifs with hzero
    · exact .ok hm₁
    · have hsame : SameSocks m.clients p.1.clients :=
        AllMarked.sameSocks (AllMarked.handleFrame hp)
      obtain ⟨c, hc, hsock⟩ := hi
      obtain ⟨c', hc', heq⟩ := forall₂_exists_right hsame hc
      exact ih hm₁ ⟨c', hc', heq ▸ hsock⟩ (ho.2 p (by rw [hp]; rfl) (not_not.1 hzero))

theorem ends_serveClient {buffer : Text} (hm : m.hall.Member)
    (hi : ∃ c, m.clients[i]? = some c ∧ 0 ≤ c.socketNum)
    (ho : isValidFormat buffer = 0 →
      ∃ ds, ds ≠ [] ∧ buffer = Frame.wire ds ∧ m.OrderlyFrames i ds) :
    Ends (fun p => p.1.hall.Member) (m.serveClient i buffer) := by
  by_cases hvalid : isValidFormat buffer = 0
  · obtain ⟨ds, hne, rfl, hds⟩ := ho hvalid
    rw [serveClient_wire hne]
    exact ends_handleFrames hm hi hds
  · simp only [serveClient, if_neg hvalid, ne_eq, not_true_eq_false, if_false]
    exact .ok hm

/-- **An orderly iteration of the loop over the clients returns**, and keeps the invariant. -/
theorem ends_updateClient (hs : s.Sane) (hc : s.mngClient.clients[cli]? = some c)
    (ho : s.OrderlyUpdate ev cli) : Ends (fun p => p.1.Sane) (updateClient ev s cli) := by
  have hclose : Ends (fun p : Server × ℕ => p.1.Sane)
      (do return (← s.closeConnection cli, cli)) :=
    (ends_closeConnection hs hc).bind fun _ _ hs₁ => .ok hs₁
  rw [updateClient, deref_eq_ok.2 hc, ok_bind]
  split_ifs with hdisc herase hsock hexcept hread
  · refine (ends_closeConnection hs hc).bind fun s₁ h₁ hs₁ => .ok ?_
    obtain ⟨-, c₁, -, hc₁, hsock₁, -⟩ := closed_of_closeConnection h₁
    have hok := hs₁.member.ok c₁ (List.mem_of_getElem? hc₁)
    have hreset : Changes false s₁.hall
        (s₁.mngClient.modify cli (·.setFlagToDisconnect false)).hall :=
      change_client hc₁ rfl rfl ⟨hok.clearFlag hsock₁, rfl, rfl⟩ fun _ _ => rfl
    exact hs₁.changes hreset ⟨rfl, rfl, rfl, rfl⟩
  · -- who is flagged to be erased only has no connection
    have hok := hs.member.ok c (List.mem_of_getElem? hc)
    have hgone := hok.flags herase (Bool.eq_false_iff.2 hdisc)
    exact (ends_erase hs hc hgone).bind fun _ _ hs₁ => .ok hs₁
  · exact .ok hs
  · exact hclose
  · cases hrecv : ev.received c.socketNum with
    | nothing => exact hclose
    | message buffer =>
      have hserved := ends_serveClient hs.member ⟨c, hc, not_lt.1 hsock⟩
        (ho c hc (Bool.eq_false_iff.2 hdisc) (Bool.eq_false_iff.2 herase) (not_lt.1 hsock)
          hexcept hread buffer hrecv)
      refine hserved.bind fun p hp hm => ?_
      have hs₁ : Sane { s with mngClient := p.1 } := ⟨hm, hs.maxClients⟩
      dsimp only
      split_ifs
      · obtain ⟨c₁, hc₁, -⟩ := forall₂_exists_right (sameSocks_serveClient hp) hc
        exact (ends_closeConnection (s := { s with mngClient := p.1.sendToClient cli SC_KICK })
          ⟨hm, hs.maxClients⟩ hc₁).bind fun _ _ hs₂ => .ok hs₂
      · exact .ok hs₁
  · exact .ok hs

end Server

/-! ### Orderly actions -/

namespace Process

/-- An action that takes no branch that looks at less than it should. -/
def Orderly (p : Process) : Action → Prop
  | .main =>
    match p.main with
    | .accepting ev => (p.server.acceptRequest ev).EvictsNoPlayer
    | .updating ev cli => p.server.OrderlyUpdate ev cli
    | _ => True
  | _ => True

variable {clients rooms : ℕ} {fd : ℤ} {p q : Process} {a : Action}

theorem ends_closeFirst {s : Server} (hs : s.Sane) (hne : s.mngClient.clients ≠ []) :
    Ends Server.Sane (closeFirst s) := by
  obtain ⟨c, hc⟩ := exists_client (m := s.mngClient) (List.length_pos_iff.2 hne)
  have htold : Server.Sane { s with mngClient := s.mngClient.sendToClient 0 SC_SHDW } :=
    ⟨hs.member, hs.maxClients⟩
  refine (Server.ends_closeConnection htold hc).bind fun s₁ h₁ hs₁ => ?_
  obtain ⟨-, c₁, -, hc₁, hsock₁, -⟩ := Server.closed_of_closeConnection h₁
  exact Server.ends_erase hs₁ hc₁ hsock₁

theorem ends_stepMain (hs : p.server.Sane) (ho : p.Orderly .main) :
    Ends (fun q => q.server.Sane) p.stepMain := by
  obtain ⟨s, on, mtx, main, ping⟩ := p
  cases main with
  | test | copied _ | updated | closed _ | joining _ | selecting _ | entering _ _ | done _ =>
    exact .ok hs
  | stopping crash => exact .ok ⟨hs.member, hs.maxClients⟩
  | selected activity =>
    simp only [stepMain]
    split_ifs
    · exact .ok hs
    · rcases activity with - | ⟨r, e⟩
      · exact .ok hs
      · exact .ok hs
  | accepting ev =>
    exact (Server.ends_checkCapacity (hs.acceptRequest ev) ho).bind fun _ _ hs₁ => .ok hs₁
  | updating ev cli =>
    simp only [stepMain]
    split_ifs with hlt
    · obtain ⟨c, hc⟩ := exists_client hlt
      exact (Server.ends_updateClient hs hc ho).bind fun _ _ hs₁ => .ok hs₁
    · have hpair : Returns s.mngClient.moveReadyClientsToPlay := returns_pairLoop _
      refine Ends.bind (.of_returns (Server.returns_manage hpair) fun s₁ h₁ => ?_)
        fun _ _ hs₁ => .ok hs₁
      obtain ⟨m, hm, rfl⟩ := Server.manage_eq_ok.1 h₁
      exact hs.changes (changes_pairLoop hs.member hm) ⟨rfl, rfl, rfl, rfl⟩
  | closing crash =>
    simp only [stepMain]
    split_ifs with hnil
    · exact .ok ⟨hs.member, hs.maxClients⟩
    · exact (ends_closeFirst hs hnil).bind fun _ _ hs₁ => .ok hs₁

theorem ends_stepPing (hs : p.server.Sane) : Ends (fun q => q.server.Sane) p.stepPing := by
  obtain ⟨s, on, mtx, main, ping⟩ := p
  cases ping with
  | test | woken | leaving | waiting | finished => exact .ok hs
  | entering => exact .ok ⟨hs.member, hs.maxClients⟩
  | round cli =>
    simp only [stepPing]
    split_ifs with hlt
    · obtain ⟨c, hc⟩ := exists_client hlt
      refine Ends.bind (.of_returns (Server.returns_manage (returns_pingClient hs.member hc))
        fun s₁ h₁ => ?_) fun _ _ hs₁ => .ok hs₁
      obtain ⟨m, hm, rfl⟩ := Server.manage_eq_ok.1 h₁
      exact hs.changes (changes_pingClient hs.member hm) ⟨rfl, rfl, rfl, rfl⟩
    · exact .ok hs

/-- **An orderly action returns**, and the clients and the rooms agree after it. -/
theorem ends_act (hs : p.server.Sane) (ho : p.Orderly a) :
    Ends (fun q => q.server.Sane) (p.act a) := by
  cases a with
  | signal | select _ | timeout => exact .ok hs
  | update accepted received =>
    obtain ⟨s, on, mtx, main, ping⟩ := p
    cases main with
    | entering r e => exact .ok ⟨hs.member, hs.maxClients⟩
    | _ => exact .ok hs
  | main => exact ends_stepMain hs ho
  | ping => exact ends_stepPing hs

/-- The processes that the threads reach by orderly actions. -/
def OrderlyReachable (clients rooms : ℕ) (fd : ℤ) (p : Process) : Prop :=
  threads.ReachableIf Orderly (start clients rooms fd) p

/-- **The clients and the rooms agree between any two actions.** -/
theorem OrderlyReachable.sane (h : OrderlyReachable clients rooms fd p) : p.server.Sane := by
  refine System.ReachableIf.invariant (I := fun p : Process => p.server.Sane) h
    ⟨.create clients rooms fd, Nat.succ_pos clients⟩ fun p a q hs ho hst => ?_
  obtain ⟨q', hq', hs'⟩ := ends_act hs ho
  obtain rfl : q = q' := Except.ok.inj (hst.2.symm.trans hq')
  exact hs'

/-- **No orderly action faults.** -/
theorem OrderlyReachable.not_faults (h : OrderlyReachable clients rooms fd p)
    (ho : p.Orderly a) : ¬ threads.Faults p a := by
  rw [System.not_faults_iff]
  intro hguard
  obtain ⟨q, hq, -⟩ := ends_act h.sane ho
  exact ⟨q, hguard, hq⟩

end Process

end HnefServer
