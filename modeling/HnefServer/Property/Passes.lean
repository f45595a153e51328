import HnefServer.Invariant.Follow
import HnefServer.Invariant.Marks
import HnefServer.Invariant.Steps
import HnefServer.Network.Pass
import HnefServer.Network.Setup
import HnefServer.Property.Decode

/-!
# The passes of the main loop

A pass of the main loop handles inputs of the server, one after the other
(`updateClients_handled`), so that the invariants of all runs hold after every pass
(`passes_base`).  The loop over the clients ends at the end of the vector (`updateLoop_ends`).
-/

namespace HnefServer

open Protocol ClientManager

namespace Server

variable {ev : Events} {s s' : Server} {cli cli' i : ℕ} {m m' : ClientManager}

/-! ### Sequences of inputs -/

/-- The server handles some inputs one after the other, in one log. -/
def Handled : Server → Server → Prop :=
  Relation.ReflTransGen fun s s' => ∃ l, s.guard l ∧ s.handle l = .ok s'

theorem Handled.refl (s : Server) : Handled s s := Relation.ReflTransGen.refl

theorem Handled.single {l : Input} (hguard : s.guard l) (h : s.handle l = .ok s') :
    Handled s s' := Relation.ReflTransGen.single ⟨l, hguard, h⟩

theorem Handled.trans {s'' : Server} (h : Handled s s') (h' : Handled s' s'') : Handled s s'' :=
  Relation.ReflTransGen.trans h h'

theorem Handled.upds (h : Handled s s') : s.world.Upds s'.world := by
  induction h with
  | refl => exact .refl _
  | tail _ hst ih =>
    obtain ⟨l, hguard, hl⟩ := hst
    exact ih.trans (upds_handle hguard hl)

/-! ### Serving a client -/

theorem connected_of_sameSocks (h : SameSocks s.mngClient.clients m.clients)
    (hi : s.Connected i) : Connected { s with mngClient := m } i := by
  obtain ⟨c, hc, hsock⟩ := hi
  obtain ⟨c', hc', heq⟩ := forall₂_exists_right h hc
  exact ⟨c', hc', heq ▸ hsock⟩

/-- Serving a client is handling frames, none if the buffer is not valid. -/
theorem serveClient_frames {buffer : Text} {valid : ℤ}
    (h : m.serveClient i buffer = .ok (m', valid)) :
    m' = m ∨ ∃ ds, handleFrames i m ds = .ok (m', valid) := by
  by_cases hvalid : isValidFormat buffer = 0
  · obtain ⟨ds, hne, rfl⟩ := Frame.isValidFormat_iff.1 hvalid
    rw [serveClient_wire hne] at h
    exact Or.inr ⟨ds, h⟩
  · simp only [serveClient, if_neg hvalid, ne_eq, not_true_eq_false, if_false] at h
    cases h
    exact Or.inl rfl

/-- All marks are still there after a client was served. -/
theorem allMarked_serveClient {buffer : Text} {valid : ℤ}
    (h : m.serveClient i buffer = .ok (m', valid)) : AllMarked m.clients m'.clients := by
  rcases serveClient_frames h with rfl | ⟨ds, hds⟩
  · exact AllMarked.refl _
  · exact AllMarked.handleFrames hds

theorem sameSocks_serveClient {buffer : Text} {valid : ℤ}
    (h : m.serveClient i buffer = .ok (m', valid)) : SameSocks m.clients m'.clients :=
  AllMarked.sameSocks (allMarked_serveClient h)

/-- The frames of a client that is connected are inputs of the server. -/
theorem handleFrames_handled {ds : List Frame} {b : ℤ} (hrun : s.isRunning = true)
    (hi : s.Connected i) (h : handleFrames i s.mngClient ds = .ok (m, b)) :
    Handled s { s with mngClient := m } := by
  induction ds generalizing s with
  | nil =>
    cases h
    exact .refl _
  | cons d ds ih =>
    obtain ⟨m₁, b₁, hd, hrest⟩ := handleFrames_cons_cases h
    have hstep : s.handle (.frame i d) = .ok { s with mngClient := m₁ } := by
      refine manage_eq_ok.2 ⟨m₁, ?_, rfl⟩
      rw [routeRequest_map_fst, hd]
      rfl
    have hfirst : Handled s { s with mngClient := m₁ } :=
      .single (l := .frame i d) ⟨hrun, hi⟩ hstep
    rcases hrest with ⟨-, hrest⟩ | ⟨-, rfl, -⟩
    · have hsame : SameSocks s.mngClient.clients m₁.clients :=
        AllMarked.sameSocks (AllMarked.handleFrame hd)
      exact hfirst.trans (ih (s := { s with mngClient := m₁ }) hrun
        (connected_of_sameSocks hsame hi) hrest)
    · exact hfirst

theorem serveClient_handled {buffer : Text} {valid : ℤ} (hrun : s.isRunning = true)
    (hi : s.Connected i) (h : s.mngClient.serveClient i buffer = .ok (m, valid)) :
    Handled s { s with mngClient := m } := by
  rcases serveClient_frames h with rfl | ⟨ds, hds⟩
  · exact .refl _
  · exact handleFrames_handled hrun hi hds

/-! ### The loop over the clients -/

theorem length_closeConnection (h : s.closeConnection i = .ok s') :
    s'.mngClient.clients.length = s.mngClient.clients.length := by
  obtain ⟨c, -, ⟨-, rfl⟩ | ⟨-, m, hcs, -, rfl⟩⟩ := closeConnection_cases h
  · rfl
  · simp [hcs]

/-- An iteration of the loop keeps the setup. -/
theorem SameSetup.updateClient (h : updateClient ev s cli = .ok (s', cli')) : SameSetup s s' := by
  obtain ⟨c, -, ⟨-, -, s₁, hs₁, rfl⟩ | ⟨-, -, -, herase⟩ | ⟨-, -, ⟨-, rfl⟩ | ⟨-, ⟨-, hclose⟩ |
    ⟨buffer, m, valid, -, ⟨-, -, hkick⟩ | ⟨-, -, rfl⟩⟩⟩⟩⟩ := updateClient_cases h
  · have hclose := SameSetup.closeConnection hs₁
    exact ⟨hclose.maxClients, hclose.maxRooms, hclose.serverSocket, hclose.isRunning⟩
  · exact manage herase
  · exact refl _
  · exact closeConnection hclose
  · have hclose : SameSetup { s with mngClient := m.sendToClient cli SC_KICK } s' :=
      closeConnection hkick
    exact ⟨hclose.maxClients, hclose.maxRooms, hclose.serverSocket, hclose.isRunning⟩
  · exact ⟨rfl, rfl, rfl, rfl⟩

theorem SameSetup.updateLoop {fuel : ℕ} (h : updateLoop ev fuel s cli = .ok (s', cli')) :
    SameSetup s s' := by
  induction fuel generalizing s cli with
  | zero =>
    cases h
    exact refl _
  | succ fuel ih =>
    rw [Server.updateLoop] at h
    split_ifs at h
    · obtain ⟨⟨s₁, cli₁⟩, hs₁, h₁⟩ := bind_eq_ok.1 h
      exact (SameSetup.updateClient hs₁).trans (ih h₁)
    · cases h
      exact refl _

/-- What is left to do for a client: it may have to be closed, on behalf of its flag or not. -/
def examinations (c : Client) : ℕ :=
  1 + (if c.flagToDisconnect then 1 else 0) + if c.socketNum < 0 then 0 else 2

/-- What is left to do from position `cli` on. -/
def loopWork (s : Server) (cli : ℕ) : ℕ :=
  match s.mngClient.clients[cli]? with
  | some c => 4 * (s.mngClient.clients.length - cli - 1) + examinations c
  | none => 0

theorem loopWork_le (s : Server) (cli : ℕ) :
    s.loopWork cli ≤ 4 * (s.mngClient.clients.length - cli) := by
  unfold loopWork
  cases hc : s.mngClient.clients[cli]? with
  | none => exact Nat.zero_le _
  | some c =>
    have hlt := (List.getElem?_eq_some_iff.1 hc).1
    have hex : examinations c ≤ 4 := by
      unfold examinations
      split_ifs <;> omega
    dsimp only
    omega

theorem loopWork_eq {c : Client} (hc : s.mngClient.clients[cli]? = some c) :
    s.loopWork cli = 4 * (s.mngClient.clients.length - cli - 1) + examinations c := by
  simp only [loopWork, hc]

/-- After its connection was closed a client has one examination less. -/
theorem loopWork_close (h : s.closeConnection cli = .ok s') :
    s'.loopWork cli ≤ 4 * (s.mngClient.clients.length - cli - 1) + 2 := by
  obtain ⟨-, c, -, hc, hsock, -⟩ := closed_of_closeConnection h
  rw [loopWork_eq hc, length_closeConnection h, examinations, if_pos hsock]
  split_ifs <;> omega

/-- Every iteration of the loop leaves less to do, and stays in the vector. -/
theorem updateClient_work (h : updateClient ev s cli = .ok (s', cli')) :
    s'.loopWork cli' < s.loopWork cli ∧ cli' ≤ s'.mngClient.clients.length ∧
      s'.mngClient.clients.length ≤ s.mngClient.clients.length := by
  obtain ⟨c, hc, hcases⟩ := updateClient_cases h
  have hlt := (List.getElem?_eq_some_iff.1 hc).1
  rw [loopWork_eq hc]
  rcases hcases with ⟨hdisc, rfl, s₁, hs₁, rfl⟩ | ⟨-, -, rfl, herase⟩ |
    ⟨-, -, ⟨rfl, rfl⟩ | ⟨hsock, ⟨rfl, hclose⟩ | ⟨buffer, m, valid, hserve, hkick | hpass⟩⟩⟩
  · obtain ⟨-, c₁, -, hc₁, hsock, -⟩ := closed_of_closeConnection hs₁
    have hlen := length_closeConnection hs₁
    have hclear : (s₁.mngClient.modify cli' (·.setFlagToDisconnect false)).clients[cli']? =
        some (c₁.setFlagToDisconnect false) := by
      rw [getElem?_modify, hc₁, Option.map_some, if_pos rfl]
    have hkeep : (s₁.mngClient.modify cli' (·.setFlagToDisconnect false)).clients.length =
        s.mngClient.clients.length := (List.length_modify ..).trans hlen
    have hdone : examinations (c₁.setFlagToDisconnect false) = 1 := by
      rw [examinations, if_neg (by simp [Client.setFlagToDisconnect])]
      exact congrArg (1 + 0 + ·) (if_pos hsock)
    refine ⟨?_, ?_, hkeep.le⟩
    · rw [loopWork_eq hclear, hdone, examinations, if_pos hdisc, hkeep]
      omega
    · rw [hkeep]
      exact hlt.le
  · obtain ⟨m, hm, rfl⟩ := manage_eq_ok.1 herase
    have hlen := length_eraseClient hm
    have hwork := loopWork_le { s with mngClient := m } cli'
    refine ⟨?_, ?_, ?_⟩
    all_goals
      dsimp only at hwork ⊢
      unfold examinations at *
      omega
  · have hwork := loopWork_le s' (cli + 1)
    refine ⟨?_, hlt, le_rfl⟩
    unfold examinations
    omega
  · have hwork := loopWork_close hclose
    have hlen := length_closeConnection hclose
    refine ⟨?_, by omega, by omega⟩
    rw [examinations, if_neg (not_lt.2 hsock)]
    omega
  · obtain ⟨rfl, -, hclose⟩ := hkick
    have hsame := (sameSocks_serveClient hserve).length_eq
    have hclose : closeConnection { s with mngClient := m.sendToClient cli' SC_KICK } cli' =
        .ok s' := hclose
    have hwork := loopWork_close hclose
    have hlen := length_closeConnection hclose
    dsimp only [sendToClient] at hwork hlen
    refine ⟨?_, by omega, by omega⟩
    rw [examinations, if_neg (not_lt.2 hsock)]
    omega
  · obtain ⟨rfl, -, rfl⟩ := hpass
    have hsame := (sameSocks_serveClient hserve).length_eq
    have hwork := loopWork_le { s with mngClient := m } (cli + 1)
    dsimp only at hwork ⊢
    refine ⟨?_, by omega, by omega⟩
    unfold examinations
    omega

theorem length_updateLoop {fuel : ℕ} (h : updateLoop ev fuel s cli = .ok (s', cli')) :
    s'.mngClient.clients.length ≤ s.mngClient.clients.length := by
  induction fuel generalizing s cli with
  | zero =>
    cases h
    exact le_rfl
  | succ fuel ih =>
    rw [updateLoop] at h
    split_ifs at h
    · obtain ⟨⟨s₁, cli₁⟩, hs₁, h₁⟩ := bind_eq_ok.1 h
      exact (ih h₁).trans (updateClient_work hs₁).2.2
    · cases h
      exact le_rfl

/-- **The loop over the clients ends** at the end of the vector, with the fuel it is given. -/
theorem updateLoop_ends {fuel : ℕ} (hfuel : s.loopWork cli ≤ fuel)
    (hcli : cli ≤ s.mngClient.clients.length) (h : updateLoop ev fuel s cli = .ok (s', cli')) :
    cli' = s'.mngClient.clients.length := by
  induction fuel generalizing s cli with
  | zero =>
    cases h
    cases hc : s'.mngClient.clients[cli']? with
    | none => exact le_antisymm hcli (List.getElem?_eq_none_iff.1 hc)
    | some c =>
      rw [loopWork_eq hc, examinations] at hfuel
      omega
  | succ fuel ih =>
    rw [updateLoop] at h
    by_cases hlt : cli < s.mngClient.clients.length
    · rw [if_pos hlt] at h
      obtain ⟨⟨s₁, cli₁⟩, hs₁, h₁⟩ := bind_eq_ok.1 h
      obtain ⟨hwork, hin, -⟩ := updateClient_work hs₁
      exact ih (by omega) hin h₁
    · rw [if_neg hlt] at h
      cases h
      omega

/-- What an iteration does, if the client is not flagged to be disconnected. -/
theorem updateClient_handled {c : Client} (hrun : s.isRunning = true)
    (hc : s.mngClient.clients[cli]? = some c) (hdisc : c.flagToDisconnect = false)
    (h : updateClient ev s cli = .ok (s', cli')) : Handled s s' := by
  have hlt := (List.getElem?_eq_some_iff.1 hc).1
  obtain ⟨c₁, hc₁, ⟨hdisc₁, -⟩ | ⟨-, herase, -, hs'⟩ | ⟨-, -, ⟨-, rfl⟩ | ⟨hsock, hcases⟩⟩⟩ :=
    updateClient_cases h
  all_goals obtain rfl : c = c₁ := Option.some.inj (hc.symm.trans hc₁)
  · rw [hdisc] at hdisc₁
    cases hdisc₁
  · refine .single (l := .flags cli) ⟨hrun, hlt⟩ ?_
    change s.processFlags cli = _
    rw [processFlags, deref_eq_ok.2 hc, ok_bind, if_neg (by simp [hdisc]), ok_bind,
      deref_eq_ok.2 hc, ok_bind, if_pos herase]
    exact hs'
  · exact .refl _
  · have hconn : s.Connected cli := ⟨c, hc, hsock⟩
    rcases hcases with ⟨-, hclose⟩ | ⟨buffer, m, valid, hserve, ⟨-, -, hkick⟩ | ⟨-, -, rfl⟩⟩
    · exact .single (l := .close cli) ⟨hrun, hconn⟩ hclose
    · exact (serveClient_handled hrun hconn hserve).trans (.single (l := .kick cli)
        ⟨hrun, connected_of_sameSocks (sameSocks_serveClient hserve) hconn⟩ hkick)
    · exact serveClient_handled hrun hconn hserve

/-- The iteration for a client that is flagged to be disconnected is the first part of what
`processFlags` does. -/
theorem updateClient_flagged {c : Client} (hc : s.mngClient.clients[cli]? = some c)
    (hdisc : c.flagToDisconnect = true) (h : updateClient ev s cli = .ok (s', cli')) :
    ∃ c', s'.mngClient.clients[cli]? = some c' ∧ c'.flagToDisconnect = false ∧
      (s.processFlags cli = if c'.flagToErase then s'.manage (s'.mngClient.eraseClient cli)
        else .ok s') ∧
      s'.mngClient.clients.length = s.mngClient.clients.length ∧ cli' = cli := by
  obtain ⟨c₁, hc₁, ⟨-, rfl, s₁, hs₁, rfl⟩ | ⟨hdisc₁, -⟩ | ⟨hdisc₁, -⟩⟩ := updateClient_cases h
  all_goals obtain rfl : c = c₁ := Option.some.inj (hc.symm.trans hc₁)
  · obtain ⟨-, d, -, hd, -⟩ := closed_of_closeConnection hs₁
    have hclear : (s₁.mngClient.modify cli' (·.setFlagToDisconnect false)).clients[cli']? =
        some (d.setFlagToDisconnect false) := by
      rw [getElem?_modify, hd, Option.map_some, if_pos rfl]
    refine ⟨_, hclear, rfl, ?_, (List.length_modify ..).trans (length_closeConnection hs₁), rfl⟩
    rw [processFlags, deref_eq_ok.2 hc, ok_bind, if_pos hdisc, hs₁]
    simp only [ok_bind, pure_eq_ok, deref_eq_ok.2 hclear]
  · rw [hdisc] at hdisc₁
    cases hdisc₁
  · rw [hdisc] at hdisc₁
    cases hdisc₁

/-- **The loop over the clients handles inputs of the server.**  A client that is flagged to be
disconnected and to be erased takes two iterations for one input. -/
theorem updateLoop_handled {fuel : ℕ} (hrun : s.isRunning = true)
    (h : updateLoop ev fuel s cli = .ok (s', cli')) (hend : s'.mngClient.clients.length ≤ cli') :
    Handled s s' := by
  induction fuel using Nat.strong_induction_on generalizing s cli with
  | _ fuel ih =>
    cases fuel with
    | zero =>
      cases h
      exact .refl _
    | succ fuel =>
      rw [updateLoop] at h
      by_cases hlt : cli < s.mngClient.clients.length
      swap
      · rw [if_neg hlt] at h
        cases h
        exact .refl _
      rw [if_pos hlt] at h
      obtain ⟨⟨s₁, cli₁⟩, hs₁, h₁⟩ := bind_eq_ok.1 h
      have hrun₁ : s₁.isRunning = true := (SameSetup.updateClient hs₁).isRunning.trans hrun
      have hc := List.getElem?_eq_getElem hlt
      cases hdisc : s.mngClient.clients[cli].flagToDisconnect with
      | false =>
        have hfirst := updateClient_handled hrun hc hdisc hs₁
        exact hfirst.trans (ih fuel fuel.lt_succ_self hrun₁ h₁)
      | true =>
        obtain ⟨c₁, hc₁, hflag, hflags, hlen, rfl⟩ := updateClient_flagged hc hdisc hs₁
        by_cases herase : c₁.flagToErase = true
        · -- the instance is erased in the next iteration
          rw [if_pos herase] at hflags
          cases fuel with
          | zero =>
            cases h₁
            omega
          | succ fuel =>
            change updateLoop ev (fuel + 1) s₁ cli₁ = _ at h₁
            rw [updateLoop, if_pos (by omega)] at h₁
            obtain ⟨⟨s₂, cli₂⟩, hs₂, h₂⟩ := bind_eq_ok.1 h₁
            have hrun₂ : s₂.isRunning = true := (SameSetup.updateClient hs₂).isRunning.trans hrun₁
            obtain ⟨c₂, hc₂, hcases⟩ := updateClient_cases hs₂
            obtain rfl : c₁ = c₂ := Option.some.inj (hc₁.symm.trans hc₂)
            simp only [hflag, herase, Bool.false_eq_true, false_and, true_and, false_or,
              reduceCtorEq, or_false] at hcases
            rw [hcases.2] at hflags
            have hfirst : Handled s s₂ := .single (l := .flags cli₁) ⟨hrun, hlt⟩ hflags
            exact hfirst.trans (ih fuel (by omega) hrun₂ h₂)
        · rw [if_neg herase] at hflags
          have hfirst : Handled s s₁ := .single (l := .flags cli₁) ⟨hrun, hlt⟩ hflags
          exact hfirst.trans (ih fuel fuel.lt_succ_self hrun₁ h₁)

/-! ### Capacity -/

/-- Below the capacity, the check of it does nothing. -/
theorem checkCapacity_of_lt (h : s.mngClient.clients.length < s.maxClients) :
    s.checkCapacity = .ok s := if_neg h.ne

/-- **A pass handles inputs of the server**, one after the other. -/
theorem updateClients_handled (hrun : s.isRunning = true)
    (hcap : s.mngClient.clients.length < s.maxClients)
    (haccept : s.serverSocket ∈ ev.fds_read → ev.accepted.2 ∉ s.sockets)
    (h : s.updateClients ev = .ok s') : Handled s s' := by
  obtain ⟨s₁, hs₁, h₁⟩ := bind_eq_ok.1 h
  obtain ⟨⟨s₂, cli₂⟩, hs₂, h₂⟩ := bind_eq_ok.1 h₁
  have hfirst : Handled s s₁ := by
    unfold acceptRequest at hs₁
    split_ifs at hs₁ with hread
    · exact .single (l := .accept ev.accepted.1 ev.accepted.2) ⟨hrun, haccept hread⟩ hs₁
    · rw [checkCapacity_of_lt hcap] at hs₁
      cases hs₁
      exact .refl _
  have haccepted : SameSetup s (s.acceptRequest ev) := by
    unfold acceptRequest
    split_ifs
    · exact .acceptConnection _ _
    · exact .refl _
  have hrun₁ : s₁.isRunning = true :=
    (haccepted.trans (SameSetup.preserving.checkCapacity hs₁)).isRunning.trans hrun
  have hloop : Handled s₁ s₂ := by
    refine updateLoop_handled hrun₁ hs₂ (updateLoop_ends ?_ (Nat.zero_le _) hs₂).ge
    exact (loopWork_le s₁ 0).trans (by rw [loopFuel, Nat.sub_zero])
  have hrun₂ : s₂.isRunning = true := (SameSetup.updateLoop hs₂).isRunning.trans hrun₁
  exact (hfirst.trans hloop).trans (.single (l := .pair) hrun₂ h₂)

end Server

end HnefServer
