import HnefServer.LTS.Trace
import HnefServer.Property.Passes
import HnefServer.Threads.Process

/-!
# The mutex makes passes and rounds atomic

Every run of the two threads is a run of `passes`: `Process.Sim` relates a process to the server
before the critical section that a thread is in, and says that what is left of the section makes
of the server what the whole section makes of it before.
-/

namespace HnefServer

open Protocol ClientManager

namespace Process

/-- What is left of a round of the pinging thread from position `cli` on. -/
def restOfRound (s : Server) (cli : ℕ) : Except Fault Server :=
  s.manage ((List.range' cli (s.mngClient.clients.length - cli)).foldlM pingClient s.mngClient)

/-- What is left of a pass from position `cli` on. -/
def restOfPass (ev : Events) (fuel : ℕ) (s : Server) (cli : ℕ) : Except Fault Server := do
  let (s, _) ← Server.updateLoop ev fuel s cli
  s.manage s.mngClient.moveReadyClientsToPlay

/-- What is left of the shutdown. -/
def restOfShutdown (fuel : ℕ) (s : Server) : Except Fault Server := do
  let s ← Server.closeClientSockets fuel s
  return { s with sockets := FD_CLR s.serverSocket s.sockets, isRunning := false }

/-- The server `p.server` is on the way from `t`, as far as the main thread has come. -/
def MainRest (p : Process) (t : Server) : Prop :=
  match p.main with
  | .accepting ev => passes.guard t (.update ev) ∧ p.server = t.clearSent
  | .updating ev cli => passes.guard t (.update ev) ∧ ∃ fuel, p.server.loopWork cli ≤ fuel ∧
      passes.exec t (.update ev) = restOfPass ev fuel p.server cli
  | .closing _ => ∃ fuel, p.server.mngClient.clients.length ≤ fuel ∧
      passes.exec t .shutdown = restOfShutdown fuel p.server
  | _ => p.server.clearSent = t.clearSent

/-- The same for the pinging thread.  After the shutdown it finds nobody. -/
def PingRest (p : Process) (t : Server) : Prop :=
  match p.ping with
  | .round cli => (p.main.shut = false → passes.exec t .ping = restOfRound p.server cli) ∧
      (p.main.shut = true → p.server.clearSent = t.clearSent)
  | _ => p.server.clearSent = t.clearSent

/-- A process and the server before the critical section that a thread is in. -/
structure Sim (p : Process) (t : Server) : Prop where
  main : p.mtx = some .main ↔ p.main.locked = true
  ping : p.mtx = some .pinging ↔ p.ping.locked = true
  running : t.isRunning = !p.main.shut
  gone : p.main.shut = true → p.server.mngClient.clients = []
  free : p.mtx = none → p.server.clearSent = t.clearSent
  mainRest : p.mtx = some .main → p.MainRest t
  pingRest : p.mtx = some .pinging → p.PingRest t

variable {p p' : Process} {t t' : Server} {a : Action}

theorem Sim.start (clients rooms : ℕ) (fd : ℤ) :
    Sim (start clients rooms fd) (Server.create clients rooms fd) where
  main := by simp [Process.start, MainLoop.locked]
  ping := by simp [Process.start, PingLoop.locked]
  running := rfl
  gone := nofun
  free := fun _ => rfl
  mainRest := nofun
  pingRest := nofun

/-- The two threads are never both in their critical sections. -/
theorem Sim.exclusive (h : Sim p t) : ¬ (p.main.locked = true ∧ p.ping.locked = true) := by
  rintro ⟨hmain, hping⟩
  have hfst := h.main.2 hmain
  rw [h.ping.2 hping] at hfst
  cases hfst

/-- The main thread moves on, outside of its critical section. -/
theorem Sim.walk (h : Sim p t) {main : MainLoop} {on : Bool} (hout : p.main.locked = false)
    (hlocked : main.locked = false) (hshut : main.shut = p.main.shut) :
    Sim { p with isRunning := on, main } t where
  main := by rw [← hlocked] at hout; exact hout ▸ h.main
  ping := h.ping
  running := hshut ▸ h.running
  gone := fun hs => h.gone (hshut ▸ hs)
  free := h.free
  mainRest := fun hm => by rw [h.main.1 hm] at hout; cases hout
  pingRest := fun hm => by
    have hrest := h.pingRest hm
    unfold PingRest at *
    cases hp : p.ping <;> simp_all

/-- The pinging thread moves on, outside of its critical section. -/
theorem Sim.stroll (h : Sim p t) {ping : PingLoop} (hout : p.ping.locked = false)
    (hlocked : ping.locked = false) : Sim { p with ping } t where
  main := h.main
  ping := by rw [← hlocked] at hout; exact hout ▸ h.ping
  running := h.running
  gone := h.gone
  free := h.free
  mainRest := h.mainRest
  pingRest := fun hm => by rw [h.ping.1 hm] at hout; cases hout

/-! ### The critical sections -/

theorem gone_of_or {main : MainLoop} {s : Server}
    (h : main.shut = false ∨ s.mngClient.clients = []) (hs : main.shut = true) :
    s.mngClient.clients = [] := h.resolve_left (by simp [hs])

theorem Sim.gone_or (h : Sim p t) : p.main.shut = false ∨ p.server.mngClient.clients = [] := by
  cases hs : p.main.shut with
  | false => exact Or.inl rfl
  | true => exact Or.inr (h.gone hs)

/-- The main thread is in its critical section, the pinging thread is not. -/
theorem Sim.of_main {s : Server} {main : MainLoop} {ping : PingLoop} {on : Bool}
    (hlocked : main.locked = true) (hping : ping.locked = false)
    (hrun : t.isRunning = !main.shut) (hgone : main.shut = false ∨ s.mngClient.clients = [])
    (hrest : MainRest ⟨s, on, some .main, main, ping⟩ t) : Sim ⟨s, on, some .main, main, ping⟩ t :=
  ⟨by simp [hlocked], by simp [hping], hrun, gone_of_or hgone, nofun, fun _ => hrest, nofun⟩

/-- The pinging thread is in its critical section, the main thread is not. -/
theorem Sim.of_ping {s : Server} {main : MainLoop} {ping : PingLoop} {on : Bool}
    (hlocked : ping.locked = true) (hmain : main.locked = false)
    (hrun : t.isRunning = !main.shut) (hgone : main.shut = false ∨ s.mngClient.clients = [])
    (hrest : PingRest ⟨s, on, some .pinging, main, ping⟩ t) :
    Sim ⟨s, on, some .pinging, main, ping⟩ t :=
  ⟨by simp [hmain], by simp [hlocked], hrun, gone_of_or hgone, nofun, nofun, fun _ => hrest⟩

/-- The mutex is free. -/
theorem Sim.of_free {s : Server} {main : MainLoop} {ping : PingLoop} {on : Bool}
    (hmain : main.locked = false) (hping : ping.locked = false) (hrun : t.isRunning = !main.shut)
    (hgone : main.shut = false ∨ s.mngClient.clients = []) (hsame : s.clearSent = t.clearSent) :
    Sim ⟨s, on, none, main, ping⟩ t :=
  ⟨by simp [hmain], by simp [hping], hrun, gone_of_or hgone, fun _ => hsame, nofun, nofun⟩

/-- A pass does not stop the server. -/
theorem setup_updateClients {ev : Events} {s s' : Server} (h : s.updateClients ev = .ok s') :
    Server.SameSetup s s' := by
  obtain ⟨s₁, hs₁, h₁⟩ := bind_eq_ok.1 h
  obtain ⟨⟨s₂, cli⟩, hs₂, h₂⟩ := bind_eq_ok.1 h₁
  have haccept : Server.SameSetup s (s.acceptRequest ev) := by
    unfold Server.acceptRequest
    split_ifs
    · exact .acceptConnection _ _
    · exact .refl _
  exact ((haccept.trans (Server.SameSetup.preserving.checkCapacity hs₁)).trans
    (.updateLoop hs₂)).trans (.manage h₂)

theorem isRunning_of_guard {ev : Events} (h : passes.guard t (.update ev)) :
    t.isRunning = true := h.1

/-- A step of the loop of `updateClients`. -/
theorem sim_updating {s : Server} {on : Bool} {ev : Events} {cli : ℕ} {ping : PingLoop}
    (hping : ping.locked = false) (hguard : passes.guard t (.update ev)) {fuel : ℕ}
    (hfuel : s.loopWork cli ≤ fuel)
    (hexec : passes.exec t (.update ev) = restOfPass ev fuel s cli)
    (hst : stepMain ⟨s, on, some .main, .updating ev cli, ping⟩ = .ok p') :
    ∃ t', passes.Reachable t t' ∧ Sim p' t' := by
  have hrun := isRunning_of_guard hguard
  by_cases hlt : cli < s.mngClient.clients.length
  · simp only [stepMain, if_pos hlt] at hst
    obtain ⟨⟨s₁, cli₁⟩, hs₁, h₁⟩ := bind_eq_ok.1 hst
    cases h₁
    obtain ⟨hwork, -, -⟩ := Server.updateClient_work hs₁
    obtain ⟨fuel, rfl⟩ := Nat.exists_eq_succ_of_ne_zero (show fuel ≠ 0 by omega)
    refine ⟨t, .refl _, .of_main rfl hping hrun (Or.inl rfl) ⟨hguard, fuel, ?_, ?_⟩⟩
    · dsimp only
      omega
    · rw [hexec, restOfPass, Server.updateLoop, if_pos hlt, hs₁]
      rfl
  · -- the pass is over
    simp only [stepMain, if_neg hlt] at hst
    obtain ⟨s₁, hs₁, h₁⟩ := bind_eq_ok.1 hst
    cases h₁
    have hloop : Server.updateLoop ev fuel s cli = .ok (s, cli) := by
      cases fuel with
      | zero => rfl
      | succ fuel => rw [Server.updateLoop, if_neg hlt]
    have hpass : passes.exec t (.update ev) = .ok s₁ := by
      rw [hexec, restOfPass, hloop]
      exact hs₁
    have hrun₁ : s₁.isRunning = true := (setup_updateClients hpass).isRunning.trans hrun
    exact ⟨s₁, .single ⟨hguard, hpass⟩, .of_main rfl hping hrun₁ (Or.inl rfl) rfl⟩

theorem closeClientSockets_succ {fuel : ℕ} {s : Server} (h : s.mngClient.clients ≠ []) :
    Server.closeClientSockets (fuel + 1) s =
      closeFirst s >>= Server.closeClientSockets fuel := by
  simp only [Server.closeClientSockets, if_neg h, closeFirst, bind_assoc]

/-- A step of the loop of `closeClientSockets`. -/
theorem sim_closing {s : Server} {on crash : Bool} {ping : PingLoop} (hping : ping.locked = false)
    (hrun : t.isRunning = true) {fuel : ℕ} (hfuel : s.mngClient.clients.length ≤ fuel)
    (hexec : passes.exec t .shutdown = restOfShutdown fuel s)
    (hst : stepMain ⟨s, on, some .main, .closing crash, ping⟩ = .ok p') :
    ∃ t', passes.Reachable t t' ∧ Sim p' t' := by
  by_cases hnil : s.mngClient.clients = []
  · -- nobody is left
    simp only [stepMain, if_pos hnil] at hst
    cases hst
    have hloop : Server.closeClientSockets fuel s = .ok s := by
      cases fuel with
      | zero => rfl
      | succ fuel => rw [Server.closeClientSockets, if_pos hnil]
    rw [restOfShutdown, hloop] at hexec
    have hnotified : (notify ping).locked = false := by
      cases ping <;> first | rfl | cases hping
    exact ⟨_, .single (l := .shutdown) ⟨hrun, hexec⟩, .of_main rfl hnotified rfl (Or.inr hnil) rfl⟩
  · simp only [stepMain, if_neg hnil] at hst
    obtain ⟨s₁, hs₁, h₁⟩ := bind_eq_ok.1 hst
    cases h₁
    obtain ⟨s₂, hclose, herase⟩ := bind_eq_ok.1 hs₁
    obtain ⟨m, hm, rfl⟩ := Server.manage_eq_ok.1 herase
    have hpos := List.length_pos_iff.2 hnil
    have hlen : m.clients.length = s.mngClient.clients.length - 1 := by
      rw [Server.length_eraseClient hm, Server.length_closeConnection hclose]
      rfl
    obtain ⟨fuel, rfl⟩ := Nat.exists_eq_succ_of_ne_zero (show fuel ≠ 0 by omega)
    refine ⟨t, .refl _, .of_main rfl hping hrun (Or.inl rfl) ⟨fuel, ?_, ?_⟩⟩
    · change m.clients.length ≤ fuel
      omega
    · rw [hexec, restOfShutdown, closeClientSockets_succ hnil, hs₁]
      rfl

/-- A step of the main thread. -/
theorem sim_main (h : Sim p t) (hguard : p.guard .main) (hst : p.stepMain = .ok p') :
    ∃ t', passes.Reachable t t' ∧ Sim p' t' := by
  obtain ⟨s, on, mtx, main, ping⟩ := p
  -- in its critical section the main thread has the mutex
  have hown : main.locked = true → mtx = some .main ∧ ping.locked = false := fun hlocked => by
    refine ⟨h.main.2 hlocked, ?_⟩
    rw [← Bool.not_eq_true]
    exact fun hp => h.exclusive ⟨hlocked, hp⟩
  cases main with
  | test =>
    cases hst
    refine ⟨t, .refl _, ?_⟩
    split_ifs <;> exact h.walk rfl rfl rfl
  | copied fds =>
    cases hst
    refine ⟨t, .refl _, ?_⟩
    split_ifs <;> exact h.walk rfl rfl rfl
  | selected activity =>
    refine ⟨t, .refl _, ?_⟩
    simp only [stepMain] at hst
    split_ifs at hst
    · cases hst
      exact h.walk rfl rfl rfl
    · rcases activity with - | ⟨r, e⟩
      · cases hst
        exact h.walk rfl rfl rfl
      · cases hst
        exact h.walk rfl rfl rfl
  | accepting ev =>
    obtain ⟨rfl, hping⟩ := hown rfl
    obtain ⟨hg, hs⟩ := h.mainRest rfl
    obtain ⟨s₁, hs₁, h₁⟩ := bind_eq_ok.1 hst
    cases h₁
    change s = t.clearSent at hs
    subst hs
    refine ⟨t, .refl _, .of_main rfl hping (isRunning_of_guard hg) (Or.inl rfl)
      ⟨hg, s₁.loopFuel, ?_, ?_⟩⟩
    · exact (Server.loopWork_le s₁ 0).trans (by rw [Server.loopFuel, Nat.sub_zero])
    · change (_ >>= _) = _
      rw [hs₁]
      rfl
  | updating ev cli =>
    obtain ⟨rfl, hping⟩ := hown rfl
    obtain ⟨hg, fuel, hfuel, hexec⟩ := h.mainRest rfl
    exact sim_updating hping hg hfuel hexec hst
  | updated =>
    obtain ⟨rfl, hping⟩ := hown rfl
    cases hst
    exact ⟨t, .refl _, .of_free rfl hping h.running (Or.inl rfl) (h.mainRest rfl)⟩
  | stopping crash =>
    cases hst
    obtain rfl : mtx = none := of_decide_eq_true hguard
    have hping : ping.locked = false := by
      rw [← Bool.not_eq_true]
      exact fun hp => by cases h.ping.2 hp
    refine ⟨t, .refl _, .of_main rfl hping h.running (Or.inl rfl) ⟨_, le_rfl, ?_⟩⟩
    rw [show s.clearSent = t.clearSent from h.free rfl]
    rfl
  | closing crash =>
    obtain ⟨rfl, hping⟩ := hown rfl
    obtain ⟨fuel, hfuel, hexec⟩ := h.mainRest rfl
    exact sim_closing hping h.running hfuel hexec hst
  | closed crash =>
    obtain ⟨rfl, hping⟩ := hown rfl
    cases hst
    exact ⟨t, .refl _, .of_free rfl hping h.running h.gone_or (h.mainRest rfl)⟩
  | joining crash =>
    cases hst
    exact ⟨t, .refl _, h.walk rfl rfl rfl⟩
  | selecting _ | entering _ _ | done _ => exact absurd hguard Bool.false_ne_true

/-- A step of the pinging thread. -/
theorem sim_ping (h : Sim p t) (hguard : p.guard .ping) (hst : p.stepPing = .ok p') :
    ∃ t', passes.Reachable t t' ∧ Sim p' t' := by
  obtain ⟨s, on, mtx, main, ping⟩ := p
  have hown : ping.locked = true → mtx = some .pinging ∧ main.locked = false := fun hlocked => by
    refine ⟨h.ping.2 hlocked, ?_⟩
    rw [← Bool.not_eq_true]
    exact fun hm => h.exclusive ⟨hm, hlocked⟩
  have hout : mtx = none → main.locked = false := fun hnone => by
    rw [← Bool.not_eq_true]
    intro hm
    have hsome := h.main.2 hm
    rw [show mtx = _ from hsome] at hnone
    cases hnone
  cases ping with
  | test =>
    cases hst
    refine ⟨t, .refl _, ?_⟩
    split_ifs <;> exact h.stroll rfl rfl
  | entering =>
    obtain rfl : mtx = none := of_decide_eq_true hguard
    cases hst
    have hsame : s.clearSent = t.clearSent := h.free rfl
    refine ⟨t, .refl _, .of_ping rfl (hout rfl) h.running h.gone_or ⟨fun _ => ?_, fun _ => ?_⟩⟩
    · rw [hsame, restOfRound, Nat.sub_zero, ← List.range_eq_range']
      rfl
    · exact hsame
  | round cli =>
    obtain ⟨rfl, hmain⟩ := hown rfl
    obtain ⟨hrest, hlate⟩ := h.pingRest rfl
    by_cases hlt : cli < s.mngClient.clients.length
    · simp only [stepPing, if_pos hlt] at hst
      obtain ⟨s₁, hs₁, h₁⟩ := bind_eq_ok.1 hst
      cases h₁
      obtain ⟨m, hm, rfl⟩ := Server.manage_eq_ok.1 hs₁
      have hshut : main.shut = false := by
        rw [← Bool.not_eq_true]
        intro hs
        rw [show s.mngClient.clients = [] from h.gone hs] at hlt
        cases hlt
      refine ⟨t, .refl _, .of_ping rfl hmain h.running (Or.inl hshut) ⟨fun _ => ?_, fun hs => ?_⟩⟩
      · have hlen : m.clients.length = s.mngClient.clients.length := by
          rw [(pingClient_spec hm).1, List.length_modify]
        have hleft : s.mngClient.clients.length - cli =
            s.mngClient.clients.length - (cli + 1) + 1 := by omega
        rw [hrest hshut, restOfRound, restOfRound, hleft, List.range'_succ, List.foldlM_cons, hm]
        dsimp only
        rw [hlen]
        rfl
      · rw [hshut] at hs
        cases hs
    · simp only [stepPing, if_neg hlt] at hst
      cases hst
      cases hshut : main.shut with
      | false =>
        have hround : passes.exec t .ping = .ok s := by
          rw [hrest hshut, restOfRound, Nat.sub_eq_zero_of_le (not_lt.1 hlt)]
          rfl
        have hrun : t.isRunning = true := by
          rw [h.running]
          exact congrArg Bool.not hshut
        have hsetup : s.isRunning = t.isRunning := (Server.SameSetup.manage hround).isRunning
        exact ⟨s, .single (l := .ping) ⟨hrun, hround⟩, .of_free hmain rfl (hsetup.trans h.running)
          h.gone_or rfl⟩
      | true => exact ⟨t, .refl _, .of_free hmain rfl h.running h.gone_or (hlate hshut)⟩
  | woken =>
    obtain rfl : mtx = none := of_decide_eq_true hguard
    cases hst
    exact ⟨t, .refl _, .of_ping rfl (hout rfl) h.running h.gone_or (h.free rfl)⟩
  | leaving =>
    obtain ⟨rfl, hmain⟩ := hown rfl
    cases hst
    exact ⟨t, .refl _, .of_free hmain rfl h.running h.gone_or (h.pingRest rfl)⟩
  | waiting | finished => exact absurd hguard Bool.false_ne_true

/-- **Every action is simulated**: the last step of a critical section is the whole section, any
other action is nothing. -/
theorem Sim.act (h : Sim p t) (hst : threads.Step p a p') :
    ∃ t', passes.Reachable t t' ∧ Sim p' t' := by
  obtain ⟨hguard, hexec⟩ := hst
  cases a with
  | signal =>
    cases hexec
    exact ⟨t, .refl _, ⟨h.main, h.ping, h.running, h.gone, h.free, h.mainRest, h.pingRest⟩⟩
  | select activity =>
    obtain ⟨fds, hmain, -⟩ := MainLoop.answers_iff.1 hguard
    cases hexec
    obtain ⟨s, on, mtx, main, ping⟩ := p
    subst hmain
    exact ⟨t, .refl _, h.walk rfl rfl rfl⟩
  | update accepted received =>
    obtain ⟨hmtx, hadmits⟩ := hguard
    obtain ⟨r, e, hmain, hnew⟩ := MainLoop.admits_iff.1 hadmits
    obtain ⟨s, on, mtx, main, ping⟩ := p
    subst hmtx hmain
    cases hexec
    have hping : ping.locked = false := by
      rw [← Bool.not_eq_true]
      exact fun hp => by cases h.ping.2 hp
    have hsame : s.clearSent = t.clearSent := h.free rfl
    change s.clearSent.serverSocket ∈ r → accepted.2 ∉ s.clearSent.sockets at hnew
    rw [hsame] at hnew
    exact ⟨t, .refl _, .of_main rfl hping h.running (Or.inl rfl) ⟨⟨h.running, hnew⟩, hsame⟩⟩
  | main => exact sim_main h hguard hexec
  | ping => exact sim_ping h hguard hexec
  | timeout =>
    cases hexec
    obtain ⟨s, on, mtx, main, ping⟩ := p
    obtain rfl : ping = .waiting := hguard
    exact ⟨t, .refl _, h.stroll rfl rfl⟩

/-- Every run of the threads is simulated. -/
theorem Sim.run {clients rooms : ℕ} {fd : ℤ}
    (h : threads.Reachable (Process.start clients rooms fd) p) :
    ∃ t, passes.Reachable (Server.create clients rooms fd) t ∧ Sim p t :=
  h.simulate (.start clients rooms fd) fun _ _ _ _ hR hst => hR.act hst

end Process

end HnefServer
