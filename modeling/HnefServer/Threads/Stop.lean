import HnefServer.Invariant.Rooms
import HnefServer.Threads.Atomic

/-!
# After the signal

`Process.rank` bounds the number of steps a process can still take once `isRunning` is cleared
(`Process.Sim.rank_lt`), and `Process.Sim.goes_on` says that a thread always has one to take before
the end.
-/

namespace HnefServer

open Protocol ClientManager

/-- The steps of the threads, as opposed to the signal. -/
def Action.isStep : Action → Bool
  | .signal => false
  | _ => true

namespace Process

variable {p p' : Process} {t : Server} {a : Action}

/-! ### The threads go on -/

/-- **There is no deadlock**: before its end the main thread can take a step, or else the pinging
thread can. -/
theorem Sim.goes_on (h : Sim p t) (hnot : ∀ crash, p.main ≠ .done crash) :
    ∃ a, a.isStep = true ∧ threads.guard p a := by
  obtain ⟨s, on, mtx, main, ping⟩ := p
  -- the pinging thread goes on with the mutex, or when the mutex is free
  have hping : (ping.locked = true ∨ mtx = none) → ping ≠ .finished →
      ∃ a, a.isStep = true ∧ threads.guard ⟨s, on, mtx, main, ping⟩ a := by
    intro hfree hnot
    cases ping with
    | finished => exact absurd rfl hnot
    | waiting => exact ⟨.timeout, rfl, rfl⟩
    | test | round _ | leaving => exact ⟨.ping, rfl, rfl⟩
    | entering | woken => exact ⟨.ping, rfl, decide_eq_true (hfree.resolve_left Bool.false_ne_true)⟩
  cases main with
  | done crash => exact absurd rfl (hnot crash)
  | test | copied _ | selected _ | accepting _ | updating _ _ | updated | closing _ | closed _ =>
    exact ⟨.main, rfl, rfl⟩
  | selecting fds => exact ⟨.select none, rfl, rfl⟩
  | entering r e =>
    cases mtx with
    | none =>
      obtain ⟨fd, hfd⟩ := Infinite.exists_notMem_finset s.sockets.toFinset
      rw [List.mem_toFinset] at hfd
      exact ⟨.update ([], fd) fun _ => .nothing, rfl, rfl, decide_eq_true fun _ => hfd⟩
    | some owner =>
      cases owner with
      | main => cases h.main.1 rfl
      | pinging =>
        have hlocked := h.ping.1 rfl
        exact hping (Or.inl hlocked) fun hf => by rw [hf] at hlocked; cases hlocked
  | stopping crash =>
    cases mtx with
    | none => exact ⟨.main, rfl, rfl⟩
    | some owner =>
      cases owner with
      | main => cases h.main.1 rfl
      | pinging =>
        have hlocked := h.ping.1 rfl
        exact hping (Or.inl hlocked) fun hf => by rw [hf] at hlocked; cases hlocked
  | joining crash =>
    by_cases hf : ping = .finished
    · exact ⟨.main, rfl, decide_eq_true hf⟩
    · refine hping ?_ hf
      cases mtx with
      | none => exact Or.inr rfl
      | some owner =>
        cases owner with
        | main => cases h.main.1 rfl
        | pinging => exact Or.inl (h.ping.1 rfl)

theorem Sim.ended_or_goes_on (h : Sim p t) :
    (∃ crash, p.main = .done crash) ∨ ∃ a, a.isStep = true ∧ threads.guard p a := by
  by_cases hend : ∃ crash, p.main = .done crash
  · exact Or.inl hend
  · exact Or.inr (h.goes_on fun crash hdone => hend ⟨crash, hdone⟩)

/-! ### The threads come to an end -/

/-- Steps left to the main thread, once `isRunning` is cleared. -/
def mainRank (s : Server) : MainLoop → ℕ
  | .done _ => 0
  | .joining _ => 1
  | .closed _ => 2
  | .closing _ => s.mngClient.clients.length + 3
  | .stopping _ => s.mngClient.clients.length + 4
  | .test | .selected _ => s.mngClient.clients.length + 5
  | .selecting _ | .updated => s.mngClient.clients.length + 6
  | .copied _ => s.mngClient.clients.length + 7
  | .updating _ cli => s.loopWork cli + s.mngClient.clients.length + 7
  | .accepting _ => 5 * s.mngClient.clients.length + 14
  | .entering _ _ => 5 * s.mngClient.clients.length + 15

/-- Steps left to the pinging thread, once `isRunning` is cleared. -/
def pingRank (s : Server) : PingLoop → ℕ
  | .finished => 0
  | .test => 1
  | .leaving => 2
  | .woken => 3
  | .waiting => 4
  | .round cli => s.mngClient.clients.length - cli + 5
  | .entering => s.mngClient.clients.length + 6

def rank (p : Process) : ℕ := mainRank p.server p.main + pingRank p.server p.ping

/-- The capacity check leaves no more clients. -/
theorem length_checkCapacity {s s' : Server} (h : s.checkCapacity = .ok s') :
    s'.mngClient.clients.length ≤ s.mngClient.clients.length := by
  rcases Server.checkCapacity_cases h with ⟨-, k, c, -, -, -, rfl⟩ | ⟨-, -, s₁, hclose, herase⟩ |
    ⟨-, rfl⟩
  · exact List.length_eraseIdx_le ..
  · obtain ⟨m, hm, rfl⟩ := Server.manage_eq_ok.1 herase
    have hlen := Server.length_closeConnection hclose
    have hlen' := Server.length_eraseClient hm
    dsimp only [sendToClient] at hlen ⊢
    omega
  · exact le_rfl

theorem length_acceptRequest (ev : Events) (s : Server) :
    (s.acceptRequest ev).mngClient.clients.length ≤ s.mngClient.clients.length + 1 := by
  unfold Server.acceptRequest
  split_ifs
  · rw [Server.clients_acceptConnection]
    split_ifs <;> simp
  · exact Nat.le_succ _

theorem length_moveReadyClientsToPlay {m m' : ClientManager}
    (h : m.moveReadyClientsToPlay = .ok m') : m'.clients.length = m.clients.length := by
  have hkept : AllKept true m.clients m'.clients := AllKept.pairLoop h
  exact hkept.length_eq.symm

/-- The pinging thread has no more to do when there are fewer clients. -/
theorem pingRank_mono {s s' : Server} {ping : PingLoop}
    (h : s'.mngClient.clients.length ≤ s.mngClient.clients.length) :
    pingRank s' ping ≤ pingRank s ping := by
  cases ping <;> simp only [pingRank] <;> omega

/-- A step of the main thread, once `isRunning` is cleared. -/
theorem Sim.rank_main {s : Server} {mtx : Option Thread} {main : MainLoop} {ping : PingLoop}
    (h : Sim ⟨s, false, mtx, main, ping⟩ t) (hguard : guard ⟨s, false, mtx, main, ping⟩ .main)
    (hst : stepMain ⟨s, false, mtx, main, ping⟩ = .ok p') :
    p'.rank < rank ⟨s, false, mtx, main, ping⟩ := by
  cases main with
  | test | copied _ | selected _ | updated | closed _ | joining _ =>
    cases hst
    simp [rank, mainRank]
  | accepting ev =>
    obtain ⟨s₁, hs₁, h₁⟩ := bind_eq_ok.1 hst
    cases h₁
    have hout : ping.locked = false := by
      rw [← Bool.not_eq_true]
      exact fun hp => h.exclusive ⟨rfl, hp⟩
    have hlen := (length_checkCapacity hs₁).trans (length_acceptRequest ev s)
    have hwork := Server.loopWork_le s₁ 0
    have hping : pingRank s₁ ping ≤ pingRank s ping + 1 := by
      cases ping with
      | round _ => cases hout
      | _ => simp only [pingRank]; omega
    simp only [rank, mainRank]
    omega
  | updating ev cli =>
    by_cases hlt : cli < s.mngClient.clients.length
    · simp only [stepMain, if_pos hlt] at hst
      obtain ⟨⟨s₁, cli₁⟩, hs₁, h₁⟩ := bind_eq_ok.1 hst
      cases h₁
      obtain ⟨hwork, -, hlen⟩ := Server.updateClient_work hs₁
      have hping : pingRank s₁ ping ≤ pingRank s ping := pingRank_mono hlen
      simp only [rank, mainRank]
      omega
    · simp only [stepMain, if_neg hlt] at hst
      obtain ⟨s₁, hs₁, h₁⟩ := bind_eq_ok.1 hst
      cases h₁
      obtain ⟨m, hm, rfl⟩ := Server.manage_eq_ok.1 hs₁
      have hlen := length_moveReadyClientsToPlay hm
      have hping : pingRank { s with mngClient := m } ping ≤ pingRank s ping :=
        pingRank_mono hlen.le
      simp only [rank, mainRank, hlen]
      omega
  | stopping crash =>
    cases hst
    have hlen : s.clearSent.mngClient.clients.length = s.mngClient.clients.length := rfl
    have hping : pingRank s.clearSent ping ≤ pingRank s ping := pingRank_mono hlen.le
    simp only [rank, mainRank]
    omega
  | closing crash =>
    by_cases hnil : s.mngClient.clients = []
    · simp only [stepMain, if_pos hnil] at hst
      cases hst
      have hping : pingRank s (notify ping) ≤ pingRank s ping := by
        cases ping <;> simp [notify, pingRank]
      have hsame : ∀ x, pingRank { s with
          sockets := FD_CLR s.serverSocket s.sockets, isRunning := false } x = pingRank s x :=
        fun x => by cases x <;> rfl
      simp only [rank, mainRank, hsame]
      omega
    · simp only [stepMain, if_neg hnil] at hst
      obtain ⟨s₁, hs₁, h₁⟩ := bind_eq_ok.1 hst
      cases h₁
      obtain ⟨s₂, hclose, herase⟩ := bind_eq_ok.1 hs₁
      obtain ⟨m, hm, rfl⟩ := Server.manage_eq_ok.1 herase
      have hpos := List.length_pos_iff.2 hnil
      have hlen : m.clients.length = s.mngClient.clients.length - 1 := by
        rw [Server.length_eraseClient hm, Server.length_closeConnection hclose]
        rfl
      have hping : pingRank { s₂ with mngClient := m } ping ≤ pingRank s ping :=
        pingRank_mono (by rw [hlen]; omega)
      simp only [rank, mainRank, hlen]
      omega
  | selecting _ | entering _ _ | done _ => exact absurd hguard Bool.false_ne_true

/-- **Once `isRunning` is cleared every step leaves less to do.** -/
theorem Sim.rank_lt (h : Sim p t) (hoff : p.isRunning = false) (ha : a.isStep = true)
    (hst : threads.Step p a p') : p'.rank < p.rank := by
  obtain ⟨hguard, hexec⟩ := hst
  obtain ⟨s, on, mtx, main, ping⟩ := p
  obtain rfl : on = false := hoff
  cases a with
  | signal => cases ha
  | select activity =>
    obtain ⟨fds, hmain, -⟩ := MainLoop.answers_iff.1 hguard
    cases hexec
    subst hmain
    simp only [rank, mainRank]
    omega
  | update accepted received =>
    obtain ⟨-, hadmits⟩ := hguard
    obtain ⟨r, e, hmain, -⟩ := MainLoop.admits_iff.1 hadmits
    subst hmain
    cases hexec
    have hlen : s.clearSent.mngClient.clients.length = s.mngClient.clients.length := rfl
    have hping : pingRank s.clearSent ping ≤ pingRank s ping := pingRank_mono hlen.le
    simp only [rank, mainRank]
    omega
  | timeout =>
    obtain rfl : ping = .waiting := hguard
    cases hexec
    simp only [rank, pingRank]
    omega
  | ping =>
    change stepPing _ = _ at hexec
    cases ping with
    | test | leaving =>
      cases hexec
      simp [rank, pingRank]
    | entering =>
      cases hexec
      have hlen : s.clearSent.mngClient.clients.length = s.mngClient.clients.length := rfl
      have hmain : mainRank s.clearSent main ≤ mainRank s main := by cases main <;> exact le_rfl
      simp only [rank, pingRank]
      omega
    | round cli =>
      by_cases hlt : cli < s.mngClient.clients.length
      · simp only [stepPing, if_pos hlt] at hexec
        obtain ⟨s₁, hs₁, h₁⟩ := bind_eq_ok.1 hexec
        cases h₁
        obtain ⟨m, hm, rfl⟩ := Server.manage_eq_ok.1 hs₁
        have hlen : m.clients.length = s.mngClient.clients.length := by
          rw [(pingClient_spec hm).1, List.length_modify]
        have hout : main.locked = false := by
          rw [← Bool.not_eq_true]
          exact fun hm => h.exclusive ⟨hm, rfl⟩
        have hmain : mainRank { s with mngClient := m } main = mainRank s main := by
          cases main with
          | accepting | updating | updated | closing | closed => cases hout
          | _ => simp only [mainRank, hlen]
        simp only [rank, hmain, pingRank, hlen]
        omega
      · simp only [stepPing, if_neg hlt] at hexec
        cases hexec
        simp only [rank, pingRank]
        omega
    | woken =>
      cases hexec
      simp [rank, pingRank]
    | waiting | finished => exact absurd hguard Bool.false_ne_true
  | main => exact h.rank_main hguard hexec

theorem rank_le (p : Process) : p.rank ≤ 6 * p.server.mngClient.clients.length + 21 := by
  obtain ⟨s, on, mtx, main, ping⟩ := p
  have hmain : mainRank s main ≤ 5 * s.mngClient.clients.length + 15 := by
    cases main with
    | updating ev cli =>
      have hwork := s.loopWork_le cli
      simp only [mainRank]
      omega
    | _ => simp only [mainRank]; omega
  have hping : pingRank s ping ≤ s.mngClient.clients.length + 6 := by
    cases ping <;> simp only [pingRank] <;> omega
  simp only [rank]
  omega

end Process

/-! ### Ways out of the main loop -/

/-- Out of the loop, by an exception iff the answer is `some true`. -/
def MainLoop.exit : MainLoop → Option Bool
  | .stopping crash | .closing crash | .closed crash | .joining crash | .done crash => some crash
  | _ => none

/-- The main thread is about to update the clients. -/
def MainLoop.due : MainLoop → ℕ
  | .entering _ _ => 1
  | _ => 0

/-- The pinging thread is about to ping the clients. -/
def PingLoop.due : PingLoop → ℕ
  | .entering => 1
  | _ => 0

namespace Process

variable {p q : Process} {a : Action}

/-- The main thread locks the mutex to update the clients. -/
theorem step_update {accepted : Text × ℤ} {received : ℤ → Reading}
    (h : threads.Step p (.update accepted received) q) : ∃ r e, p.main = .entering r e ∧
      q = { p with
        server := p.server.clearSent
        mtx := some .main
        main := .accepting ⟨r, e, accepted, received⟩ } := by
  obtain ⟨⟨-, hadmits⟩, hexec⟩ := h
  obtain ⟨r, e, hmain, -⟩ := MainLoop.admits_iff.1 hadmits
  obtain ⟨s, on, mtx, main, ping⟩ := p
  subst hmain
  cases hexec
  exact ⟨r, e, rfl, rfl⟩

/-- What a step of the main thread does to the course of the process. -/
structure MainStep (p q : Process) : Prop where
  exit : q.main.exit = p.main.exit ∧ q.isRunning = p.isRunning ∨
    p.isRunning = false ∧ q.isRunning = false ∧ p.main.exit = none ∧ q.main.exit = some false ∨
    p.main = .selected none ∧ q.isRunning = false ∧ q.main.exit = some true
  answered : q.main ≠ .selected none
  due : p.isRunning = false → q.main.due ≤ p.main.due
  ping : q.ping = p.ping ∨ q.ping = notify p.ping
  shut : q.main.shut = true →
    p.main.shut = true ∧ q.server = p.server ∨ q.server.serverSocket ∉ q.server.sockets
  joined : ∀ crash, q.main = .done crash → p.ping = .finished

theorem mainStep (hready : p.main.ready p.mtx p.ping = true) (h : p.stepMain = .ok q) :
    MainStep p q := by
  obtain ⟨s, on, mtx, main, ping⟩ := p
  -- a step inside the critical section
  have inside : ∀ {main' : MainLoop} {s' : Server}, main'.exit = main.exit →
      main' ≠ .selected none → main'.due = 0 → main'.shut = false → (∀ b, main' ≠ .done b) →
      MainStep ⟨s, on, mtx, main, ping⟩ ⟨s', on, mtx, main', ping⟩ :=
    fun hexit hsel hdue hshut hdone => ⟨Or.inl ⟨hexit, rfl⟩, hsel, fun _ => by simp [hdue],
      Or.inl rfl, fun hs => by simp [hshut] at hs, fun b hb => absurd hb (hdone b)⟩
  cases main with
  | test =>
    cases h
    cases on <;> constructor <;> simp [MainLoop.exit, MainLoop.due, MainLoop.shut]
  | copied fds =>
    cases h
    cases on <;> constructor <;> simp [MainLoop.exit, MainLoop.due, MainLoop.shut]
  | selected activity =>
    simp only [stepMain] at h
    split_ifs at h with hon
    · cases h
      obtain rfl : on = false := hon
      constructor <;> simp [MainLoop.exit, MainLoop.due, MainLoop.shut]
    · obtain rfl : on = true := by simpa using hon
      rcases activity with - | ⟨r, e⟩
      all_goals
        cases h
        constructor <;> simp [MainLoop.exit, MainLoop.due, MainLoop.shut]
  | accepting ev =>
    obtain ⟨s₁, -, h₁⟩ := bind_eq_ok.1 h
    cases h₁
    exact inside rfl (by simp) rfl rfl (by simp)
  | updating ev cli =>
    simp only [stepMain] at h
    split_ifs at h
    all_goals
      obtain ⟨s₁, -, h₁⟩ := bind_eq_ok.1 h
      cases h₁
      exact inside rfl (by simp) rfl rfl (by simp)
  | closing crash =>
    simp only [stepMain] at h
    split_ifs at h
    · cases h
      constructor <;> simp [MainLoop.exit, MainLoop.due, MainLoop.shut, FD_CLR]
    · obtain ⟨s₁, -, h₁⟩ := bind_eq_ok.1 h
      cases h₁
      exact inside rfl (by simp) rfl rfl (by simp)
  | joining crash =>
    cases h
    exact ⟨Or.inl ⟨rfl, rfl⟩, by simp, fun _ => le_rfl, Or.inl rfl, fun _ => Or.inl ⟨rfl, rfl⟩,
      fun _ _ => of_decide_eq_true hready⟩
  | updated | stopping _ | closed _ =>
    cases h
    constructor <;> simp [MainLoop.exit, MainLoop.due, MainLoop.shut]
  | selecting _ | entering _ _ | done _ => exact absurd hready Bool.false_ne_true

/-- What a step of the pinging thread does to the course of the process. -/
structure PingStep (p q : Process) : Prop where
  sockets : q.server.sockets = p.server.sockets
  serverSocket : q.server.serverSocket = p.server.serverSocket
  main : q.main = p.main
  isRunning : q.isRunning = p.isRunning
  due : p.isRunning = false → q.ping.due + (if p.ping = .entering then 1 else 0) ≤ p.ping.due
  started : p.ping ≠ .finished

theorem pingStep (hready : p.ping.ready p.mtx = true) (h : p.stepPing = .ok q) :
    PingStep p q := by
  obtain ⟨s, on, mtx, main, ping⟩ := p
  cases ping with
  | round cli =>
    simp only [stepPing] at h
    split_ifs at h
    · obtain ⟨s₁, hs₁, h₁⟩ := bind_eq_ok.1 h
      cases h₁
      obtain ⟨m, -, rfl⟩ := Server.manage_eq_ok.1 hs₁
      constructor <;> simp [PingLoop.due]
    · cases h
      constructor <;> simp [PingLoop.due]
  | test =>
    cases h
    cases on <;> constructor <;> simp [PingLoop.due]
  | entering | woken | leaving =>
    cases h
    constructor <;> simp [PingLoop.due, Server.clearSent]
  | waiting | finished => exact absurd hready Bool.false_ne_true

end Process

end HnefServer
