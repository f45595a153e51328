import HnefServer.Property.Capacity
import HnefServer.Threads.Orderly
import HnefServer.Threads.Stop

/-!
# The two threads

`threads_refine_passes` : however the two threads and the signal interleave, the critical sections
are atomic.  `threads_go_on` : there is no deadlock.  `threads_stop` : after the signal both
threads come to their end, after one more pass and one more round at most.  `threads_end` : what
the end looks like.

A step that calls `readClient` or `send`, both under the mutex, is taken when the call returns: that
it does is assumed of the clients by `threads_go_on` and `threads_stop`.
-/

namespace HnefServer

namespace Process

variable {clients rooms : ℕ} {fd : ℤ} {p q : Process} {a : Action} {acts : List Action}

/-! ### The sockets that are copied without the mutex -/

/-- The copies of the main thread agree with the sockets, which nobody else changes. -/
def Copies (p : Process) : Prop :=
  match p.main with
  | .copied fds | .selecting fds => fds = p.server.sockets
  | .selected (some (r, e)) | .entering r e => r ⊆ p.server.sockets ∧ e ⊆ p.server.sockets
  | _ => True

theorem Copies.act (h : p.Copies) (hst : threads.Step p a q) : q.Copies := by
  obtain ⟨hguard, hexec⟩ := hst
  obtain ⟨s, on, mtx, main, ping⟩ := p
  cases a with
  | signal | timeout =>
    cases hexec
    exact h
  | select activity =>
    obtain ⟨fds, hmain, hin⟩ := MainLoop.answers_iff.1 hguard
    subst hmain
    cases hexec
    rcases activity with - | ⟨r, e⟩
    · trivial
    · exact h ▸ hin r e rfl
  | update accepted received =>
    obtain ⟨-, hadmits⟩ := hguard
    obtain ⟨r, e, hmain, -⟩ := MainLoop.admits_iff.1 hadmits
    subst hmain
    cases hexec
    trivial
  | ping =>
    have hstep := pingStep hguard hexec
    unfold Copies at *
    rwa [hstep.sockets, hstep.main]
  | main =>
    change stepMain _ = _ at hexec
    cases main with
    | test =>
      cases hexec
      cases on <;> trivial
    | copied fds =>
      cases hexec
      cases on
      · exact ⟨fun x hx => h ▸ hx, fun x hx => h ▸ hx⟩
      · exact h
    | selected activity =>
      simp only [stepMain] at hexec
      split_ifs at hexec
      · cases hexec
        trivial
      · rcases activity with - | ⟨r, e⟩
        · cases hexec
          trivial
        · cases hexec
          exact h
    | accepting ev =>
      obtain ⟨s₁, -, h₁⟩ := bind_eq_ok.1 hexec
      cases h₁
      trivial
    | updating ev cli =>
      simp only [stepMain] at hexec
      split_ifs at hexec
      all_goals
        obtain ⟨s₁, -, h₁⟩ := bind_eq_ok.1 hexec
        cases h₁
        trivial
    | closing crash =>
      simp only [stepMain] at hexec
      split_ifs at hexec
      · cases hexec
        trivial
      · obtain ⟨s₁, -, h₁⟩ := bind_eq_ok.1 hexec
        cases h₁
        trivial
    | updated | stopping _ | closed _ | joining _ =>
      cases hexec
      trivial
    | selecting _ | entering _ _ | done _ => exact absurd hguard Bool.false_ne_true

/-! ### Atomicity -/

/-- **The mutex makes passes and rounds atomic.**  In every state that the two threads and the
signal reach, in whatever order they act, at most one thread is in its critical section.  The
clients, the rooms and the sockets are those of a run of whole passes and whole rounds, up to what
is left of the section that a thread is in; and the descriptors that `select` has reported, from a
copy made without the mutex, are still watched when the pass begins. -/
theorem threads_refine_passes (h : threads.Reachable (start clients rooms fd) p) :
    ¬ (p.main.locked = true ∧ p.ping.locked = true) ∧
    (∃ t, passes.Reachable (Server.create clients rooms fd) t ∧
      (p.mtx = none → p.server.clearSent = t.clearSent) ∧
      (p.mtx = some .main → p.MainRest t) ∧ (p.mtx = some .pinging → p.PingRest t)) ∧
    ∀ r e, p.main = .entering r e → r ⊆ p.server.sockets ∧ e ⊆ p.server.sockets := by
  obtain ⟨t, ht, hsim⟩ := Sim.run h
  have hcopies : p.Copies := h.invariant (I := Copies) trivial fun _ _ _ ih hst => ih.act hst
  refine ⟨hsim.exclusive, ⟨t, ht, hsim.free, hsim.mainRest, hsim.pingRest⟩, ?_⟩
  intro r e hmain
  unfold Copies at hcopies
  rw [hmain] at hcopies
  exact hcopies

/-- The signal arrives when both threads are about to lock the mutex. -/
def interrupted : List Action :=
  [.main, .main, .select (some ([3], [])), .main, .ping, .signal]

/-- A client is accepted all the same, and pinged; then the server shuts down. -/
def farewell : List Action :=
  [.update ("10.0.0.4".toList, 4) fun _ => .nothing, .main, .main, .main, .main, .ping, .ping,
    .ping, .main, .main, .main, .main, .main, .ping, .ping, .ping, .main]

/-- A client has been accepted and pinged, and the pinging thread waits. -/
theorem threads_refine_passes_interrupted : ∃ p : Process,
    p.mtx = none ∧ p.ping = .waiting ∧ p.server.mngClient.clients ≠ [] ∧
    ¬ (p.main.locked = true ∧ p.ping.locked = true) ∧
    (∃ t, passes.Reachable (Server.create 10 5 3) t ∧
      (p.mtx = none → p.server.clearSent = t.clearSent) ∧
      (p.mtx = some .main → p.MainRest t) ∧ (p.mtx = some .pinging → p.PingRest t)) ∧
    ∀ r e, p.main = .entering r e → r ⊆ p.server.sockets ∧ e ⊆ p.server.sockets := by
  have hrun : (threads.replay (fun _ _ => True) (start 10 5 3)
      (interrupted ++ farewell.take 8)).any (fun p => decide (p.mtx = none) &&
        decide (p.ping = .waiting) && !p.server.mngClient.clients.isEmpty) = true := by
    decide +kernel
  obtain ⟨p, hreach, ht⟩ := System.exists_reachableIf hrun
  simp only [Bool.and_eq_true, decide_eq_true_eq, Bool.not_eq_true',
    List.isEmpty_eq_false_iff] at ht
  exact ⟨p, ht.1.1, ht.1.2, ht.2, threads_refine_passes hreach⟩

/-! ### The end -/

/-- **There is no deadlock.**  In every state that orderly actions lead to, no orderly action
faults, and if the main thread goes on with one, it has come to its end or one of the two threads
takes a step. -/
theorem threads_go_on (h : OrderlyReachable clients rooms fd p) :
    (∀ a, p.Orderly a → ¬ threads.Faults p a) ∧
      (p.Orderly .main →
        (∃ crash, p.main = .done crash) ∨ ∃ a q, a.isStep = true ∧ threads.Step p a q) := by
  refine ⟨fun a ho => h.not_faults ho, fun ho => ?_⟩
  obtain ⟨t, -, hsim⟩ := Sim.run (h.mono fun _ _ _ => trivial)
  rcases hsim.ended_or_goes_on with hend | ⟨a, ha, hguard⟩
  · exact Or.inl hend
  · have horderly : p.Orderly a := by
      cases a with
      | main => exact ho
      | _ => trivial
    obtain ⟨q, hst⟩ := System.not_faults_iff.1 (h.not_faults horderly) hguard
    exact Or.inr ⟨a, q, ha, hst⟩

/-- An action that evicts no player and serves nobody, or these frames. -/
def serving (ds : List Frame) (p : Process) : Action → Bool
  | .main =>
    match p.main with
    | .accepting ev => decide (p.server.acceptRequest ev).EvictsNoPlayer
    | .updating ev cli => p.server.mngClient.clients[cli]?.all fun c =>
      match ev.received c.socketNum with
      | .nothing => true
      | .message buffer =>
        decide (ds ≠ [] ∧ buffer = Frame.wire ds ∧ p.server.mngClient.OrderlyFrames cli ds)
    | _ => true
  | _ => true

theorem orderly_of_serving {ds : List Frame} (h : serving ds p a = true) : p.Orderly a := by
  obtain ⟨s, on, mtx, main, ping⟩ := p
  cases a with
  | main =>
    cases main with
    | accepting ev =>
      have hevict : (s.acceptRequest ev).EvictsNoPlayer := of_decide_eq_true h
      exact hevict
    | updating ev cli =>
      intro c hc _ _ _ _ _ buffer hrecv _
      have hc' : s.mngClient.clients[cli]? = some c := hc
      simp only [serving, hc', Option.all_some, hrecv, decide_eq_true_eq] at h
      exact ⟨ds, h⟩
    | _ => trivial
  | _ => trivial

/-- A client is accepted, and asks for a name while the pinging thread waits for the mutex. -/
def greeted : List Action :=
  [.main, .main, .select (some ([3], [])), .main, .update ("10.0.0.4".toList, 4) fun _ => .nothing,
    .main, .main, .main, .main, .main, .main, .select (some ([4], [])), .main, .ping,
    .update ([], 5) fun _ => .message (Frame.wire [.connect Server.alice]), .main, .main]

/-- The pinging thread waits for the mutex, which the main thread has not yet unlocked. -/
theorem threads_go_on_greeted : ∃ p : Process, p.mtx = some .main ∧ p.ping = .entering ∧
    (∃ c ∈ p.server.mngClient.clients, c.nick = Server.alice.text) ∧
    (∀ a, p.Orderly a → ¬ threads.Faults p a) ∧ p.Orderly .main ∧
      ((∃ crash, p.main = .done crash) ∨ ∃ a q, a.isStep = true ∧ threads.Step p a q) := by
  have hrun : (threads.replay (fun p a => serving [.connect Server.alice] p a = true) (start 10 5 3)
      greeted).any (fun p => decide (p.mtx = some .main) && decide (p.ping = .entering) &&
        (p.server.mngClient.clients.any fun c => c.nick == Server.alice.text) &&
          serving [.connect Server.alice] p .main) = true := by
    decide +kernel
  obtain ⟨p, hreach, ht⟩ := System.exists_reachableIf hrun
  simp only [Bool.and_eq_true, decide_eq_true_eq, List.any_eq_true, beq_iff_eq] at ht
  obtain ⟨⟨⟨hmtx, hping⟩, hclient⟩, hnext⟩ := ht
  have horderly : OrderlyReachable 10 5 3 p := hreach.mono fun _ _ => orderly_of_serving
  have hmain : p.Orderly .main := orderly_of_serving hnext
  obtain ⟨hfault, hgoes⟩ := threads_go_on horderly
  exact ⟨p, hmtx, hping, hclient, hfault, hmain, hgoes hmain⟩

/-- The work of the threads: all steps, passes begun, rounds begun. -/
structure Work where
  steps : ℕ
  passes : ℕ
  rounds : ℕ

def work (p : Process) (a : Action) (_ : Process) (w : Work) : Work where
  steps := w.steps + if a.isStep then 1 else 0
  passes := w.passes + match a with | .update _ _ => 1 | _ => 0
  rounds := w.rounds + match a with | .ping => if p.ping = .entering then 1 else 0 | _ => 0

/-- What is left of the work since the signal in the state `p₀`. -/
structure Left (p₀ p : Process) (w : Work) : Prop where
  off : p.isRunning = false
  sim : ∃ t, Sim p t
  steps : w.steps + p.rank ≤ p₀.rank
  passes : w.passes + p.main.due ≤ p₀.main.due
  rounds : w.rounds + p.ping.due ≤ p₀.ping.due

theorem due_notify (ping : PingLoop) : (notify ping).due = ping.due := by cases ping <;> rfl

theorem Left.act {p₀ : Process} {w : Work} (h : Left p₀ p w) (hst : threads.Step p a q) :
    Left p₀ q (work p a q w) := by
  obtain ⟨t, hsim⟩ := h.sim
  have hsteps : (work p a q w).steps + q.rank ≤ p₀.rank := by
    have hle := h.steps
    cases ha : a.isStep with
    | true =>
      have hlt := hsim.rank_lt h.off ha hst
      simp only [work, ha, if_true]
      omega
    | false =>
      cases a with
      | signal =>
        obtain ⟨-, hexec⟩ := hst
        cases hexec
        exact hle
      | _ => cases ha
  obtain ⟨t', -, hsim'⟩ := hsim.act hst
  have hst' := hst
  obtain ⟨hguard, hexec⟩ := hst
  have hoff := h.off
  have hpasses := h.passes
  have hrounds := h.rounds
  cases a with
  | signal =>
    cases hexec
    exact ⟨rfl, ⟨t', hsim'⟩, hsteps, hpasses, hrounds⟩
  | select activity =>
    obtain ⟨fds, hmain, -⟩ := MainLoop.answers_iff.1 hguard
    cases hexec
    rw [hmain] at hpasses
    exact ⟨hoff, ⟨t', hsim'⟩, hsteps, hpasses, hrounds⟩
  | update accepted received =>
    obtain ⟨r, e, hmain, rfl⟩ := step_update hst'
    rw [hmain] at hpasses
    exact ⟨hoff, ⟨t', hsim'⟩, hsteps, hpasses, hrounds⟩
  | timeout =>
    cases hexec
    rw [show p.ping = .waiting from hguard] at hrounds
    exact ⟨hoff, ⟨t', hsim'⟩, hsteps, hpasses, hrounds⟩
  | main =>
    have hstep := mainStep hguard hexec
    have hdue := hstep.due hoff
    have hping : q.ping.due = p.ping.due := by
      rcases hstep.ping with hp | hp
      · rw [hp]
      · rw [hp, due_notify]
    refine ⟨?_, ⟨t', hsim'⟩, hsteps, ?_, ?_⟩
    · rcases hstep.exit with ⟨-, hon⟩ | ⟨-, hon, -⟩ | ⟨-, hon, -⟩
      · exact hon.trans hoff
      · exact hon
      · exact hon
    · simp only [work]
      omega
    · simp only [work]
      omega
  | ping =>
    have hstep := pingStep hguard hexec
    have hdue := hstep.due hoff
    refine ⟨hstep.isRunning.trans hoff, ⟨t', hsim'⟩, hsteps, ?_, ?_⟩
    · rw [hstep.main]
      exact hpasses
    · simp only [work]
      omega

/-- **The signal stops both threads.**  Once `isRunning` is cleared, the threads take at most
`6 n + 21` more steps, where `n` is the number of clients; the main thread updates the clients
once more only if it was about to, and the pinging thread pings them once more only if it was
about to.  When no more step can be taken, the main thread has come to its end, or a thread can
only fault. -/
theorem threads_stop (h : threads.Reachable (start clients rooms fd) p)
    (hoff : p.isRunning = false) {w : Work} (hrun : threads.Recorded work p ⟨0, 0, 0⟩ q w) :
    w.steps ≤ 6 * p.server.mngClient.clients.length + 21 ∧
      w.passes ≤ p.main.due ∧ w.rounds ≤ p.ping.due ∧
      ((∀ a q', a.isStep = true → ¬ threads.Step q a q') →
        (∃ crash, q.main = .done crash) ∨ ∃ a, a.isStep = true ∧ threads.Faults q a) := by
  obtain ⟨t, -, hsim⟩ := Sim.run h
  have hzero : Left p p ⟨0, 0, 0⟩ :=
    ⟨hoff, ⟨t, hsim⟩, (Nat.zero_add _).le, (Nat.zero_add _).le, (Nat.zero_add _).le⟩
  have hleft : Left p q w := hrun.invariant hzero fun _ _ _ _ ih hst => ih.act hst
  have hsteps := hleft.steps
  have hpasses := hleft.passes
  have hrounds := hleft.rounds
  have hrank := p.rank_le
  refine ⟨by omega, by omega, by omega, fun hstuck => ?_⟩
  obtain ⟨t', hsim'⟩ := hleft.sim
  rcases hsim'.ended_or_goes_on with hend | ⟨a, ha, hguard⟩
  · exact Or.inl hend
  · refine Or.inr ⟨a, ha, by_contra fun hnot => ?_⟩
    obtain ⟨q', hst⟩ := System.not_faults_iff.1 hnot hguard
    exact hstuck a q' ha hst

/-- Both threads do their work once more, before the main thread comes to its end. -/
theorem threads_stop_interrupted : ∃ (p q : Process) (w : Work),
    p.main.due = 1 ∧ p.ping.due = 1 ∧ q.main.exit = some false ∧
    w.steps ≤ 6 * p.server.mngClient.clients.length + 21 ∧
      w.passes ≤ p.main.due ∧ w.rounds ≤ p.ping.due ∧
      ((∀ a q', a.isStep = true → ¬ threads.Step q a q') →
        (∃ crash, q.main = .done crash) ∨ ∃ a, a.isStep = true ∧ threads.Faults q a) := by
  have hrun : (threads.replay (fun _ _ => True) (start 10 5 3) interrupted).any (fun p =>
      !p.isRunning && decide (p.main.due = 1) && decide (p.ping.due = 1) &&
        (threads.replay (fun _ _ => True) p farewell).any fun q =>
          q.main.exit == some false) = true := by
    decide +kernel
  obtain ⟨p, hreach, ht⟩ := System.exists_reachableIf hrun
  simp only [Bool.and_eq_true, decide_eq_true_eq, Bool.not_eq_true'] at ht
  obtain ⟨⟨⟨hoff, hmain⟩, hping⟩, hrest⟩ := ht
  obtain ⟨q, hreach', hexit⟩ := System.exists_reachableIf hrest
  obtain ⟨w, hw⟩ := System.Recorded.exists_of_reachable work ⟨0, 0, 0⟩ hreach'
  exact ⟨p, q, w, hmain, hping, by simpa using hexit, threads_stop hreach hoff hw⟩

/-- What has happened before a state of the process. -/
structure Course (acts : List Action) (p : Process) : Prop where
  off : p.isRunning = false → .signal ∈ acts ∨ p.main.exit = some true
  failed : p.main.exit = some true ∨ p.main = .selected none → .select none ∈ acts
  clean : p.main.exit = some false → .signal ∈ acts
  left : p.main.exit ≠ none → p.isRunning = false
  shut : p.main.shut = true → p.server.serverSocket ∉ p.server.sockets
  joined : ∀ crash, p.main = .done crash → p.ping = .finished

theorem Course.act (h : Course acts p) (hst : threads.Step p a q) : Course (acts ++ [a]) q := by
  have hold : ∀ {b : Action}, b ∈ acts → b ∈ acts ++ [a] := List.mem_append_left _
  have hst' := hst
  obtain ⟨hguard, hexec⟩ := hst
  cases a with
  | signal =>
    cases hexec
    exact ⟨fun _ => Or.inl (by simp), fun hf => hold (h.failed hf), fun hc => hold (h.clean hc),
      fun _ => rfl, h.shut, h.joined⟩
  | select activity =>
    obtain ⟨fds, hmain, -⟩ := MainLoop.answers_iff.1 hguard
    cases hexec
    have hoff := h.off
    rw [hmain] at hoff
    refine ⟨fun ho => ?_, fun hf => ?_, by simp [MainLoop.exit], by simp [MainLoop.exit],
      by simp [MainLoop.shut], by simp⟩
    · rcases hoff ho with hs | hs
      · exact Or.inl (hold hs)
      · cases hs
    · rcases hf with hf | hf
      · cases hf
      · rw [MainLoop.selected.injEq] at hf
        simp [hf]
  | update accepted received =>
    obtain ⟨r, e, hmain, rfl⟩ := step_update hst'
    have hoff := h.off
    rw [hmain] at hoff
    refine ⟨fun ho => ?_, by simp [MainLoop.exit], by simp [MainLoop.exit],
      by simp [MainLoop.exit], by simp [MainLoop.shut], by simp⟩
    rcases hoff ho with hs | hs
    · exact Or.inl (hold hs)
    · cases hs
  | timeout =>
    cases hexec
    exact ⟨fun ho => (h.off ho).imp_left hold, fun hf => hold (h.failed hf),
      fun hc => hold (h.clean hc), h.left, h.shut,
      fun b hb => by cases (h.joined b hb).symm.trans hguard⟩
  | main =>
    have hstep := mainStep hguard hexec
    refine ⟨fun ho => ?_, fun hf => ?_, fun hc => ?_, fun hl => ?_, fun hs => ?_, fun b hb => ?_⟩
    · rcases hstep.exit with ⟨hexit, hon⟩ | ⟨hon, -, hexit, -⟩ | ⟨-, -, hexit⟩
      · rw [hexit]
        exact (h.off (hon ▸ ho)).imp_left hold
      · refine Or.inl (hold ((h.off hon).resolve_right ?_))
        simp [hexit]
      · exact Or.inr hexit
    · have hexit := hf.resolve_right hstep.answered
      rcases hstep.exit with ⟨hsame, -⟩ | ⟨-, -, -, hfalse⟩ | ⟨hsel, -⟩
      · exact hold (h.failed (Or.inl (hsame ▸ hexit)))
      · rw [hexit] at hfalse
        cases hfalse
      · exact hold (h.failed (Or.inr hsel))
    · rcases hstep.exit with ⟨hsame, -⟩ | ⟨hon, -, hexit, -⟩ | ⟨-, -, htrue⟩
      · exact hold (h.clean (hsame ▸ hc))
      · exact hold ((h.off hon).resolve_right (by simp [hexit]))
      · rw [hc] at htrue
        cases htrue
    · rcases hstep.exit with ⟨hsame, hon⟩ | ⟨-, hon, -⟩ | ⟨-, hon, -⟩
      · exact hon.trans (h.left (hsame ▸ hl))
      · exact hon
      · exact hon
    · rcases hstep.shut hs with ⟨hp, hserver⟩ | hgone
      · exact hserver ▸ h.shut hp
      · exact hgone
    · rcases hstep.ping with hp | hp
      · rw [hp, hstep.joined b hb]
      · rw [hp, hstep.joined b hb]
        rfl
  | ping =>
    have hstep := pingStep hguard hexec
    refine ⟨fun ho => ?_, fun hf => ?_, fun hc => ?_, fun hl => ?_, fun hs => ?_, fun b hb => ?_⟩
    · rw [hstep.main]
      exact (h.off (hstep.isRunning ▸ ho)).imp_left hold
    · rw [hstep.main] at hf
      exact hold (h.failed hf)
    · rw [hstep.main] at hc
      exact hold (h.clean hc)
    · rw [hstep.main] at hl
      exact hstep.isRunning.trans (h.left hl)
    · rw [hstep.main] at hs
      rw [hstep.sockets, hstep.serverSocket]
      exact h.shut hs
    · rw [hstep.main] at hb
      exact absurd (h.joined b hb) hstep.started

/-- **The end of the server.**  When `Server::run` ends, the pinging thread has ended before and
the mutex is free; nobody is connected, the socket of the server is closed, and the server has been
shut down in a run of passes and rounds.  It ends by an exception only if `select` has failed, and
without one only if the signal has arrived. -/
theorem threads_end (h : threads.Trace (start clients rooms fd) acts p) {crash : Bool}
    (hend : p.main = .done crash) :
    p.ping = .finished ∧ p.mtx = none ∧ p.server.mngClient.clients = [] ∧
      p.server.serverSocket ∉ p.server.sockets ∧
      (crash = true → .select none ∈ acts) ∧ (crash = false → .signal ∈ acts) ∧
      ∃ t, passes.Reachable (Server.create clients rooms fd) t ∧ t.isRunning = false ∧
        p.server.clearSent = t.clearSent := by
  obtain ⟨t, ht, hsim⟩ := Sim.run h.reachable
  have hcourse : Course acts p := by
    refine System.Recorded.invariant (I := fun p acts => Course acts p) h ?_
      fun p acts a q ih hst => ih.act hst
    constructor <;> simp [start, MainLoop.exit, MainLoop.shut]
  have hfinished := hcourse.joined crash hend
  have hfree : p.mtx = none := by
    cases hmtx : p.mtx with
    | none => rfl
    | some owner =>
      cases owner with
      | main =>
        have hlocked := hsim.main.1 hmtx
        rw [hend] at hlocked
        cases hlocked
      | pinging =>
        have hlocked := hsim.ping.1 hmtx
        rw [hfinished] at hlocked
        cases hlocked
  have hshut : p.main.shut = true := by rw [hend]; rfl
  refine ⟨hfinished, hfree, hsim.gone hshut, hcourse.shut hshut, fun hc => ?_, fun hc => ?_, t, ht,
    ?_, hsim.free hfree⟩
  · exact hcourse.failed (Or.inl (by rw [hend, hc]; rfl))
  · exact hcourse.clean (by rw [hend, hc]; rfl)
  · rw [hsim.running, hshut]
    rfl

/-- The answer of `Server::run`, at its end. -/
def answer : MainLoop → Option Bool
  | .done crash => some crash
  | _ => none

theorem answer_eq_some {main : MainLoop} {crash : Bool} (h : answer main = some crash) :
    main = .done crash := by
  cases main with
  | done b =>
    obtain rfl := Option.some.inj h
    rfl
  | _ => cases h

/-- After a signal the server ends without an exception. -/
theorem threads_end_interrupted : ∃ (p : Process) (acts : List Action), p.main = .done false ∧
    p.ping = .finished ∧ p.mtx = none ∧ p.server.mngClient.clients = [] ∧
      p.server.serverSocket ∉ p.server.sockets ∧
      (false = true → .select none ∈ acts) ∧ (false = false → .signal ∈ acts) ∧
      ∃ t, passes.Reachable (Server.create 10 5 3) t ∧ t.isRunning = false ∧
        p.server.clearSent = t.clearSent := by
  have hrun : (threads.replay (fun _ _ => True) (start 10 5 3) (interrupted ++ farewell)).any
      (fun p => answer p.main == some false) = true := by
    decide +kernel
  obtain ⟨p, hreach, ht⟩ := System.exists_reachableIf hrun
  have hend : p.main = .done false := answer_eq_some (by simpa using ht)
  obtain ⟨acts, hacts⟩ := System.Recorded.exists_of_reachable (fun _ a _ acts => acts ++ [a]) []
    hreach
  exact ⟨p, acts, hend, threads_end hacts hend⟩

end Process

end HnefServer
