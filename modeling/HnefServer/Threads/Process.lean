import HnefServer.Network.Pass

/-!
# The two threads

`Server::run` starts the pinging thread and enters the main loop; both change the clients and the
rooms, under the mutex.  A `Process` is the server together with the positions of the two threads,
the mutex and the global `isRunning`, which the signal handler clears at any time.  One action is
one step of one thread: what happens under the mutex takes many actions, one for each client, so
that nothing is atomic by definition.  A step that calls `readClient` or `send` is taken when the
call returns; a call that never does, on a client that keeps sending or does not read, is no step.
-/

namespace HnefServer

open Protocol ClientManager

inductive Thread
  | main
  | pinging
  deriving DecidableEq

/-- The positions of `Server::run`. -/
inductive MainLoop
  /-- At `while (isRunning)`. -/
  | test
  /-- The sockets are copied. -/
  | copied (sockets : List ℤ)
  /-- In `select`. -/
  | selecting (sockets : List ℤ)
  /-- `select` has answered; `none` if it failed. -/
  | selected (activity : Option (List ℤ × List ℤ))
  /-- Waiting for the mutex, to update the clients. -/
  | entering (fds_read fds_except : List ℤ)
  /-- In `updateClients`, before a connection is accepted. -/
  | accepting (ev : Events)
  /-- In the loop of `updateClients`. -/
  | updating (ev : Events) (cli : ℕ)
  /-- The clients are updated; the mutex is still locked. -/
  | updated
  /-- Out of the loop, waiting for the mutex. -/
  | stopping (crash : Bool)
  /-- In the loop of `closeClientSockets`. -/
  | closing (crash : Bool)
  /-- The sockets are closed; the mutex is still locked. -/
  | closed (crash : Bool)
  /-- Waiting for the end of the pinging thread. -/
  | joining (crash : Bool)
  /-- The end, by an exception iff `crash`. -/
  | done (crash : Bool)

/-- The positions of `Server::pingClients`. -/
inductive PingLoop
  /-- At `while (isRunning)`. -/
  | test
  /-- Waiting for the mutex. -/
  | entering
  /-- In the loop over the clients. -/
  | round (cli : ℕ)
  /-- In `wait_for`, without the mutex. -/
  | waiting
  /-- Woken, waiting for the mutex. -/
  | woken
  /-- After `wait_for`, with the mutex. -/
  | leaving
  | finished
  deriving DecidableEq

structure Process where
  server : Server
  isRunning : Bool
  mtx : Option Thread
  main : MainLoop
  ping : PingLoop

/-- The actions of the threads and of their environment. -/
inductive Action
  /-- `SIGINT` arrives. -/
  | signal
  /-- `select` answers. -/
  | select (activity : Option (List ℤ × List ℤ))
  /-- The main loop locks the mutex to update the clients; `accept` and `readClient` are going to
  answer so. -/
  | update (accepted : Text × ℤ) (received : ℤ → Reading)
  /-- Any other step of the main thread. -/
  | main
  /-- A step of the pinging thread. -/
  | ping
  /-- The wait of the pinging thread ends by itself. -/
  | timeout

namespace MainLoop

/-- `select` answers watched descriptors. -/
def answers : MainLoop → Option (List ℤ × List ℤ) → Bool
  | .selecting _, none => true
  | .selecting fds, some (r, e) => r.all (· ∈ fds) && e.all (· ∈ fds)
  | _, _ => false

/-- `accept` answers no descriptor that is open. -/
def admits (s : Server) (fd : ℤ) : MainLoop → Bool
  | .entering r _ => decide (s.serverSocket ∈ r → fd ∉ s.sockets)
  | _ => false

/-- The main thread can take a step of its own. -/
def ready (mtx : Option Thread) (ping : PingLoop) : MainLoop → Bool
  | .selecting _ | .entering _ _ | .done _ => false
  | .stopping _ => mtx = none
  | .joining _ => ping = .finished
  | _ => true

end MainLoop

/-- The pinging thread can take a step of its own. -/
def PingLoop.ready (mtx : Option Thread) : PingLoop → Bool
  | .waiting | .finished => false
  | .entering | .woken => mtx = none
  | _ => true

namespace Process

/-- The server as `Server::run` finds it. -/
def start (clients rooms : ℕ) (serverSocket : ℤ) : Process :=
  ⟨Server.create clients rooms serverSocket, true, none, .test, .test⟩

/-- `cv.notify_one`: it is lost unless the pinging thread waits. -/
def notify : PingLoop → PingLoop
  | .waiting => .woken
  | p => p

variable (p : Process)

/-- The actions that can happen. -/
def guard : Action → Prop
  | .signal => True
  | .select activity => p.main.answers activity = true
  | .update accepted _ => p.mtx = none ∧ p.main.admits p.server accepted.2 = true
  | .main => p.main.ready p.mtx p.ping = true
  | .ping => p.ping.ready p.mtx = true
  | .timeout => p.ping = .waiting

instance : (a : Action) → Decidable (p.guard a)
  | .signal => isTrue trivial
  | .select activity => inferInstanceAs (Decidable (p.main.answers activity = true))
  | .update accepted _ =>
    inferInstanceAs (Decidable (p.mtx = none ∧ p.main.admits p.server accepted.2 = true))
  | .main => inferInstanceAs (Decidable (p.main.ready p.mtx p.ping = true))
  | .ping => inferInstanceAs (Decidable (p.ping.ready p.mtx = true))
  | .timeout => inferInstanceAs (Decidable (p.ping = .waiting))

/-- One iteration of `closeClientSockets`. -/
def closeFirst (s : Server) : Except Fault Server := do
  let s := { s with mngClient := s.mngClient.sendToClient 0 SC_SHDW }
  let s ← s.closeConnection 0
  s.manage (s.mngClient.eraseClient 0)

/-- A step of the main thread. -/
def stepMain : Except Fault Process :=
  match p.main with
  | .test =>
    .ok { p with main := if p.isRunning then .copied p.server.sockets else .stopping false }
  | .copied fds =>
    .ok { p with main := if p.isRunning then .selecting fds else .selected (some (fds, fds)) }
  | .selected activity =>
    if p.isRunning = false then .ok { p with main := .stopping false }
    else
      match activity with
      | none => .ok { p with isRunning := false, main := .stopping true }
      | some (r, e) => .ok { p with main := .entering r e }
  | .accepting ev => do
    let server ← (p.server.acceptRequest ev).checkCapacity
    return { p with server, main := .updating ev 0 }
  | .updating ev cli =>
    if cli < p.server.mngClient.clients.length then do
      let (server, cli) ← Server.updateClient ev p.server cli
      return { p with server, main := .updating ev cli }
    else do
      let server ← p.server.manage p.server.mngClient.moveReadyClientsToPlay
      return { p with server, main := .updated }
  | .updated => .ok { p with mtx := none, main := .test }
  | .stopping crash =>
    .ok { p with server := p.server.clearSent, mtx := some .main, main := .closing crash }
  | .closing crash =>
    if p.server.mngClient.clients = [] then
      let server := { p.server with
        sockets := FD_CLR p.server.serverSocket p.server.sockets, isRunning := false }
      .ok { p with server, main := .closed crash, ping := notify p.ping }
    else do
      let server ← closeFirst p.server
      return { p with server }
  | .closed crash => .ok { p with mtx := none, main := .joining crash }
  | .joining crash => .ok { p with main := .done crash }
  | .selecting _ | .entering _ _ | .done _ => .ok p

/-- A step of the pinging thread. -/
def stepPing : Except Fault Process :=
  match p.ping with
  | .test => .ok { p with ping := if p.isRunning then .entering else .finished }
  | .entering =>
    .ok { p with server := p.server.clearSent, mtx := some .pinging, ping := .round 0 }
  | .round cli =>
    if cli < p.server.mngClient.clients.length then do
      let server ← p.server.manage (p.server.mngClient.pingClient cli)
      return { p with server, ping := .round (cli + 1) }
    else .ok { p with mtx := none, ping := .waiting }
  | .woken => .ok { p with mtx := some .pinging, ping := .leaving }
  | .leaving => .ok { p with mtx := none, ping := .test }
  | .waiting | .finished => .ok p

def act : Action → Except Fault Process
  | .signal => .ok { p with isRunning := false }
  | .select activity => .ok { p with main := .selected activity }
  | .update accepted received =>
    match p.main with
    | .entering fds_read fds_except => .ok { p with
        server := p.server.clearSent
        mtx := some .main
        main := .accepting { fds_read, fds_except, accepted, received } }
    | _ => .ok p
  | .main => p.stepMain
  | .ping => p.stepPing
  | .timeout => .ok { p with ping := .woken }

end Process

/-- The two threads as a transition system. -/
def threads : System Process Action Fault where
  guard := Process.guard
  exec := Process.act

instance (p : Process) (a : Action) : Decidable (threads.guard p a) :=
  inferInstanceAs (Decidable (p.guard a))

theorem MainLoop.answers_iff {main : MainLoop} {activity : Option (List ℤ × List ℤ)} :
    main.answers activity = true ↔ ∃ fds, main = .selecting fds ∧
      ∀ r e, activity = some (r, e) → r ⊆ fds ∧ e ⊆ fds := by
  cases main <;> rcases activity with - | ⟨r, e⟩ <;> simp [answers, List.subset_def]

theorem MainLoop.admits_iff {s : Server} {fd : ℤ} {main : MainLoop} :
    main.admits s fd = true ↔ ∃ r e, main = .entering r e ∧
      (s.serverSocket ∈ r → fd ∉ s.sockets) := by
  constructor
  · intro h
    cases main with
    | entering r e => exact ⟨r, e, rfl, of_decide_eq_true h⟩
    | _ => cases h
  · rintro ⟨r, e, rfl, h⟩
    exact decide_eq_true h

/-! ### Critical sections -/

/-- The main thread has locked the mutex. -/
def MainLoop.locked : MainLoop → Bool
  | .accepting _ | .updating _ _ | .updated | .closing _ | .closed _ => true
  | _ => false

/-- The main thread has shut the server down. -/
def MainLoop.shut : MainLoop → Bool
  | .closed _ | .joining _ | .done _ => true
  | _ => false

/-- The pinging thread has locked the mutex. -/
def PingLoop.locked : PingLoop → Bool
  | .round _ | .leaving => true
  | _ => false

end HnefServer
