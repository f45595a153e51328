import HnefServer.Network.Decode
import HnefServer.Network.Effect

/-!
# Passes of the main loop

The main loop waits in `select` and then runs `updateClients`: it accepts a connection, checks the
capacity, loops over the clients and sends the Ready ones to play.  `Server.updateClients` is one
such pass, on what the sockets deliver (`Events`); `passes` is the transition system whose steps
are passes and rounds of the pinging thread, which the mutex keeps apart.
-/

namespace HnefServer

open Protocol

/-- What `ioctl` and `readClient` answer for a descriptor that can be read. -/
inductive Reading
  /-- The client has logged out, or its socket is bad: nothing was received. -/
  | nothing
  /-- The buffer of the server afterwards. -/
  | message (buffer : Text)

/-- What one pass finds at the sockets. -/
structure Events where
  fds_read : List ℤ
  fds_except : List ℤ
  /-- The answer of `accept`, with the address of the peer. -/
  accepted : Text × ℤ
  received : ℤ → Reading

namespace Server

/-- The answer to a connection request, if there is one. -/
def acceptRequest (ev : Events) (s : Server) : Server :=
  if s.serverSocket ∈ ev.fds_read then s.acceptConnection ev.accepted.1 ev.accepted.2 else s

/-- The body of the loop over the clients, for the client at a position; the second component is
the position the loop goes on with. -/
def updateClient (ev : Events) (s : Server) (cli : ℕ) : Except Fault (Server × ℕ) := do
  let c ← s.mngClient.deref cli
  if c.flagToDisconnect then
    let s ← s.closeConnection cli
    -- client's connection was closed, so set flag to false
    return ({ s with mngClient := s.mngClient.modify cli (·.setFlagToDisconnect false) }, cli)
  else if c.flagToErase then return (← s.manage (s.mngClient.eraseClient cli), cli)
  else if c.socketNum < 0 then return (s, cli + 1)
  else if c.socketNum ∈ ev.fds_except then return (← s.closeConnection cli, cli)
  else if c.socketNum ∈ ev.fds_read then
    match ev.received c.socketNum with
    | .nothing => return (← s.closeConnection cli, cli)
    | .message buffer => do
      let (mngClient, valid) ← s.mngClient.serveClient cli buffer
      let s := { s with mngClient }
      if valid ≠ 0 then return (← s.kick cli, cli) else return (s, cli + 1)
  else return (s, cli + 1)

/-- The loop over the clients, from position `cli` on; the second component is the position where
it ends. -/
def updateLoop (ev : Events) : ℕ → Server → ℕ → Except Fault (Server × ℕ)
  | 0, s, cli => .ok (s, cli)
  | fuel + 1, s, cli =>
    if cli < s.mngClient.clients.length then do
      let (s, cli) ← updateClient ev s cli
      updateLoop ev fuel s cli
    else .ok (s, cli)

/-- Fuel for the loop: a client is examined again after its connection was closed, and then passed
over or erased (`updateLoop_ends`). -/
def loopFuel (s : Server) : ℕ := 4 * s.mngClient.clients.length

def updateClients (ev : Events) (s : Server) : Except Fault Server := do
  let s ← (s.acceptRequest ev).checkCapacity
  let (s, _) ← updateLoop ev s.loopFuel s 0
  s.manage s.mngClient.moveReadyClientsToPlay

end Server

/-- The events of the main loop and the pinging thread. -/
inductive Turn
  | update (ev : Events)
  | ping
  | shutdown

/-- The server as the main loop and the pinging thread run it. -/
def passes : System Server Turn Fault where
  guard s
    | .update ev => s.isRunning ∧ (s.serverSocket ∈ ev.fds_read → ev.accepted.2 ∉ s.sockets)
    | .ping | .shutdown => s.isRunning
  exec s
    | .update ev => s.clearSent.updateClients ev
    | .ping => s.clearSent.handle .ping
    | .shutdown => s.clearSent.handle .shutdown

instance (s : Server) : (l : Turn) → Decidable (passes.guard s l)
  | .update ev => inferInstanceAs (Decidable (s.isRunning ∧
      (s.serverSocket ∈ ev.fds_read → ev.accepted.2 ∉ s.sockets)))
  | .ping => inferInstanceAs (Decidable (s.isRunning = true))
  | .shutdown => inferInstanceAs (Decidable (s.isRunning = true))

namespace Server

open ClientManager

variable {ev : Events} {s s' : Server} {cli cli' : ℕ}

/-- The outcomes of one iteration of the loop. -/
theorem updateClient_cases (h : updateClient ev s cli = .ok (s', cli')) :
    ∃ c, s.mngClient.clients[cli]? = some c ∧
      (c.flagToDisconnect = true ∧ cli' = cli ∧ (∃ s₁, s.closeConnection cli = .ok s₁ ∧
          s' = { s₁ with mngClient := s₁.mngClient.modify cli (·.setFlagToDisconnect false) }) ∨
        c.flagToDisconnect = false ∧ c.flagToErase = true ∧ cli' = cli ∧
          s.manage (s.mngClient.eraseClient cli) = .ok s' ∨
        c.flagToDisconnect = false ∧ c.flagToErase = false ∧
          (cli' = cli + 1 ∧ s' = s ∨ 0 ≤ c.socketNum ∧
            (cli' = cli ∧ s.closeConnection cli = .ok s' ∨
              ∃ buffer m valid, s.mngClient.serveClient cli buffer = .ok (m, valid) ∧
                (cli' = cli ∧ valid ≠ 0 ∧ kick { s with mngClient := m } cli = .ok s' ∨
                  cli' = cli + 1 ∧ valid = 0 ∧ s' = { s with mngClient := m })))) := by
  obtain ⟨c, hc, h₁⟩ := bind_eq_ok.1 h
  refine ⟨c, deref_eq_ok.1 hc, ?_⟩
  by_cases hdisc : c.flagToDisconnect = true
  · rw [if_pos hdisc] at h₁
    obtain ⟨s₁, hs₁, h₂⟩ := bind_eq_ok.1 h₁
    cases h₂
    exact Or.inl ⟨hdisc, rfl, s₁, hs₁, rfl⟩
  rw [if_neg hdisc] at h₁
  rw [Bool.not_eq_true] at hdisc
  by_cases herase : c.flagToErase = true
  · rw [if_pos herase] at h₁
    obtain ⟨s₁, hs₁, h₂⟩ := bind_eq_ok.1 h₁
    cases h₂
    exact Or.inr (Or.inl ⟨hdisc, herase, rfl, hs₁⟩)
  rw [if_neg herase] at h₁
  rw [Bool.not_eq_true] at herase
  refine Or.inr (Or.inr ⟨hdisc, herase, ?_⟩)
  by_cases hsock : c.socketNum < 0
  · rw [if_pos hsock] at h₁
    cases h₁
    exact Or.inl ⟨rfl, rfl⟩
  rw [if_neg hsock] at h₁
  by_cases hexcept : c.socketNum ∈ ev.fds_except
  · rw [if_pos hexcept] at h₁
    obtain ⟨s₁, hs₁, h₂⟩ := bind_eq_ok.1 h₁
    cases h₂
    exact Or.inr ⟨not_lt.1 hsock, Or.inl ⟨rfl, hs₁⟩⟩
  rw [if_neg hexcept] at h₁
  by_cases hread : c.socketNum ∈ ev.fds_read
  · rw [if_pos hread] at h₁
    refine Or.inr ⟨not_lt.1 hsock, ?_⟩
    cases hrecv : ev.received c.socketNum with
    | nothing =>
      rw [hrecv] at h₁
      obtain ⟨s₁, hs₁, h₂⟩ := bind_eq_ok.1 h₁
      cases h₂
      exact Or.inl ⟨rfl, hs₁⟩
    | message buffer =>
      rw [hrecv] at h₁
      obtain ⟨⟨m, valid⟩, hserve, h₂⟩ := bind_eq_ok.1 h₁
      refine Or.inr ⟨buffer, m, valid, hserve, ?_⟩
      dsimp only at h₂
      by_cases hvalid : valid = 0
      · rw [if_neg (not_not.2 hvalid)] at h₂
        cases h₂
        exact Or.inr ⟨rfl, hvalid, rfl⟩
      · rw [if_pos hvalid] at h₂
        obtain ⟨s₁, hs₁, h₃⟩ := bind_eq_ok.1 h₂
        cases h₃
        exact Or.inl ⟨rfl, hvalid, hs₁⟩
  · rw [if_neg hread] at h₁
    cases h₁
    exact Or.inl ⟨rfl, rfl⟩

end Server

end HnefServer
