import HnefServer.Network.Effect

/-!
# The setup of the server

No event changes the limits of the server or its own descriptor, and only the shutdown stops it
(`server_step_setup`).
-/

namespace HnefServer

open Protocol ClientManager

namespace Server

variable {s s' s'' : Server} {i : ℕ} {l : Input}

/-- The limits, the descriptor of the server and whether it runs are the same. -/
structure SameSetup (s s' : Server) : Prop where
  maxClients : s'.maxClients = s.maxClients
  maxRooms : s'.maxRooms = s.maxRooms
  serverSocket : s'.serverSocket = s.serverSocket
  isRunning : s'.isRunning = s.isRunning

namespace SameSetup

theorem refl (s : Server) : SameSetup s s := ⟨rfl, rfl, rfl, rfl⟩

theorem trans (h : SameSetup s s') (h' : SameSetup s' s'') : SameSetup s s'' :=
  ⟨h'.maxClients.trans h.maxClients, h'.maxRooms.trans h.maxRooms,
    h'.serverSocket.trans h.serverSocket, h'.isRunning.trans h.isRunning⟩

theorem manage {x : Except Fault ClientManager} (h : s.manage x = .ok s') : SameSetup s s' := by
  obtain ⟨m, -, rfl⟩ := manage_eq_ok.1 h
  exact ⟨rfl, rfl, rfl, rfl⟩

theorem closeConnection (h : s.closeConnection i = .ok s') : SameSetup s s' := by
  obtain ⟨c, -, ⟨-, rfl⟩ | ⟨-, m, -, -, rfl⟩⟩ := closeConnection_cases h
  · exact refl _
  · exact ⟨rfl, rfl, rfl, rfl⟩

theorem acceptConnection (ip : Text) (fd : ℤ) : SameSetup s (s.acceptConnection ip fd) := by
  unfold Server.acceptConnection
  split_ifs
  · exact ⟨rfl, rfl, rfl, rfl⟩
  · exact refl _

/-- The server is set up as before after every part of a pass. -/
theorem preserving : Preserving SameSetup where
  refl := refl
  trans := fun _ _ _ => trans
  tell := fun _ _ _ _ => ⟨rfl, rfl, rfl, rfl⟩
  close := fun _ _ _ => closeConnection
  erase := fun _ _ _ => manage
  evict := fun _ _ => ⟨rfl, rfl, rfl, rfl⟩
  unflag := fun _ _ => ⟨rfl, rfl, rfl, rfl⟩

/-- Handling an event other than the shutdown. -/
theorem handle (hl : l ≠ .shutdown) (h : s.handle l = .ok s') : SameSetup s s' := by
  cases l with
  | accept ip fd => exact (acceptConnection ip fd).trans (preserving.checkCapacity h)
  | frame | pair | ping => exact manage h
  | close client => exact closeConnection h
  | kick client => exact preserving.kick h
  | flags client => exact preserving.processFlags h
  | shutdown => exact absurd rfl hl

end SameSetup

/-- After the shutdown the server does not run. -/
theorem shutdown_setup (h : s.shutdown = .ok s') : s'.maxClients = s.maxClients ∧
    s'.maxRooms = s.maxRooms ∧ s'.serverSocket = s.serverSocket ∧ s'.isRunning = false := by
  obtain ⟨s₁, hs₁, h₁⟩ := bind_eq_ok.1 h
  cases h₁
  have hclosed := SameSetup.preserving.closeClientSockets hs₁
  exact ⟨hclosed.maxClients, hclosed.maxRooms, hclosed.serverSocket, rfl⟩

end Server

variable {s s' : Server} {l : Input}

/-- **No step changes the setup** but the shutdown, which stops the server. -/
theorem server_step_setup (h : server.Step s l s') : s'.maxClients = s.maxClients ∧
    s'.maxRooms = s.maxRooms ∧ s'.serverSocket = s.serverSocket ∧
    s'.isRunning = (s.isRunning && decide (l ≠ .shutdown)) := by
  obtain ⟨-, hexec⟩ := h
  change s.clearSent.handle l = .ok s' at hexec
  by_cases hl : l = .shutdown
  · subst hl
    obtain ⟨hclients, hrooms, hsocket, hrun⟩ := Server.shutdown_setup hexec
    exact ⟨hclients, hrooms, hsocket, by simpa using hrun⟩
  · have hsame := Server.SameSetup.handle hl hexec
    have hrun : s'.isRunning = s.isRunning := hsame.isRunning
    exact ⟨hsame.maxClients, hsame.maxRooms, hsame.serverSocket, by simp [hrun, hl]⟩

/-- The capacity of the server does not change. -/
theorem server_step_maxClients (h : server.Step s l s') : s'.maxClients = s.maxClients :=
  (server_step_setup h).1

end HnefServer
