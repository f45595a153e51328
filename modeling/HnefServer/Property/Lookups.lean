import HnefServer.Invariant.NoFault
import HnefServer.Network.Setup

/-!
# Lookups of rooms and players

Every iterator the handlers dereference is the position of a client or of a room, in every state
an orderly run reaches and for every orderly input.  A frame of a Pinged client that its last
state does not allow ends in the lookup of a missing room.
-/

namespace HnefServer

open Protocol ClientManager

namespace Server

variable {clients rooms : ℕ} {fd : ℤ} {s : Server} {l : Input}

theorem OrderlyReachable.maxClients {strict : Bool}
    (h : Server.OrderlyReachable strict clients rooms fd s) : s.maxClients = clients + 1 :=
  System.ReachableIf.invariant (I := fun s : Server => s.maxClients = clients + 1) h rfl
    fun _ _ _ hs _ hst => (server_step_maxClients hst).trans hs

/-- **No lookup of a missing room or player.**  In an orderly run no step dereferences an
invalid iterator. -/
theorem lookups_valid (h : Server.OrderlyReachable false clients rooms fd s)
    (ho : s.Orderly false l) : ¬ server.Faults s l :=
  server_not_faults h.member (by rw [h.maxClients]; exact Nat.succ_pos _) ho

/-- A player who leaves its game right after a ping. -/
theorem lookups_valid_leave : ∃ s, Server.OrderlyReachable false 10 5 3 s ∧
    s.Orderly false (.frame 0 .leave) ∧ server.guard s (.frame 0 .leave) ∧
      ¬ server.Faults s (.frame 0 .leave) := by
  have hrun : (server.replay (Server.Orderly false) (create 10 5 3) (firstGame ++ [.ping])).any
      (fun s => decide (s.Orderly false (.frame 0 .leave) ∧ server.guard s (.frame 0 .leave))) =
        true := by
    decide +kernel
  obtain ⟨s, hs, ht⟩ := System.exists_reachableIf hrun
  obtain ⟨ho, hg⟩ := of_decide_eq_true ht
  exact ⟨s, hs, ho, hg, lookups_valid hs ho⟩

/-- A client that was pinged before it had a name leaves a game it is not in: the lookup of the
room with id `0` answers `end()`, which is dereferenced. -/
theorem lookup_of_missing_room : ∃ s, Server.Reachable 10 5 3 s ∧
    server.guard s (.frame 0 .leave) ∧ server.exec s (.frame 0 .leave) = .error .noRoom := by
  have hrun : (server.replay (fun _ _ => True) (create 10 5 3)
      [.accept "10.0.0.4".toList 4, .ping]).any (fun s =>
        decide (server.guard s (.frame 0 .leave)) &&
          match server.exec s (.frame 0 .leave) with
          | .error f => decide (f = .noRoom)
          | .ok _ => false) = true := by
    decide +kernel
  obtain ⟨s, hs, ht⟩ := exists_reachable hrun
  rw [Bool.and_eq_true, decide_eq_true_eq] at ht
  refine ⟨s, hs, ht.1, ?_⟩
  cases hx : server.exec s (.frame 0 .leave) with
  | error f =>
    have hf := ht.2
    rw [hx] at hf
    exact congrArg Except.error (of_decide_eq_true hf)
  | ok s' =>
    have hf := ht.2
    rw [hx] at hf
    cases hf

end Server

end HnefServer
