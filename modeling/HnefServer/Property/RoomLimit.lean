import HnefServer.Invariant.Rooms
import HnefServer.Network.Setup

/-!
# The limit of the rooms

The server is created with a maximum count of game rooms, which nothing reads.  The rooms stay
within it as long as the Ready clients are sent to play only when there is room for all of their
games, and no longer (`rooms_within_limit_iff`).
-/

namespace HnefServer

open Protocol ClientManager

namespace Server

variable {clients rooms : ℕ} {fd : ℤ} {s s' : Server} {l : Input}

/-- When the Ready clients are sent to play, there is room for their games. -/
def RoomForAll (s : Server) (l : Input) : Prop :=
  l = .pair → s.mngClient.lobby.games.length + s.mngClient.readyFrom 0 / 2 ≤ s.maxRooms

instance (s : Server) (l : Input) : Decidable (s.RoomForAll l) :=
  inferInstanceAs (Decidable (_ → _))

theorem within_limit_step (hgames : s.mngClient.lobby.games.length ≤ s.maxRooms)
    (hst : server.Step s l s') :
    s'.mngClient.lobby.games.length ≤ s.maxRooms ↔ s.RoomForAll l := by
  by_cases hl : l = .pair
  · subst hl
    rw [server_step_pair hst]
    exact ⟨fun h _ => h, fun h => h rfl⟩
  · have hle := (server_step_rooms hst hl).length_le
    exact ⟨fun _ hl' => absurd hl' hl, fun _ => hle.trans hgames⟩

/-- **The rooms stay within their limit** in every run in which the Ready clients are sent to play
only when there is room for their games, and no longer. -/
theorem rooms_within_limit_iff
    (h : server.ReachableIf RoomForAll (create clients rooms fd) s) :
    s.mngClient.lobby.games.length ≤ rooms ∧ ∀ l s', server.Step s l s' →
      (s'.mngClient.lobby.games.length ≤ rooms ↔ s.RoomForAll l) := by
  have hinv : s.mngClient.lobby.games.length ≤ rooms ∧ s.maxRooms = rooms := by
    induction h with
    | refl => exact ⟨Nat.zero_le _, rfl⟩
    | tail _ hst ih =>
      obtain ⟨l, hroom, hst⟩ := hst
      obtain ⟨hgames, hmax⟩ := ih
      have hsame := (server_step_setup hst).2.1
      rw [← hmax] at hgames
      exact ⟨hmax ▸ (within_limit_step hgames hst).2 hroom, hsame.trans hmax⟩
  obtain ⟨hgames, rfl⟩ := hinv
  exact ⟨hgames, fun l s' hst => within_limit_step hgames hst⟩

/-- The first game on a server for one. -/
theorem rooms_within_limit_firstGame : ∃ s : Server, s.mngClient.lobby.games.length = 1 ∧
    s.mngClient.lobby.games.length ≤ 1 ∧ ∀ l s', server.Step s l s' →
      (s'.mngClient.lobby.games.length ≤ 1 ↔ s.RoomForAll l) := by
  have hrun : (server.replay RoomForAll (create 2 1 3) firstGame).any
      (fun s => decide (s.mngClient.lobby.games.length = 1)) = true := by
    decide +kernel
  obtain ⟨s, hs, ht⟩ := System.exists_reachableIf hrun
  exact ⟨s, of_decide_eq_true ht, rooms_within_limit_iff hs⟩

def carol : Nick := ⟨"carol".toList, by decide, by decide, by simp [isWordChar]⟩

def david : Nick := ⟨"david".toList, by decide, by decide, by simp [isWordChar]⟩

/-- A server for four clients and one room sends four Ready clients to play in two rooms. -/
theorem two_rooms_for_one : ∃ s : Server, Server.Reachable 4 1 3 s ∧
    ¬ s.mngClient.lobby.games.length ≤ 1 := by
  have hrun : (server.replay (fun _ _ => True) (create 4 1 3)
      [.accept "10.0.0.4".toList 4, .accept "10.0.0.5".toList 5, .accept "10.0.0.6".toList 6,
        .accept "10.0.0.7".toList 7, .frame 0 (.connect alice), .frame 1 (.connect bobby),
        .frame 2 (.connect carol), .frame 3 (.connect david), .frame 0 .ready, .frame 1 .ready,
        .frame 2 .ready, .frame 3 .ready, .pair]).any
      (fun s => decide (¬ s.mngClient.lobby.games.length ≤ 1)) = true := by
    decide +kernel
  obtain ⟨s, hs, ht⟩ := exists_reachable hrun
  exact ⟨s, hs, of_decide_eq_true ht⟩

end Server

end HnefServer
