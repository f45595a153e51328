import HnefServer.Network.Effect

/-!
# The state of one client

`Client.Fit` says what the room, the name, the connection and the flags of a client demand of its
two states: it is in a game, logically, if it is in a room, and a client without a name has never
left its first state, unless it is what a reconnection has left behind.  `Client.Ok` says that it
is in a game only if it is in a room, besides.  Each lemma is about one of the changes the
requests make.
-/

namespace HnefServer

open ClientManager

namespace Client

/-- What the room, the name, the connection and the flags of a client demand of its states. -/
structure Fit (c : Client) : Prop where
  last : c.stateLast.inaccessible = false
  gone : c.state = .disconnected → c.socketNum < 0
  room : c.roomId ≠ 0 → c.logical.inGame = true
  unnamed : c.nick = [] → c.state = .disconnected ∧ c.flagToErase = true ∨
    c.stateLast = .new ∧ c.logical = .new
  away : c.socketNum < 0 → c.roomId ≠ 0 → c.stateLast.inGame = true
  flags : c.flagToErase = true → c.flagToDisconnect = false → c.socketNum < 0
  ready : c.state = .ready → 0 ≤ c.socketNum

/-- What the room, the name, the connection and the flags of a client say about its states. -/
structure Ok (c : Client) : Prop where
  last : c.stateLast.inaccessible = false
  gone : c.state = .disconnected → c.socketNum < 0
  game : c.logical.inGame = true ↔ c.roomId ≠ 0
  unnamed : c.nick = [] → c.state = .disconnected ∧ c.flagToErase = true ∨
    c.stateLast = .new ∧ c.logical = .new
  away : c.socketNum < 0 → c.roomId ≠ 0 → c.stateLast.inGame = true
  flags : c.flagToErase = true → c.flagToDisconnect = false → c.socketNum < 0
  ready : c.state = .ready → 0 ≤ c.socketNum

/-- Restoring the last state does not move a client between the lobby and a game; under `strict`
it does not hand over the turn either. -/
def RestoreOk (strict : Bool) (c : Client) : Prop :=
  c.state.inaccessible = true ∨ c.stateLast.inGame = c.state.inGame ∧
    (strict = true → c.state.inGame = true → c.stateLast = c.state)

instance (strict : Bool) (c : Client) : Decidable (c.RestoreOk strict) :=
  inferInstanceAs (Decidable (_ ∨ _ ∧ (_ → _ → _)))

/-- Restoring the last state does not move a client out of its room. -/
def StaysInGame (c : Client) : Prop :=
  c.roomId = 0 ∨ c.state.inaccessible = true ∨ c.stateLast.inGame = true

instance (c : Client) : Decidable c.StaysInGame := inferInstanceAs (Decidable (_ ∨ _ ∨ _))

/-- A client that may get its first name is New, whatever hides it. -/
theorem logical_new {c : Client} (hlast : c.stateLast = .new)
    (hstate : c.state = .new ∨ c.state.inaccessible = true) : c.logical = .new := by
  rcases hstate with hs | hs
  · rw [logical_of_accessible (by rw [hs]; rfl), hs]
  · rw [logical_of_inaccessible hs, hlast]

theorem Ok.fit {c : Client} (h : c.Ok) : c.Fit :=
  ⟨h.last, h.gone, h.game.2, h.unnamed, h.away, h.flags, h.ready⟩

namespace Fit

variable {c d : Client} {s : State}

theorem ok (h : c.Fit) (hgame : c.logical.inGame = true → c.roomId ≠ 0) : c.Ok :=
  ⟨h.last, h.gone, ⟨hgame, h.room⟩, h.unnamed, h.away, h.flags, h.ready⟩

theorem create {ip : Text} {fd : ℤ} (hfd : 0 < fd) : (Client.create ip fd).Fit where
  last := rfl
  gone := nofun
  room := fun hroom => absurd rfl hroom
  unnamed := fun _ => Or.inr ⟨rfl, rfl⟩
  away := fun h => absurd h (by simpa [Client.create] using hfd.le)
  flags := nofun
  ready := nofun

/-- The logical state is never a state of inaccessibility. -/
theorem logical_accessible (h : c.Fit) : c.logical.inaccessible = false := by
  unfold logical
  split_ifs with hi
  · exact h.last
  · simpa using hi

theorem roomId_eq_zero (h : c.Fit) (hs : c.logical.inGame = false) : c.roomId = 0 := by
  by_contra hroom
  rw [h.room hroom] at hs
  cases hs

/-- A client in a game that is not Disconnected has a name. -/
theorem nick_ne_nil (h : c.Fit) (hs : c.logical ≠ .new) (hd : c.state ≠ .disconnected) :
    c.nick ≠ [] := fun hn => (h.unnamed hn).elim (fun hgone => hd hgone.1) fun hnew => hs hnew.2

/-- A client that is connected and in a room has a name. -/
theorem named_of_room (h : c.Fit) (hsock : 0 ≤ c.socketNum) (hroom : c.roomId ≠ 0) :
    c.nick ≠ [] := by
  have hgame := h.room hroom
  refine h.nick_ne_nil (fun hnew => ?_) fun hd => ?_
  · simp [hnew, State.inGame] at hgame
  · have hgone := h.gone hd
    omega

/-- A Waiting or Ready client is in the lobby and has a name. -/
theorem lobby (h : c.Fit) (hs : c.state = .waiting ∨ c.state = .ready) :
    c.nick ≠ [] ∧ c.roomId = 0 := by
  have hacc : c.state.inaccessible = false := by
    rcases hs with hs | hs <;> rw [hs] <;> rfl
  have hlog : c.logical = c.state := logical_of_accessible hacc
  refine ⟨h.nick_ne_nil ?_ ?_, h.roomId_eq_zero ?_⟩
  · rw [hlog]
    rcases hs with hs | hs <;> simp [hs]
  · rcases hs with hs | hs <;> simp [hs]
  · rw [hlog]
    rcases hs with hs | hs <;> rw [hs] <;> rfl

/-- A change of the state to one a client can have while it is accessible. -/
theorem setState (h : c.Fit) (hs : s.inaccessible = false)
    (hroom : c.roomId ≠ 0 → s.inGame = true) (hnew : c.nick = [] → s = .new ∧ c.logical = .new)
    (hready : s = .ready → 0 ≤ c.socketNum) : (c.setState s).Fit where
  last := h.logical_accessible
  gone := fun hd => by
    have hd : s = .disconnected := hd
    simp [hd, State.inaccessible] at hs
  room := by
    rw [logical_setState hs]
    exact hroom
  unnamed := fun hn => by
    rw [logical_setState hs]
    exact Or.inr ⟨(hnew hn).2, (hnew hn).1⟩
  away := fun _ hr => h.room hr
  flags := h.flags
  ready := hready

/-- Becoming inaccessible. -/
theorem setInaccessible (h : c.Fit) (hs : s.inaccessible = true) (hc : c.state ≠ .disconnected)
    (hgone : s = .disconnected → c.socketNum < 0) : (c.setState s).Fit where
  last := h.logical_accessible
  gone := hgone
  room := by
    rw [logical_setState_of_inaccessible hs]
    exact h.room
  unnamed := fun hn => by
    rw [logical_setState_of_inaccessible hs]
    have hnew := (h.unnamed hn).resolve_left fun hgone => hc hgone.1
    exact Or.inr ⟨hnew.2, hnew.2⟩
  away := fun _ hr => h.room hr
  flags := h.flags
  ready := fun hr => by
    have hr : s = .ready := hr
    simp [hr, State.inaccessible] at hs

theorem restore (h : c.Fit) (hr : c.StaysInGame) (hsock : 0 ≤ c.socketNum) :
    (c.setState c.stateLast).Fit := by
  refine h.setState h.last (fun hroom => ?_) (fun hn => ?_) fun _ => hsock
  · rcases hr with hzero | hi | hgame
    · exact absurd hzero hroom
    · rw [← logical_of_inaccessible hi]
      exact h.room hroom
    · exact hgame
  · refine (h.unnamed hn).resolve_left fun hd => ?_
    have hgone := h.gone hd.1
    omega

theorem disconnect (h : c.Fit) : (Server.disconnect c).Fit where
  last := h.logical_accessible
  gone := fun _ => Server.disconnect_socketNum c
  room := by
    change _ → (c.setState .disconnected).logical.inGame = true
    rw [logical_setState_of_inaccessible rfl]
    exact h.room
  unnamed := fun hn => by
    change _ ∨ _ ∧ (c.setState .disconnected).logical = .new
    rw [logical_setState_of_inaccessible rfl]
    exact (h.unnamed hn).imp (fun hgone => ⟨rfl, hgone.2⟩) fun hnew => ⟨hnew.2, hnew.2⟩
  away := fun _ hr => h.room hr
  flags := fun _ _ => Server.disconnect_socketNum c
  ready := nofun

theorem setFlagToDisconnect (h : c.Fit) : (c.setFlagToDisconnect true).Fit :=
  ⟨h.last, h.gone, h.room, h.unnamed, h.away, nofun, h.ready⟩

/-- The flag is cleared when the connection has been closed. -/
theorem clearFlag (h : c.Fit) (hsock : c.socketNum < 0) : (c.setFlagToDisconnect false).Fit :=
  ⟨h.last, h.gone, h.room, h.unnamed, h.away, fun _ _ => hsock, h.ready⟩

theorem setFlagToErase (h : c.Fit) (hf : c.flagToDisconnect = true ∨ c.socketNum < 0) :
    (c.setFlagToErase true).Fit := by
  refine ⟨h.last, h.gone, h.room, fun hn => ?_, h.away, fun _ hd => ?_, h.ready⟩
  · exact (h.unnamed hn).imp (fun hgone => ⟨hgone.1, rfl⟩) id
  have hd : c.flagToDisconnect = false := hd
  exact hf.resolve_left fun hf => by simp [hf] at hd

theorem countDown (h : c.Fit) (hs : c.state = .disconnected) : (countDown c).Fit := by
  have hdec : c.decreaseInaccessCount.Fit :=
    ⟨h.last, h.gone, h.room, h.unnamed, h.away, h.flags, h.ready⟩
  unfold ClientManager.countDown
  dsimp only
  split_ifs
  · exact hdec.setFlagToErase (Or.inr (h.gone hs))
  · exact hdec

/-- A ping round keeps a client as it is, but for its connection. -/
theorem pinged (h : c.Fit) :
    (pinged c).Fit ∧ (pinged c).nick = c.nick ∧ (pinged c).roomId = c.roomId ∧
      (pinged c).logical = c.logical := by
  have hping : c.state ≠ .disconnected → ∀ s : State, s.inaccessible = true →
      s ≠ .disconnected → (c.setState s).Fit ∧ (c.setState s).nick = c.nick ∧
        (c.setState s).roomId = c.roomId ∧ (c.setState s).logical = c.logical :=
    fun hc s hs hd => ⟨h.setInaccessible hs hc fun h' => absurd h' hd, rfl, rfl,
      logical_setState_of_inaccessible hs⟩
  unfold ClientManager.pinged
  split_ifs
  · exact ⟨h.setFlagToDisconnect.setFlagToErase (Or.inl rfl), rfl, rfl, rfl⟩
  cases hs : c.state with
  | pinged => exact hping (by simp [hs]) _ rfl (by decide)
  | lost => exact ⟨h.setFlagToDisconnect, rfl, rfl, rfl⟩
  | disconnected =>
    refine ⟨h.countDown hs, ?_⟩
    unfold ClientManager.countDown
    dsimp only
    split_ifs <;> exact ⟨rfl, rfl, rfl⟩
  | new | waiting | ready | playingOnTurn | playingOnStand =>
    exact hping (by simp [hs]) _ rfl (by decide)

theorem enter (h : c.Fit) {nick : Text} (hn : nick ≠ []) (hnew : c.logical = .new) :
    (enter nick c).Fit where
  last := rfl
  gone := nofun
  room := fun hroom => absurd (h.roomId_eq_zero (by rw [hnew]; rfl)) hroom
  unnamed := fun hnil => absurd hnil hn
  away := fun _ hr => absurd (h.roomId_eq_zero (by rw [hnew]; rfl)) hr
  flags := h.flags
  ready := nofun

theorem setReady (h : c.Fit) (hn : c.nick ≠ []) (hroom : c.roomId = 0) (hsock : 0 ≤ c.socketNum) :
    (c.setState .ready).Fit :=
  h.setState rfl (fun hr => absurd hroom hr) (fun hnil => absurd hnil hn) fun _ => hsock

theorem takeOver (h : c.Fit) (hd : d.Fit) {nick : Text} (hn : nick ≠ [])
    (hs : d.state = .disconnected) (hsock : 0 ≤ c.socketNum) : (takeOver nick d c).Fit := by
  have hlog : (ClientManager.takeOver nick d c).logical = d.logical := by
    rw [logical_takeOver hd.last, logical_of_inaccessible (by rw [hs]; rfl)]
  refine ⟨h.logical_accessible, fun hg => ?_, ?_, fun hnil => absurd hnil hn, fun hneg => ?_,
    h.flags, fun _ => hsock⟩
  · have hg : d.stateLast = .disconnected := hg
    have hlast := hd.last
    simp [hg, State.inaccessible] at hlast
  · rw [hlog]
    exact hd.room
  · have hneg : c.socketNum < 0 := hneg
    omega

theorem expire (h : d.Fit) (hs : d.state = .disconnected) : (expire d).Fit :=
  ⟨h.last, h.gone, h.room, fun _ => Or.inl ⟨hs, rfl⟩, h.away, fun _ _ => h.gone hs, h.ready⟩

/-- A Ready client starts to play. -/
theorem start (h : c.Fit) (hs : c.state = .ready) {id : ℕ} (hst : s.inGame = true) :
    (seat id s c).Fit := by
  have hacc := State.not_inaccessible_of_inGame hst
  have hready : c.logical = .ready := by
    rw [logical_of_accessible (by rw [hs]; rfl), hs]
  have hsock := h.ready hs
  refine ⟨?_, fun hd => ?_, fun _ => ?_, fun hn => ?_, fun hneg => ?_, h.flags, fun _ => hsock⟩
  · exact h.logical_accessible
  · have hd : s = .disconnected := hd
    simp [hd, State.inGame] at hst
  · exact (congrArg State.inGame (logical_setState hacc)).trans hst
  · exact absurd hn (h.nick_ne_nil (by simp [hready]) (by simp [hs]))
  · have hneg : c.socketNum < 0 := hneg
    omega

/-- The turn is passed between two players. -/
theorem handOver (h : c.Fit) (hn : c.nick ≠ []) :
    (handOver c.state c).Fit ∧ (handOver c.state c).logical = .playingOnTurn := by
  unfold ClientManager.handOver
  cases hi : c.state.inaccessible with
  | true =>
    have hlog : (c.setStateLast .playingOnTurn).logical = .playingOnTurn :=
      logical_of_inaccessible hi
    exact ⟨⟨rfl, h.gone, fun _ => congrArg State.inGame hlog, fun hnil => absurd hnil hn,
      fun _ _ => rfl, h.flags, h.ready⟩, hlog⟩
  | false =>
    exact ⟨h.setState rfl (fun _ => rfl) (fun hnil => absurd hnil hn) nofun, logical_setState rfl⟩

theorem standBy (h : c.Fit) (hn : c.nick ≠ []) : (c.setState .playingOnStand).Fit :=
  h.setState rfl (fun _ => rfl) (fun hnil => absurd hnil hn) nofun

/-- A player goes back to the lobby. -/
theorem toWaiting (h : c.Fit) (hn : c.nick ≠ []) :
    ((toWaiting c.state c).setRoomId 0).Fit ∧
      ((ClientManager.toWaiting c.state c).setRoomId 0).logical = .waiting := by
  unfold ClientManager.toWaiting
  cases hi : c.state.inaccessible with
  | true =>
    have hlog : ((c.setStateLast .waiting).setRoomId 0).logical = .waiting :=
      logical_of_inaccessible hi
    exact ⟨⟨rfl, h.gone, fun hr => absurd rfl hr, fun hnil => absurd hnil hn,
      fun _ hr => absurd rfl hr, h.flags, h.ready⟩, hlog⟩
  | false =>
    have hlog : ((c.setState .waiting).setRoomId 0).logical = .waiting := logical_setState rfl
    exact ⟨⟨h.logical_accessible, nofun, fun hr => absurd rfl hr, fun hnil => absurd hnil hn,
      fun _ hr => absurd rfl hr, h.flags, nofun⟩, hlog⟩

end Fit

namespace Ok

variable {c d : Client} {s : State} {strict : Bool}

theorem create {ip : Text} {fd : ℤ} (hfd : 0 < fd) : (Client.create ip fd).Ok :=
  (Fit.create hfd).ok nofun

theorem roomId_eq_zero (h : c.Ok) (hs : c.logical.inGame = false) : c.roomId = 0 :=
  h.fit.roomId_eq_zero hs

theorem nick_ne_nil (h : c.Ok) (hs : c.logical ≠ .new) (hd : c.state ≠ .disconnected) :
    c.nick ≠ [] := h.fit.nick_ne_nil hs hd

/-- Becoming inaccessible. -/
theorem setInaccessible (h : c.Ok) (hs : s.inaccessible = true) (hc : c.state ≠ .disconnected)
    (hgone : s = .disconnected → c.socketNum < 0) : (c.setState s).Ok := by
  refine (h.fit.setInaccessible hs hc hgone).ok ?_
  rw [logical_setState_of_inaccessible hs]
  exact h.game.1

theorem restore (h : c.Ok) (hr : c.RestoreOk strict) (hsock : 0 ≤ c.socketNum) :
    (c.setState c.stateLast).Ok := by
  have hgame : c.stateLast.inGame = true ↔ c.roomId ≠ 0 := by
    cases hi : c.state.inaccessible with
    | true =>
      rw [← logical_of_inaccessible hi]
      exact h.game
    | false =>
      obtain ⟨hgame, -⟩ := hr.resolve_left (by simp [hi])
      rw [hgame, ← logical_of_accessible hi]
      exact h.game
  refine (h.fit.restore ?_ hsock).ok ?_
  · by_cases hroom : c.roomId = 0
    · exact Or.inl hroom
    · exact Or.inr (Or.inr (hgame.2 hroom))
  · rw [logical_setState h.last]
    exact hgame.1

/-- Restoring the last state keeps the turn of a client in a game. -/
theorem logical_restore (h : c.Ok) (hr : c.RestoreOk true) (hroom : c.roomId ≠ 0) :
    (c.setState c.stateLast).logical = c.logical := by
  rw [logical_setState h.last]
  rcases hr with hi | ⟨-, hturn⟩
  · exact (logical_of_inaccessible hi).symm
  · cases hi : c.state.inaccessible with
    | true => exact (logical_of_inaccessible hi).symm
    | false =>
      have hgame := h.game.2 hroom
      rw [logical_of_accessible hi] at hgame ⊢
      exact hturn rfl hgame

theorem disconnect (h : c.Ok) : (Server.disconnect c).Ok := by
  refine h.fit.disconnect.ok ?_
  change (c.setState .disconnected).logical.inGame = true → _
  rw [logical_setState_of_inaccessible rfl]
  exact h.game.1

theorem clearFlag (h : c.Ok) (hsock : c.socketNum < 0) : (c.setFlagToDisconnect false).Ok :=
  (h.fit.clearFlag hsock).ok h.game.1

/-- A ping round keeps a client as it is, but for its connection. -/
theorem pinged (h : c.Ok) :
    (pinged c).Ok ∧ (pinged c).nick = c.nick ∧ (pinged c).roomId = c.roomId ∧
      (pinged c).logical = c.logical := by
  obtain ⟨hfit, hn, hroom, hlog⟩ := h.fit.pinged
  refine ⟨hfit.ok ?_, hn, hroom, hlog⟩
  rw [hlog, hroom]
  exact h.game.1

theorem enter (h : c.Ok) {nick : Text} (hn : nick ≠ []) (hnew : c.logical = .new) :
    (enter nick c).Ok := (h.fit.enter hn hnew).ok nofun

theorem setReady (h : c.Ok) (hn : c.nick ≠ []) (hroom : c.roomId = 0) (hsock : 0 ≤ c.socketNum) :
    (c.setState .ready).Ok := by
  refine (h.fit.setReady hn hroom hsock).ok ?_
  rw [logical_setState rfl]
  exact nofun

theorem takeOver (h : c.Ok) (hd : d.Ok) {nick : Text} (hn : nick ≠ [])
    (hs : d.state = .disconnected) (hsock : 0 ≤ c.socketNum) : (takeOver nick d c).Ok := by
  refine (h.fit.takeOver hd.fit hn hs hsock).ok ?_
  rw [logical_takeOver hd.last, ← logical_of_inaccessible (by rw [hs]; rfl)]
  exact hd.game.1

theorem expire (h : d.Ok) (hs : d.state = .disconnected) : (expire d).Ok :=
  (h.fit.expire hs).ok h.game.1

/-- A Ready client starts to play. -/
theorem start (h : c.Ok) (hs : c.state = .ready) {id : ℕ} (hid : id ≠ 0) (hst : s.inGame = true) :
    (seat id s c).Ok := (h.fit.start hs hst).ok fun _ => hid

/-- The turn is passed between two players. -/
theorem handOver (h : c.Ok) (hroom : c.roomId ≠ 0) (hn : c.nick ≠ []) :
    (handOver c.state c).Ok ∧ (handOver c.state c).logical = .playingOnTurn := by
  obtain ⟨hfit, hlog⟩ := h.fit.handOver hn
  refine ⟨hfit.ok fun _ => ?_, hlog⟩
  rw [handOver_roomId]
  exact hroom

theorem standBy (h : c.Ok) (hroom : c.roomId ≠ 0) (hn : c.nick ≠ []) :
    (c.setState .playingOnStand).Ok := (h.fit.standBy hn).ok fun _ => hroom

/-- A player goes back to the lobby. -/
theorem toWaiting (h : c.Ok) (hn : c.nick ≠ []) : ((toWaiting c.state c).setRoomId 0).Ok := by
  obtain ⟨hfit, hlog⟩ := h.fit.toWaiting hn
  refine hfit.ok ?_
  rw [hlog]
  exact nofun

end Ok

end Client

end HnefServer
