import HnefServer.Game.Move
import HnefServer.Network.Decode
import HnefServer.Network.Effect

/-!
# The decode pipeline

Serving a buffer of frames is handling them in order, up to the first one that is rejected.  The
request queue that the iterations of `process` share is empty whenever one of them begins, and a
rejected frame stores coordinates at most.  Frames handled in order are inputs of the server
offered one after the other (`ClientManager.handleFrames_handle`).
-/

namespace HnefServer

open Protocol

/-- A lookup of a room or a client has failed. -/
def Fault.OfLookup (e : Fault) : Prop := e = .noRoom ∨ e = .noClient

/-- The room up to the coordinates of the last move it was asked for. -/
def RoomHnefatafl.position (r : RoomHnefatafl) : RoomHnefatafl := r.setCoordinates 0 0 0 0

namespace ClientManager

variable {m m' m₁ m₂ : ClientManager} {client : ℕ}

/-! ### The queue -/

/-- **The loop of `process` handles the frames.**  An accepted frame leaves the request queue
empty for the next one; after a rejected one the loop ends. -/
theorem process_text (ds : List Frame) :
    process client m (ds.map Frame.text) [] = handleFrames client m ds := by
  induction ds generalizing m with
  | nil => rfl
  | cons d ds ih =>
    simp only [List.map_cons, process, List.nil_append, Frame.keyValues_text,
      routeRequest_request, handleFrames, handleFrame]
    cases m.deref client with
    | error f => rfl
    | ok c =>
      simp only [ok_bind]
      split_ifs with hacc
      · cases hserve : m.serveFrame client c.state d with
        | error f => rfl
        | ok p =>
          simp only [Except.map, ok_bind]
          split_ifs
          · rfl
          · exact ih
      · rfl

/-- **Serving a buffer of frames** handles the frames. -/
theorem serveClient_wire {ds : List Frame} (hne : ds ≠ []) :
    m.serveClient client (Frame.wire ds) = handleFrames client m ds := by
  have hvalid : isValidFormat (Frame.wire ds) = 0 := Frame.isValidFormat_iff.2 ⟨ds, hne, rfl⟩
  have hdata : ds.map Frame.text ≠ [] := by simpa using hne
  simp only [serveClient, hvalid, if_true, Frame.parseMsg_wire, process_text]
  exact if_pos hdata

/-! ### Faults

Only the lookups of rooms and clients fail: the queue is never empty when it is read. -/

section Faults

variable {e : Fault} (he : ¬e.OfLookup)
include he

theorem avoids_deref (m : ClientManager) (i : ℕ) : Avoids e (m.deref i) := by
  unfold deref
  split
  · exact .ok _
  · exact fun h => he (Or.inr (Except.error.inj h).symm)

theorem avoids_lobby_deref (l : Lobby) (i : ℕ) : Avoids e (l.deref i) := by
  unfold Lobby.deref
  split
  · exact .ok _
  · exact fun h => he (Or.inl (Except.error.inj h).symm)

theorem avoids_getOpponentOf (l : Lobby) (c : Client) :
    Avoids e (l.getOpponentOf c) :=
  (avoids_lobby_deref he _ _).bind fun _ _ => .ok _

theorem avoids_sendToOpponentOf (m : ClientManager) (i : ℕ) (msg : Text) :
    Avoids e (m.sendToOpponentOf i msg) := by
  refine (avoids_deref he _ _).bind fun c _ => (avoids_getOpponentOf he _ _).bind fun n _ => ?_
  dsimp only
  split_ifs
  · exact .ok _
  · refine (avoids_deref he _ _).bind fun o _ => ?_
    split_ifs
    · exact .ok _
    · exact .ok _

theorem avoids_destroyRoom (m : ClientManager) (id i j : ℕ) :
    Avoids e (m.destroyRoom id i j) := by
  refine (avoids_deref he _ _).bind fun a _ => (avoids_deref he _ _).bind fun b _ =>
    Avoids.bind ?_ fun l _ => .ok _
  unfold Lobby.eraseRoom
  split_ifs
  · exact .ok _
  · exact fun h => he (Or.inl (Except.error.inj h).symm)
  · exact .ok _

theorem avoids_reportReconnection (m : ClientManager) (i : ℕ) :
    Avoids e (m.reportReconnection i) := by
  refine (avoids_deref he _ _).bind fun c _ => Avoids.bind ?_ fun _ _ => .ok _
  split_ifs
  · exact .ok _
  · refine Avoids.bind ?_ fun msg _ => avoids_sendToOpponentOf he _ _ _
    refine (avoids_getOpponentOf he _ _).bind fun n _ => Avoids.bind ?_ fun pf _ => .ok _
    exact (avoids_lobby_deref he _ _).bind fun _ _ => .ok _

theorem avoids_handleReconnection (m : ClientManager) (i j : ℕ) (nick : Text) :
    Avoids e (m.handleReconnection i j nick) := by
  refine (avoids_deref he _ _).bind fun d _ => ?_
  cases d.state with
  | waiting | playingOnTurn | playingOnStand => exact .ok _
  | pinged | lost => exact avoids_reportReconnection he _ _
  | new | ready | disconnected =>
    exact (avoids_deref he _ _).bind fun _ _ => (avoids_deref he _ _).bind fun _ _ =>
      avoids_reportReconnection he _ _

theorem avoids_requestConnect (m : ClientManager) (i : ℕ) (nick : Text) (state : State) :
    Avoids e (m.requestConnect i nick state) := by
  refine (avoids_deref he _ _).bind fun c _ => ?_
  dsimp only
  split_ifs
  · exact .ok _
  · exact .ok _
  · exact .ok _
  · exact (avoids_handleReconnection he _ _ _ _).bind fun _ _ => .ok _

theorem avoids_afterMove (m : ClientManager) (id : ℕ) (coordinates : Text) :
    Avoids e (m.afterMove id coordinates) := by
  refine Avoids.bind ((avoids_lobby_deref he _ _).bind fun _ _ => .ok _) fun n₁ _ => ?_
  refine Avoids.bind ((avoids_lobby_deref he _ _).bind fun _ _ => .ok _) fun n₂ _ => ?_
  refine (avoids_deref he _ _).bind fun c _ => (avoids_deref he _ _).bind fun d _ => ?_
  refine Avoids.bind ((avoids_lobby_deref he _ _).bind fun _ _ => .ok _) fun gs _ => ?_
  by_cases hover : gs = .gameover
  · rw [if_pos hover]
    exact avoids_destroyRoom he _ _ _ _
  · rw [if_neg hover]
    exact .ok _

theorem avoids_requestMove (m : ClientManager) (i : ℕ) (v : Coordinates) :
    Avoids e (m.requestMove i v.text) := by
  refine (avoids_deref he _ _).bind fun c _ => Avoids.bind ?_ fun p _ => ?_
  · refine (avoids_lobby_deref he _ _).bind fun r _ => Avoids.bind ?_ fun _ _ => .ok _
    exact .of_returns (RoomHnefatafl.processMove_returns (le_antisymm v.upper v.lower) v.chars)
  · dsimp only
    split_ifs
    · exact (avoids_afterMove he _ _ _).bind fun _ _ => .ok _
    · exact .ok _

theorem avoids_requestLeave (m : ClientManager) (i : ℕ) :
    Avoids e (m.requestLeave i) :=
  (avoids_sendToOpponentOf he _ _ _).bind fun _ _ => (avoids_deref he _ _).bind fun _ _ =>
    (avoids_getOpponentOf he _ _).bind fun _ _ =>
      (avoids_destroyRoom he _ _ _ _).bind fun _ _ => .ok _

theorem avoids_serveFrame (m : ClientManager) (i : ℕ) (state : State) (d : Frame) :
    Avoids e (m.serveFrame i state d) := by
  cases d with
  | ping | pong | ready | ok => exact .ok _
  | connect nick => exact avoids_requestConnect he _ _ _ _
  | move coordinates => exact avoids_requestMove he _ _ _
  | leave => exact avoids_requestLeave he _ _
  | chat msg => exact (avoids_sendToOpponentOf he _ _ _).bind fun _ _ => .ok _

theorem avoids_handleFrame (m : ClientManager) (i : ℕ) (d : Frame) :
    Avoids e (m.handleFrame i d) := by
  refine (avoids_deref he _ _).bind fun c _ => ?_
  split_ifs
  · exact avoids_serveFrame he _ _ _ _
  · exact .ok _

theorem avoids_handleFrames (m : ClientManager) (i : ℕ) (ds : List Frame) :
    Avoids e (handleFrames i m ds) := by
  induction ds generalizing m with
  | nil => exact .ok _
  | cons d ds ih =>
    refine (avoids_handleFrame he _ _ _).bind fun p _ => ?_
    dsimp only
    split_ifs
    · exact .ok _
    · exact ih _

end Faults

/-! ### Rejected frames -/

/-- Nothing but coordinates has changed. -/
structure Unmoved (m m' : ClientManager) : Prop where
  clients : m'.clients = m.clients
  sent : m'.sent = m.sent
  rooms : m'.lobby.games.map (·.position) = m.lobby.games.map (·.position)
  roomsTotal : m'.lobby.roomsTotal = m.lobby.roomsTotal

theorem Unmoved.refl (m : ClientManager) : Unmoved m m := ⟨rfl, rfl, rfl, rfl⟩

theorem requestConnect_rejected {nick : Text} {state : State} {b : ℤ}
    (h : m.requestConnect client nick state = .ok (m', b)) (hb : b ≠ 0) : m' = m := by
  obtain ⟨c, -, h₁⟩ := bind_eq_ok.1 h
  dsimp only at h₁
  split_ifs at h₁
  · cases h₁
    exact absurd rfl hb
  · cases h₁
    rfl
  · cases h₁
    exact absurd rfl hb
  · obtain ⟨m₁, -, h₂⟩ := bind_eq_ok.1 h₁
    cases h₂
    exact absurd rfl hb

/-- A rejected move stores its coordinates. -/
theorem requestMove_rejected {t : Text} {b : ℤ} (h : m.requestMove client t = .ok (m', b))
    (hb : b ≠ 0) : Unmoved m m' := by
  obtain ⟨c, r, r', moved, -, hr, hproc, hm⟩ := requestMove_cases h
  rcases hm with ⟨rfl, rfl, -⟩ | ⟨-, -, rfl⟩
  · rcases RoomHnefatafl.processMove_cases hproc with ⟨-, x₁, y₁, x₂, y₂, rfl⟩ | ⟨hmoved, -⟩
    · refine ⟨rfl, rfl, ?_, rfl⟩
      obtain ⟨hlt, rfl⟩ := List.getElem?_eq_some_iff.1 hr
      have hk : m.lobby.getRoomById c.roomId < (m.lobby.games.map (·.position)).length := by
        simpa using hlt
      have hsame := List.getElem_map RoomHnefatafl.position (h := hk)
      change (m.lobby.games.set _ _).map RoomHnefatafl.position = _
      rw [List.map_set]
      change List.set _ _ (m.lobby.games[m.lobby.getRoomById c.roomId]).position = _
      rw [← hsame, List.set_getElem_self]
    · cases hmoved
  · exact absurd rfl hb

theorem serveFrame_rejected {state : State} {d : Frame} {b : ℤ} (hd : d ≠ .ok)
    (h : m.serveFrame client state d = .ok (m', b)) (hb : b ≠ 0) : Unmoved m m' := by
  cases d with
  | ping | pong | ready =>
    cases h
    exact absurd rfl hb
  | ok => exact absurd rfl hd
  | connect nick => exact requestConnect_rejected h hb ▸ .refl m
  | move coordinates => exact requestMove_rejected h hb
  | leave =>
    obtain ⟨_, -, h₁⟩ := bind_eq_ok.1 h
    obtain ⟨_, -, h₂⟩ := bind_eq_ok.1 h₁
    obtain ⟨_, -, h₃⟩ := bind_eq_ok.1 h₂
    obtain ⟨_, -, h₄⟩ := bind_eq_ok.1 h₃
    cases h₄
    exact absurd rfl hb
  | chat msg =>
    obtain ⟨_, -, h₁⟩ := bind_eq_ok.1 h
    cases h₁
    exact absurd rfl hb

/-- **A rejected frame changes nothing but coordinates.** -/
theorem handleFrame_rejected {d : Frame} {b : ℤ} (h : m.handleFrame client d = .ok (m', b))
    (hb : b ≠ 0) : Unmoved m m' := by
  obtain ⟨c, -, h₁⟩ := bind_eq_ok.1 h
  split_ifs at h₁ with hacc
  · refine serveFrame_rejected ?_ h₁ hb
    rintro rfl
    cases hacc
  · cases h₁
    exact .refl m

/-! ### Handling the frames in order -/

/-- The first frame is accepted and the others follow, or it is rejected and the loop ends. -/
theorem handleFrames_cons_cases {d : Frame} {ds : List Frame} {b : ℤ}
    (h : handleFrames client m (d :: ds) = .ok (m', b)) :
    ∃ m₁ b₁, m.handleFrame client d = .ok (m₁, b₁) ∧
      (b₁ = 0 ∧ handleFrames client m₁ ds = .ok (m', b) ∨ b₁ ≠ 0 ∧ m' = m₁ ∧ b = -1) := by
  obtain ⟨⟨m₁, b₁⟩, hd, h₁⟩ := bind_eq_ok.1 h
  refine ⟨m₁, b₁, hd, ?_⟩
  dsimp only at h₁
  by_cases hb : b₁ = 0
  · rw [if_neg (not_not.2 hb)] at h₁
    exact Or.inl ⟨hb, h₁⟩
  · rw [if_pos hb] at h₁
    cases h₁
    exact Or.inr ⟨hb, rfl, rfl⟩

theorem handleFrames_append (ds₁ ds₂ : List Frame)
    (h : handleFrames client m ds₁ = .ok (m₁, 0)) :
    handleFrames client m (ds₁ ++ ds₂) = handleFrames client m₁ ds₂ := by
  induction ds₁ generalizing m with
  | nil =>
    cases h
    rfl
  | cons d ds₁ ih =>
    obtain ⟨m₂, b, hd, ⟨rfl, hrest⟩ | ⟨-, -, hb⟩⟩ := handleFrames_cons_cases h
    · simp only [List.cons_append, handleFrames, hd, ok_bind]
      exact ih hrest
    · cases hb

/-- The loop ends at a rejected frame. -/
theorem handleFrames_cons_rejected {d : Frame} {b : ℤ} (ds : List Frame)
    (h : m.handleFrame client d = .ok (m', b)) (hb : b ≠ 0) :
    handleFrames client m (d :: ds) = .ok (m', -1) := by
  simp only [handleFrames, h, ok_bind]
  exact if_pos hb

/-- **Handling the frames of a buffer is offering them to the server one after the other**, all of
them or up to the first rejected one. -/
theorem handleFrames_handle (s : Server) (ds : List Frame) {b : ℤ}
    (h : handleFrames client s.mngClient ds = .ok (m', b)) :
    ∃ n ≤ ds.length, (b = 0 → n = ds.length) ∧
      (ds.take n).foldlM (fun s d => Server.handle s (.frame client d)) s =
        .ok { s with mngClient := m' } := by
  induction ds generalizing s with
  | nil =>
    cases h
    exact ⟨0, le_rfl, fun _ => rfl, rfl⟩
  | cons d ds ih =>
    obtain ⟨m₁, b₁, hd, hrest⟩ := handleFrames_cons_cases h
    have hstep : Server.handle s (.frame client d) = .ok { s with mngClient := m₁ } := by
      refine Server.manage_eq_ok.2 ⟨m₁, ?_, rfl⟩
      rw [routeRequest_map_fst, hd]
      rfl
    rcases hrest with ⟨-, hrest⟩ | ⟨-, rfl, rfl⟩
    · obtain ⟨n, hn, hall, hrun⟩ := ih { s with mngClient := m₁ } hrest
      refine ⟨n + 1, Nat.succ_le_succ hn, fun hb => congrArg Nat.succ (hall hb), ?_⟩
      rw [List.take_succ_cons, List.foldlM_cons, hstep]
      exact hrun
    · refine ⟨1, Nat.succ_le_succ (Nat.zero_le _), nofun, ?_⟩
      rw [List.take_succ_cons, List.take_zero, List.foldlM_cons, hstep]
      rfl

/-! ### The pipeline -/

/-- **The decode pipeline.**  A valid buffer spells some frames, the two searches find these
frames, their keys and their values, and serving it is handling the frames in order up to the
first rejected one, which changes nothing but coordinates; no empty queue is read. -/
theorem decode_pipeline (m : ClientManager) (client : ℕ) {buffer : Text}
    (h : isValidFormat buffer = 0) :
    ∃ ds : List Frame, ds ≠ [] ∧ buffer = Frame.wire ds ∧
      parseMsg buffer = ds.map Frame.text ∧ (∀ d ∈ ds, keyValues d.text = d.request) ∧
      m.serveClient client buffer = handleFrames client m ds ∧
      m.serveClient client buffer ≠ .error .emptyQueue ∧
      ∀ ds₁ d ds₂, ds = ds₁ ++ d :: ds₂ → ∀ m₁ m₂ b,
        handleFrames client m ds₁ = .ok (m₁, 0) → m₁.handleFrame client d = .ok (m₂, b) → b ≠ 0 →
          m.serveClient client buffer = .ok (m₂, -1) ∧ Unmoved m₁ m₂ := by
  obtain ⟨ds, hne, rfl⟩ := Frame.isValidFormat_iff.1 h
  refine ⟨ds, hne, rfl, Frame.parseMsg_wire ds, fun d _ => Frame.keyValues_text d,
    serveClient_wire hne, ?_, ?_⟩
  · rw [serveClient_wire hne]
    exact avoids_handleFrames (by simp [Fault.OfLookup]) m client ds
  · rintro ds₁ d ds₂ rfl m₁ m₂ b h₁ hd hb
    refine ⟨?_, handleFrame_rejected hd hb⟩
    rw [serveClient_wire hne, handleFrames_append ds₁ (d :: ds₂) h₁]
    exact handleFrames_cons_rejected ds₂ hd hb

/-- A buffer whose second frame is not handled in any state. -/
theorem decode_pipeline_ok : ∃ ds : List Frame, ds ≠ [] ∧
    "\x7bc:alice\x7d\x7bok\x7d\x7b>\x7d".toList = Frame.wire ds ∧
      (create.createClient "10.0.0.4".toList 4).serveClient 0
        "\x7bc:alice\x7d\x7bok\x7d\x7b>\x7d".toList =
      handleFrames 0 (create.createClient "10.0.0.4".toList 4) ds := by
  have hvalid : isValidFormat "\x7bc:alice\x7d\x7bok\x7d\x7b>\x7d".toList = 0 := by
    decide +kernel
  obtain ⟨ds, hne, hwire, -, -, hserve, -⟩ :=
    decode_pipeline (create.createClient "10.0.0.4".toList 4) 0 hvalid
  exact ⟨ds, hne, hwire, hserve⟩

end ClientManager

end HnefServer
