import HnefServer.Invariant.Kept
import HnefServer.Property.Decode

/-!
# What serving leaves of the marks of a client

The loop over the clients looks at the descriptor and the two flags of a client.  Serving a client
and erasing one keep the descriptors and the flag to disconnect of all others, and never take back
a flag to erase.
-/

namespace HnefServer

open Protocol ClientManager

/-- The marks of `c` are still there. -/
structure Marked (c c' : Client) : Prop where
  sock : c'.socketNum = c.socketNum
  disconnect : c'.flagToDisconnect = c.flagToDisconnect
  erase : c.flagToErase = true → c'.flagToErase = true

/-- The marks of every client are still there. -/
abbrev AllMarked : List Client → List Client → Prop := List.Forall₂ Marked

variable {m m' : ClientManager} {cs cs' cs'' : List Client} {i j : ℕ} {c c' c'' : Client}

namespace Marked

theorem refl (c : Client) : Marked c c := ⟨rfl, rfl, fun h => h⟩

theorem trans (h : Marked c c') (h' : Marked c' c'') : Marked c c'' :=
  ⟨h'.sock.trans h.sock, h'.disconnect.trans h.disconnect, fun he => h'.erase (h.erase he)⟩

theorem toWaiting (s : State) (c : Client) : Marked c (toWaiting s c) := by
  unfold ClientManager.toWaiting
  split_ifs
  · exact ⟨rfl, rfl, fun h => h⟩
  · exact ⟨rfl, rfl, fun h => h⟩

theorem handOver (s : State) (c : Client) : Marked c (handOver s c) := by
  unfold ClientManager.handOver
  split_ifs
  · exact ⟨rfl, rfl, fun h => h⟩
  · exact ⟨rfl, rfl, fun h => h⟩

theorem setRoomId (id : ℕ) (c : Client) : Marked c (c.setRoomId id) := ⟨rfl, rfl, fun h => h⟩

theorem setState (s : State) (c : Client) : Marked c (c.setState s) := ⟨rfl, rfl, fun h => h⟩

theorem takeOver (nick : Text) (d c : Client) : Marked c (takeOver nick d c) :=
  ⟨rfl, rfl, fun h => h⟩

theorem enter (nick : Text) (c : Client) : Marked c (enter nick c) := ⟨rfl, rfl, fun h => h⟩

theorem expire (c : Client) : Marked c (expire c) := ⟨rfl, rfl, fun _ => rfl⟩

end Marked

namespace AllMarked

theorem refl (cs : List Client) : AllMarked cs cs := List.forall₂_same.2 fun c _ => Marked.refl c

theorem trans (h : AllMarked cs cs') (h' : AllMarked cs' cs'') : AllMarked cs cs'' :=
  forall₂_trans h h' fun _ _ _ => Marked.trans

theorem sameSocks (h : AllMarked cs cs') : SameSocks cs cs' := h.imp fun _ _ hc => hc.sock

theorem modify {f : Client → Client} (hf : ∀ c, Marked c (f c)) (cs : List Client) (i : ℕ) :
    AllMarked cs (cs.modify i f) := forall₂_modify Marked.refl fun c _ => hf c

theorem freeClients (cs : List Client) (i j : ℕ) (a b : Client) :
    AllMarked cs (freeClients cs i j a b) :=
  (((modify (.toWaiting a.state) cs i).trans (modify (.toWaiting b.state) _ j)).trans
    (modify (.setRoomId 0) _ i)).trans (modify (.setRoomId 0) _ j)

theorem destroyRoom {id : ℕ} (h : m.destroyRoom id i j = .ok m') :
    AllMarked m.clients m'.clients := by
  obtain ⟨a, b, -, -, hcs, -⟩ := destroyRoom_cases h
  rw [hcs]
  exact freeClients m.clients i j a b

theorem handedOver (m : ClientManager) (i j : ℕ) (s : State) (t : Text) :
    AllMarked m.clients (m.handedOver i j s t).clients :=
  AllMarked.trans (modify (.handOver s) m.clients i) (modify (.setState .playingOnStand) _ j)

theorem requestMove {t : Text} {b : ℤ} (h : m.requestMove i t = .ok (m', b)) :
    AllMarked m.clients m'.clients := by
  obtain ⟨c, k, r, r', -, -, -, -, ⟨-, -, -, rfl⟩ | ⟨-, -, -, a, d, -, -, hover⟩⟩ :=
    requestMove_outcome h
  · exact refl _
  have hpassed := handedOver (m.putRoom k r') (m.findClientByNick r.onStand)
    (m.findClientByNick r.onTurn) a.state t
  obtain ⟨-, rfl⟩ | ⟨-, hdestroy⟩ := hover
  · exact hpassed
  · have hfreed : AllMarked _ m'.clients := destroyRoom hdestroy
    rw [clients_sendToClient, clients_sendToClient] at hfreed
    exact hpassed.trans hfreed

theorem requestLeave {b : ℤ} (h : m.requestLeave i = .ok (m', b)) :
    AllMarked m.clients m'.clients := by
  obtain ⟨c, n, m₁, -, -, hsend, hdestroy⟩ := requestLeave_cases h
  have hsame : m₁.clients = m.clients := (sendToOpponentOf_same hsend).1
  exact hsame ▸ destroyRoom hdestroy

theorem requestConnect {nick : Text} {state : State} {b : ℤ}
    (h : m.requestConnect i nick state = .ok (m', b)) : AllMarked m.clients m'.clients := by
  obtain ⟨c, -, ⟨-, ⟨-, -, rfl⟩ | ⟨rfl, -⟩⟩ | ⟨-, rfl⟩ | ⟨d, -, -, -, hrec⟩⟩ :=
    requestConnect_cases h
  · exact modify (.enter nick) m.clients i
  · exact refl _
  · exact refl _
  · obtain ⟨e, -, ⟨-, rfl⟩ | ⟨-, hrep⟩ | ⟨-, hrep⟩⟩ := handleReconnection_cases hrec
    · exact refl _
    · rw [(reportReconnection_same hrep).1]
      exact modify (fun c => .setState c.stateLast c) m.clients i
    · rw [(reportReconnection_same hrep).1]
      exact AllMarked.trans (modify (.takeOver nick e) m.clients i) (modify .expire _ _)

theorem serveFrame {st : State} {d : Frame} {b : ℤ} (h : m.serveFrame i st d = .ok (m', b)) :
    AllMarked m.clients m'.clients := by
  cases d with
  | ping =>
    cases h
    split_ifs
    · exact modify (fun c => .setState c.stateLast c) m.clients i
    · exact refl _
  | pong =>
    cases h
    exact modify (fun c => .setState c.stateLast c) m.clients i
  | ready =>
    cases h
    exact modify (.setState .ready) m.clients i
  | connect n => exact requestConnect h
  | move t => exact requestMove h
  | leave => exact requestLeave h
  | chat msg =>
    obtain ⟨m₁, hsend, h₁⟩ := bind_eq_ok.1 h
    cases h₁
    rw [(sendToOpponentOf_same hsend).1]
    exact refl _
  | ok =>
    cases h
    exact refl _

theorem handleFrame {d : Frame} {b : ℤ} (h : m.handleFrame i d = .ok (m', b)) :
    AllMarked m.clients m'.clients := by
  obtain ⟨c, -, h₁⟩ := bind_eq_ok.1 h
  split_ifs at h₁
  · exact serveFrame h₁
  · cases h₁
    exact refl _

theorem handleFrames {ds : List Frame} {b : ℤ} (h : handleFrames i m ds = .ok (m', b)) :
    AllMarked m.clients m'.clients := by
  induction ds generalizing m with
  | nil =>
    cases h
    exact refl _
  | cons d ds ih =>
    obtain ⟨m₁, b₁, hd, ⟨-, hrest⟩ | ⟨-, rfl, -⟩⟩ := handleFrames_cons_cases h
    · exact (handleFrame hd).trans (ih hrest)
    · exact handleFrame hd

/-- The clients other than the erased one. -/
theorem eraseClient (h : m.eraseClient i = .ok m') :
    AllMarked (m.clients.eraseIdx i) m'.clients := by
  obtain ⟨c, -, ⟨-, rfl⟩ | ⟨-, n, m₁, m₂, -, hcs, -, hdestroy, rfl⟩⟩ := eraseClient_cases h
  · exact refl _
  · have hfree : AllMarked m₁.clients m₂.clients := destroyRoom hdestroy
    rw [hcs] at hfree
    exact forall₂_eraseIdx hfree i

end AllMarked

end HnefServer
