import HnefServer.Data.Pointwise
import HnefServer.Game.Move
import HnefServer.Invariant.Update

/-!
# What the requests keep

Every request but a connect request keeps the nick, the address and the descriptor of every
client, and makes no client Pinged or Lost.  Under `strict` it also keeps who is Disconnected;
the only request that does not do so by itself is a move, which is why `Kept.requestMove` asks for
the player who stands by after it.
-/

namespace HnefServer

open Protocol ClientManager

/-- What is kept of the client `c`. -/
structure Kept (strict : Bool) (c c' : Client) : Prop where
  nick : c'.nick = c.nick
  address : c'.ipAddress = c.ipAddress
  sock : c'.socketNum = c.socketNum
  ladder : c'.state = .pinged ∨ c'.state = .lost → c'.state = c.state
  gone : strict = true → (c'.state = .disconnected ↔ c.state = .disconnected)

/-- Something is kept of every client. -/
abbrev AllKept (strict : Bool) : List Client → List Client → Prop := List.Forall₂ (Kept strict)

variable {strict : Bool} {m m' : ClientManager} {cs cs' cs'' : List Client} {i j : ℕ}
  {c c' c'' d : Client} {f : Client → Client} {s : State}

namespace Kept

theorem refl (c : Client) : Kept strict c c := ⟨rfl, rfl, rfl, fun _ => rfl, fun _ => Iff.rfl⟩

theorem trans (h : Kept strict c c') (h' : Kept strict c' c'') : Kept strict c c'' where
  nick := h'.nick.trans h.nick
  address := h'.address.trans h.address
  sock := h'.sock.trans h.sock
  ladder := fun hs => by
    have hstate := h'.ladder hs
    rw [hstate] at hs ⊢
    exact h.ladder hs
  gone := fun hstrict => (h'.gone hstrict).trans (h.gone hstrict)

theorem weaken (h : Kept true c c') : Kept strict c c' :=
  ⟨h.nick, h.address, h.sock, h.ladder, fun _ => h.gone rfl⟩

/-- A change that keeps the state. -/
theorem of_state (hn : c'.nick = c.nick) (ha : c'.ipAddress = c.ipAddress)
    (hs : c'.socketNum = c.socketNum) (hstate : c'.state = c.state) : Kept strict c c' :=
  ⟨hn, ha, hs, fun _ => hstate, fun _ => by rw [hstate]⟩

theorem setState (hs : s.inaccessible = false) (hc : strict = true → c.state ≠ .disconnected) :
    Kept strict c (c.setState s) := by
  refine ⟨rfl, rfl, rfl, fun h => ?_, fun hstrict => ⟨fun h => ?_, fun h => ?_⟩⟩
  · have h : s = .pinged ∨ s = .lost := h
    rcases h with rfl | rfl <;> cases hs
  · have h : s = .disconnected := h
    subst h
    cases hs
  · exact absurd h (hc hstrict)

/-- An inaccessible client is changed behind its state, an accessible one in it. -/
theorem ite {s₀ : State} {t : State} (h : s₀.inaccessible = c.state.inaccessible)
    (ht : t.inaccessible = false) :
    Kept strict c (if s₀.inaccessible then c.setStateLast t else c.setState t) := by
  cases hi : c.state.inaccessible with
  | true =>
    rw [if_pos (h.trans hi)]
    exact of_state rfl rfl rfl rfl
  | false =>
    rw [if_neg (by simp [h, hi])]
    refine setState ht fun _ hd => ?_
    simp [hd, State.inaccessible] at hi

theorem toWaiting (h : s.inaccessible = c.state.inaccessible) :
    Kept strict c (toWaiting s c) := ite h rfl

theorem handOver (h : s.inaccessible = c.state.inaccessible) : Kept strict c (handOver s c) :=
  ite h rfl

end Kept

/-- A player that goes to the lobby stays accessible or inaccessible. -/
theorem toWaiting_inaccessible :
    (toWaiting c.state c).state.inaccessible = c.state.inaccessible := by
  unfold toWaiting
  split_ifs with h
  · rfl
  · rw [Bool.not_eq_true] at h
    rw [h]
    rfl

theorem handOver_disconnected :
    (handOver c.state c).state = .disconnected ↔ c.state = .disconnected := by
  have hkept : Kept true c (handOver c.state c) := .handOver rfl
  exact hkept.gone rfl

namespace AllKept

theorem refl (cs : List Client) : AllKept strict cs cs :=
  List.forall₂_same.2 fun c _ => Kept.refl c

theorem trans (h : AllKept strict cs cs') (h' : AllKept strict cs' cs'') :
    AllKept strict cs cs'' :=
  forall₂_trans h h' fun _ _ _ => Kept.trans

theorem modify (hf : ∀ c, cs[i]? = some c → Kept strict c (f c)) :
    AllKept strict cs (cs.modify i f) := forall₂_modify Kept.refl hf

theorem setRoomId (id : ℕ) : AllKept strict cs (cs.modify i (·.setRoomId id)) :=
  modify fun _ _ => .of_state rfl rfl rfl rfl

theorem freeClients {a b : Client} (ha : cs[i]? = some a) (hb : cs[j]? = some b) :
    AllKept strict cs (freeClients cs i j a b) := by
  have hfirst : AllKept strict cs (cs.modify i (ClientManager.toWaiting a.state)) :=
    AllKept.modify fun c hc => .toWaiting (by rw [Option.some.inj (ha.symm.trans hc)])
  have hsecond : AllKept strict (cs.modify i (ClientManager.toWaiting a.state))
      ((cs.modify i (ClientManager.toWaiting a.state)).modify j
        (ClientManager.toWaiting b.state)) := by
    refine AllKept.modify fun c hc => .toWaiting ?_
    rw [List.getElem?_modify] at hc
    obtain ⟨e, he, rfl⟩ := Option.map_eq_some_iff.1 hc
    obtain rfl : b = e := Option.some.inj (hb.symm.trans he)
    split_ifs with hij
    · -- both are the same client
      subst hij
      obtain rfl : a = b := Option.some.inj (ha.symm.trans hb)
      exact toWaiting_inaccessible.symm
    · rfl
  exact ((hfirst.trans hsecond).trans (setRoomId 0)).trans (setRoomId 0)

theorem destroyRoom {id : ℕ} (h : m.destroyRoom id i j = .ok m') :
    AllKept strict m.clients m'.clients := by
  obtain ⟨a, b, ha, hb, hcs, -⟩ := destroyRoom_cases h
  rw [hcs]
  exact freeClients ha hb

/-! ### Requests -/

/-- The turn is handed over, by a player who is there. -/
theorem handedOver (hc : m.clients[i]? = some c)
    (hj : strict = true → ∀ d, m.clients[j]? = some d → d.state ≠ .disconnected) {t : Text} :
    AllKept strict m.clients (m.handedOver i j c.state t).clients := by
  have hfirst : AllKept strict m.clients (m.clients.modify i (handOver c.state)) :=
    AllKept.modify fun e he => .handOver (by rw [Option.some.inj (hc.symm.trans he)])
  refine hfirst.trans (AllKept.modify fun e he => .setState rfl fun hstrict => ?_)
  rw [List.getElem?_modify] at he
  obtain ⟨d, hd, rfl⟩ := Option.map_eq_some_iff.1 he
  split_ifs with hij
  · subst hij
    obtain rfl : c = d := Option.some.inj (hc.symm.trans hd)
    exact fun h => hj hstrict c hd (handOver_disconnected.1 h)
  · exact hj hstrict d hd

theorem requestMove {t : Text} {b : ℤ} (hturn : strict = true → ∀ c, m.clients[i]? = some c →
    ∀ r r', m.lobby.games[m.lobby.getRoomById c.roomId]? = some r →
      r.processMove t = .ok (r', true) → ∀ d, m.clients[m.findClientByNick r.onTurn]? = some d →
        d.state ≠ .disconnected) (h : m.requestMove i t = .ok (m', b)) :
    AllKept strict m.clients m'.clients := by
  obtain ⟨c, k, r, r', hc, rfl, hr, -, ⟨-, -, -, rfl⟩ | ⟨hproc, -, -, a, d, ha, -, hover⟩⟩ :=
    requestMove_outcome h
  · exact refl _
  have hpassed : AllKept strict m.clients ((m.putRoom (m.lobby.getRoomById c.roomId)
      r').handedOver (m.findClientByNick r.onStand) (m.findClientByNick r.onTurn) a.state
        t).clients :=
    handedOver (m := m.putRoom _ r') ha fun hstrict d hd => hturn hstrict c hc r r' hr hproc d hd
  rcases hover with ⟨-, rfl⟩ | ⟨-, hdestroy⟩
  · exact hpassed
  · have hfreed : AllKept strict _ m'.clients := destroyRoom hdestroy
    rw [clients_sendToClient, clients_sendToClient] at hfreed
    exact hpassed.trans hfreed

theorem requestLeave {b : ℤ} (h : m.requestLeave i = .ok (m', b)) :
    AllKept strict m.clients m'.clients := by
  obtain ⟨c, n, m₁, -, -, hsend, hdestroy⟩ := requestLeave_cases h
  have hsame : m₁.clients = m.clients := (sendToOpponentOf_same hsend).1
  exact hsame ▸ destroyRoom hdestroy

theorem serveFrame {r : Frame} (hr : ∀ n, r ≠ .connect n) (hc : m.clients[i]? = some c)
    (hsound : c.Sound) (hthere : c.state ≠ .disconnected)
    (hturn : ∀ t, r = .move t → strict = true → ∀ r r',
      m.lobby.games[m.lobby.getRoomById c.roomId]? = some r →
        r.processMove t.text = .ok (r', true) →
          ∀ d, m.clients[m.findClientByNick r.onTurn]? = some d → d.state ≠ .disconnected)
    {b : ℤ} (h : m.serveFrame i c.state r = .ok (m', b)) : AllKept strict m.clients m'.clients := by
  have hset : ∀ f : Client → Client, Kept strict c (f c) →
      AllKept strict m.clients (m.clients.modify i f) := by
    intro f hf
    refine AllKept.modify fun e he => ?_
    rwa [← Option.some.inj (hc.symm.trans he)]
  have hrestore : Kept strict c (c.setState c.stateLast) := .setState hsound.last fun _ => hthere
  cases r with
  | ping =>
    cases h
    split_ifs
    · exact hset (fun c => c.setState c.stateLast) hrestore
    · exact refl _
  | pong =>
    cases h
    exact hset (fun c => c.setState c.stateLast) hrestore
  | connect n => exact absurd rfl (hr n)
  | ready =>
    cases h
    exact hset (·.setState .ready) (.setState rfl fun _ => hthere)
  | move t =>
    refine requestMove (fun hstrict e he => ?_) h
    obtain rfl : c = e := Option.some.inj (hc.symm.trans he)
    exact hturn t rfl hstrict
  | leave => exact requestLeave h
  | chat msg =>
    obtain ⟨m₁, hsend, h₁⟩ := bind_eq_ok.1 h
    cases h₁
    rw [(sendToOpponentOf_same hsend).1]
    exact refl _
  | ok =>
    cases h
    exact refl _

/-! ### Pairing and erasing -/

/-- Two clients that are there start to play. -/
theorem paired (h : m.Paired m' i j c d) : AllKept strict m.clients m'.clients := by
  have hseat : ∀ {n : ℕ} {e : Client} (id : ℕ) {st : State}, m.clients[n]? = some e →
      e.state = .ready → st.inaccessible = false → ∀ a, m.clients[n]? = some a →
        Kept strict a (seat id st a) := by
    intro n e id st he hs hst a ha
    obtain rfl : e = a := Option.some.inj (he.symm.trans ha)
    have hroom : Kept strict e (e.setRoomId id) := .of_state rfl rfl rfl rfl
    exact hroom.trans (.setState hst fun _ => by simp [Client.setRoomId, hs])
  rw [h.clients]
  refine (AllKept.modify (hseat _ h.fst h.fstReady rfl)).trans (AllKept.modify fun a ha => ?_)
  rw [List.getElem?_modify_ne _ _ h.lt.ne] at ha
  exact hseat _ h.snd h.sndReady rfl a ha

theorem pairLoop {fuel : ℕ} (h : pairLoop fuel m i = .ok m') :
    AllKept strict m.clients m'.clients := by
  have hpairs := pairs_of_pairLoop h
  clear h
  induction hpairs with
  | refl => exact refl _
  | tail _ hp ih =>
    obtain ⟨i, j, c, d, hp⟩ := hp
    exact ih.trans (paired hp)

/-- The clients other than the erased one. -/
theorem eraseClient (h : m.eraseClient i = .ok m') :
    AllKept strict (m.clients.eraseIdx i) m'.clients := by
  obtain ⟨c, -, ⟨-, rfl⟩ | ⟨-, n, m₁, m₂, -, hcs, -, hdestroy, rfl⟩⟩ := eraseClient_cases h
  · exact refl _
  · have hfree : AllKept strict m₁.clients m₂.clients := destroyRoom hdestroy
    rw [hcs] at hfree
    exact forall₂_eraseIdx hfree i

end AllKept

/-! ### Descriptors -/

/-- Two lists of clients have the same descriptors. -/
abbrev SameSocks : List Client → List Client → Prop :=
  List.Forall₂ fun c c' => c'.socketNum = c.socketNum

theorem AllKept.sameSocks {cs cs' : List Client} (h : AllKept false cs cs') : SameSocks cs cs' :=
  h.imp fun _ _ hc => hc.sock

theorem SameSocks.modify {cs : List Client} (f : Client → Client)
    (hf : ∀ c, (f c).socketNum = c.socketNum) : SameSocks cs (cs.modify i f) :=
  forall₂_modify (R := fun c c' => c'.socketNum = c.socketNum) (fun _ => rfl) fun c _ => hf c

theorem SameSocks.refl (cs : List Client) : SameSocks cs cs := List.forall₂_same.2 fun _ _ => rfl

end HnefServer
