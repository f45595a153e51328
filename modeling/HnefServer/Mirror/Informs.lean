import HnefServer.Invariant.Requests
import HnefServer.Invariant.Turn
import HnefServer.Mirror.View
import HnefServer.Network.Sent

/-!
# The requests inform their clients

`Mirrored` says that what the connected clients believe is true.  `Informs` says of an operation
that the frames it sends keep it true.  It is proved for every request: a client whose place
changes is told so by the same operation, and everybody else is told nothing about their place.
-/

namespace HnefServer

open Protocol

/-- Where a client is, as it can tell: Waiting and Ready clients are in the lobby. -/
def State.place : State → State
  | .ready => .waiting
  | s => s

theorem place_ne_new {s : State} : s.place ≠ .new ↔ s ≠ .new := by
  cases s <;> simp [State.place]

/-- What a client believes is true. -/
def Sees (games : List RoomHnefatafl) (c : Client) : View → Prop
  | .outside => c.logical.place = .new
  | .lobby => c.logical.place = .waiting
  | .game turn board =>
    c.logical.place = (if turn then .playingOnTurn else .playingOnStand) ∧
      ∃ r ∈ games, r.roomId = c.roomId ∧ r.pf = board

/-- The belief of a client, if it is connected; and a client with a name has entered. -/
structure Reflects (games : List RoomHnefatafl) (c : Client) (v : Mirror) : Prop where
  entered : c.nick ≠ [] → c.logical ≠ .new
  sees : 0 ≤ c.socketNum → Sees games c v.view

/-- The frames for the client at a position. -/
def mailOf (i : ℕ) (log : List (ℕ × Text)) : List Text :=
  (log.filter fun p => p.1 = i).map Prod.snd

/-- Every client reads its frames. -/
def deliver (log : List (ℕ × Text)) (vs : List Mirror) : List Mirror :=
  log.foldl (fun vs p => vs.modify p.1 (·.receive p.2)) vs

section Deliver

variable {log log' : List (ℕ × Text)} {vs : List Mirror} {i j : ℕ} {msg : Text}

@[simp] theorem mailOf_nil : mailOf i [] = [] := rfl

theorem mailOf_cons_self : mailOf i ((i, msg) :: log) = msg :: mailOf i log := by simp [mailOf]

theorem mailOf_cons_ne (h : j ≠ i) : mailOf i ((j, msg) :: log) = mailOf i log := by
  simp [mailOf, h]

theorem deliver_append : deliver (log ++ log') vs = deliver log' (deliver log vs) :=
  List.foldl_append

theorem length_deliver : (deliver log vs).length = vs.length := by
  induction log generalizing vs with
  | nil => rfl
  | cons p log ih => exact ih.trans (List.length_modify ..)

theorem getElem?_deliver :
    (deliver log vs)[i]? = (vs[i]?).map fun v => v.receiveAll (mailOf i log) := by
  induction log generalizing vs with
  | nil => simp [deliver, Mirror.receiveAll]
  | cons p log ih =>
    obtain ⟨j, msg⟩ := p
    change (deliver log (vs.modify j (·.receive msg)))[i]? = _
    rw [ih, List.getElem?_modify]
    by_cases hj : j = i
    · subst hj
      cases vs[j]? <;> simp [mailOf_cons_self, Mirror.receiveAll]
    · simp [mailOf_cons_ne hj, hj]

end Deliver

namespace ClientManager

variable {m m' m'' : ClientManager} {i j k : ℕ} {c d : Client} {r : RoomHnefatafl}
  {vs : List Mirror} {msg : Text}

/-- The beliefs of all clients are true. -/
def Mirrored (m : ClientManager) (vs : List Mirror) : Prop :=
  List.Forall₂ (Reflects m.lobby.games) m.clients vs

/-- The frames of an operation keep the beliefs true. -/
def Informs (m m' : ClientManager) : Prop :=
  ∃ log, m'.sent = m.sent ++ log ∧ ∀ vs, m.Mirrored vs → m'.Mirrored (deliver log vs)

namespace Informs

theorem refl (m : ClientManager) : Informs m m := ⟨[], by simp, fun _ h => h⟩

theorem trans (h : Informs m m') (h' : Informs m' m'') : Informs m m'' := by
  obtain ⟨log, hlog, hinf⟩ := h
  obtain ⟨log', hlog', hinf'⟩ := h'
  refine ⟨log ++ log', by rw [hlog', hlog, List.append_assoc], fun vs hvs => ?_⟩
  rw [deliver_append]
  exact hinf' _ (hinf _ hvs)

end Informs

/-- The rule for one operation: what every client concludes from its frames is true. -/
theorem Mirrored.deliver {log : List (ℕ × Text)} (hvs : m.Mirrored vs)
    (hlen : m'.clients.length = m.clients.length)
    (h : ∀ x c' v, m'.clients[x]? = some c' → vs[x]? = some v → ∃ c, m.clients[x]? = some c ∧
      (Reflects m.lobby.games c v →
        Reflects m'.lobby.games c' (v.receiveAll (mailOf x log)))) :
    m'.Mirrored (HnefServer.deliver log vs) := by
  obtain ⟨hlength, hall⟩ := forall₂_iff_getElem?.1 hvs
  refine forall₂_iff_getElem?.2 ⟨by rw [length_deliver, hlen, hlength], fun x c' v' hc' hv' => ?_⟩
  rw [getElem?_deliver] at hv'
  obtain ⟨v, hv, rfl⟩ := Option.map_eq_some_iff.1 hv'
  obtain ⟨c, hc, himp⟩ := h x c' v hc' hv
  exact himp (hall x c v hc hv)

/-- The same for an operation that needs to know nothing about the beliefs. -/
theorem Informs.of_clients (log : List (ℕ × Text)) (hsent : m'.sent = m.sent ++ log)
    (hlen : m'.clients.length = m.clients.length)
    (h : ∀ x c', m'.clients[x]? = some c' → ∃ c, m.clients[x]? = some c ∧
      ∀ v, Reflects m.lobby.games c v →
        Reflects m'.lobby.games c' (v.receiveAll (mailOf x log))) : Informs m m' := by
  refine ⟨log, hsent, fun vs hvs => hvs.deliver hlen fun x c' v hc' _ => ?_⟩
  obtain ⟨c, hc, himp⟩ := h x c' hc'
  exact ⟨c, hc, himp v⟩

/-- Two clients change, and nobody else is told anything. -/
theorem Mirrored.two {f g : Client → Client} {log : List (ℕ × Text)} (hvs : m.Mirrored vs)
    (hc : m.clients[i]? = some c) (hd : m.clients[j]? = some d) (hij : i ≠ j)
    (hcs : m'.clients = (m.clients.modify i f).modify j g)
    (hothers : ∀ x e v, x ≠ i → x ≠ j → m.clients[x]? = some e → Reflects m.lobby.games e v →
      Reflects m'.lobby.games e (v.receiveAll (mailOf x log)))
    (hf : ∀ v, vs[i]? = some v → Reflects m.lobby.games c v →
      Reflects m'.lobby.games (f c) (v.receiveAll (mailOf i log)))
    (hg : ∀ v, vs[j]? = some v → Reflects m.lobby.games d v →
      Reflects m'.lobby.games (g d) (v.receiveAll (mailOf j log))) :
    m'.Mirrored (HnefServer.deliver log vs) := by
  refine hvs.deliver (by simp [hcs]) fun x c' v hc' hv => ?_
  rw [hcs, List.getElem?_modify] at hc'
  obtain ⟨e, he, rfl⟩ := Option.map_eq_some_iff.1 hc'
  by_cases hjx : j = x
  · subst hjx
    rw [if_pos rfl]
    rw [List.getElem?_modify_ne _ _ hij, hd] at he
    obtain rfl := Option.some.inj he
    exact ⟨d, hd, hg v hv⟩
  · rw [if_neg hjx]
    by_cases hix : i = x
    · subst hix
      rw [List.getElem?_modify_eq, hc] at he
      obtain rfl := Option.some.inj he
      exact ⟨c, hc, hf v hv⟩
    · rw [List.getElem?_modify_ne _ _ hix] at he
      exact ⟨e, he, hothers x e v (Ne.symm hix) (Ne.symm hjx) he⟩

/-- One client changes, and nobody else is told anything. -/
theorem Informs.one {f : Client → Client} (log : List (ℕ × Text)) (hc : m.clients[i]? = some c)
    (hcs : m'.clients = m.clients.modify i f) (hl : m'.lobby = m.lobby)
    (hsent : m'.sent = m.sent ++ log)
    (hothers : ∀ x (v : Mirror), x ≠ i → v.receiveAll (mailOf x log) = v)
    (hf : ∀ v, Reflects m.lobby.games c v →
      Reflects m.lobby.games (f c) (v.receiveAll (mailOf i log))) : Informs m m' := by
  refine ⟨log, hsent, fun vs hvs => hvs.deliver (by simp [hcs]) fun x c' v hc' _ => ?_⟩
  rw [hl]
  rw [hcs, List.getElem?_modify] at hc'
  obtain ⟨e, he, rfl⟩ := Option.map_eq_some_iff.1 hc'
  refine ⟨e, he, fun hv => ?_⟩
  by_cases hix : i = x
  · subst hix
    obtain rfl : c = e := Option.some.inj (hc.symm.trans he)
    rw [if_pos rfl]
    exact hf v hv
  · rw [if_neg hix, hothers x v (Ne.symm hix)]
    exact hv

end ClientManager

/-! ### Clients that stay where they are -/

/-- A client that stays where it is. -/
structure Stays (c c' : Client) : Prop where
  place : c'.logical.place = c.logical.place
  room : c'.roomId = c.roomId
  nick : c'.nick ≠ [] → c.nick ≠ []
  sock : 0 ≤ c'.socketNum → 0 ≤ c.socketNum

theorem Stays.refl (c : Client) : Stays c c := ⟨rfl, rfl, fun h => h, fun h => h⟩

/-- The room of a client, if it has one, is kept. -/
def RoomKept (games games' : List RoomHnefatafl) (c : Client) : Prop :=
  ∀ r ∈ games, r.roomId = c.roomId → ∃ r' ∈ games', r'.roomId = r.roomId ∧ r'.pf = r.pf

theorem RoomKept.refl (games : List RoomHnefatafl) (c : Client) : RoomKept games games c :=
  fun r hr _ => ⟨r, hr, rfl, rfl⟩

theorem Stays.reflects {games games' : List RoomHnefatafl} {c c' : Client} (h : Stays c c')
    (hroom : 0 ≤ c'.socketNum → RoomKept games games' c) {v : Mirror} (hv : Reflects games c v) :
    Reflects games' c' v := by
  refine ⟨fun hn => ?_, fun hs => ?_⟩
  · rw [← place_ne_new, h.place, place_ne_new]
    exact hv.entered (h.nick hn)
  · have hsees := hv.sees (h.sock hs)
    cases hview : v.view with
    | outside | lobby =>
      rw [hview] at hsees
      exact h.place.trans hsees
    | game turn board =>
      rw [hview] at hsees
      obtain ⟨hplace, r, hr, hid, hpf⟩ := hsees
      obtain ⟨r', hr', hid', hpf'⟩ := hroom hs r hr hid
      exact ⟨h.place.trans hplace, r', hr', by rw [hid', hid, h.room], hpf'.trans hpf⟩

/-- A frame that says nothing about the place of its receiver. -/
theorem receive_other {msg : Text} {v : Mirror} (h : News.read msg = .other) :
    v.receive msg = v := by
  rw [Mirror.receive, h]

theorem receiveAll_other {msgs : List Text} {v : Mirror}
    (h : ∀ msg ∈ msgs, News.read msg = .other) : v.receiveAll msgs = v := by
  induction msgs with
  | nil => rfl
  | cons msg msgs ih =>
    obtain ⟨hmsg, hmsgs⟩ := List.forall_mem_cons.1 h
    change (v.receive msg).receiveAll msgs = v
    rw [receive_other hmsg, ih hmsgs]

namespace ClientManager

variable {m m' : ClientManager} {i : ℕ} {c : Client} {msg : Text}

/-- One client changes, but stays where it is, and nothing is sent. -/
theorem Informs.client {f : Client → Client} (hcs : m'.clients = m.clients.modify i f)
    (hl : m'.lobby = m.lobby) (hsent : m'.sent = m.sent)
    (hf : ∀ c, m.clients[i]? = some c → Stays c (f c)) : Informs m m' := by
  cases hc : m.clients[i]? with
  | none =>
    refine ⟨[], by simp [hsent], fun vs hvs => ?_⟩
    have hsame : m'.clients = m.clients := by
      rw [hcs, List.modify_eq_self (List.getElem?_eq_none_iff.1 hc)]
    rw [Mirrored, hl, hsame]
    exact hvs
  | some c =>
    exact .one [] hc hcs hl (by simp [hsent]) (fun _ _ _ => rfl) fun v hv =>
      (hf c hc).reflects (fun _ => .refl _ c) hv

/-- Everybody stays where they are, and the frames that are sent say nothing. -/
theorem Informs.quiet (h : Sends (fun p => News.read p.2 = .other) m m')
    (hl : m'.lobby = m.lobby) (hcs : List.Forall₂ Stays m.clients m'.clients) :
    Informs m m' := by
  obtain ⟨log, hsent, hlog⟩ := h
  refine .of_clients log hsent hcs.length_eq.symm fun x c' hc' => ?_
  obtain ⟨c, hc, hstay⟩ := forall₂_exists_left hcs hc'
  refine ⟨c, hc, fun v hv => ?_⟩
  rw [hl, receiveAll_other fun msg hmsg => ?_]
  · exact hstay.reflects (fun _ => .refl _ c) hv
  · obtain ⟨p, hp, rfl⟩ := List.mem_map.1 hmsg
    exact hlog p (List.mem_of_mem_filter hp)

theorem Informs.tell (h : News.read msg = .other) : Informs m (m.sendToClient i msg) :=
  .quiet (.send h) rfl (List.forall₂_same.2 fun c _ => .refl c)

theorem Informs.tellOpponent (hmsg : News.read msg = .other)
    (h : m.sendToOpponentOf i msg = .ok m') : Informs m m' := by
  obtain ⟨-, -, -, -, rfl | rfl⟩ := sendToOpponentOf_cases h
  · exact .refl _
  · exact .tell hmsg

end ClientManager

end HnefServer
