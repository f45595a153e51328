import HnefServer.Invariant.Marks
import HnefServer.Property.Passes

/-!
# Everybody is visited once

The loop over the clients of `updateClients`, with a log of its visits.  A visit of a client ends
with the client erased, with the loop going on to the next position, or with the connection
closed, and then the same client is visited again.  Whatever the sockets deliver, a client is left
at its first visit, or closed at the first and left at the second.
-/

namespace HnefServer

open Protocol ClientManager

/-- What an iteration of the loop does with its client. -/
inductive Visit
  /-- The connection was flagged to be closed, and is. -/
  | disconnect
  /-- The client was flagged to be erased, and is. -/
  | erase
  /-- There is no socket to look at. -/
  | skip
  /-- Closed for an error on the socket. -/
  | except
  /-- Nothing was received: closed. -/
  | logout
  /-- Read and served, and closed for violating the protocol. -/
  | kick
  /-- Read and served. -/
  | serve
  /-- There is nothing to read. -/
  | idle
  deriving DecidableEq

namespace Visit

/-- The loop goes on to the next position. -/
def advances : Visit → Bool
  | skip | serve | idle => true
  | _ => false

/-- The client is erased or passed over. -/
def leaves (v : Visit) : Bool := v == erase || v.advances

/-- The connection is closed, and the client is visited again. -/
def closes (v : Visit) : Bool := !v.leaves

/-- The client is read. -/
def reads : Visit → Bool
  | logout | kick | serve => true
  | _ => false

/-- The client is served. -/
def serves : Visit → Bool
  | kick | serve => true
  | _ => false

end Visit

namespace Server

/-- One iteration of the loop, as `updateClient`, with what it does. -/
def examine (ev : Events) (s : Server) (cli : ℕ) : Except Fault (Visit × Server) := do
  let c ← s.mngClient.deref cli
  if c.flagToDisconnect then
    let s ← s.closeConnection cli
    return (.disconnect,
      { s with mngClient := s.mngClient.modify cli (·.setFlagToDisconnect false) })
  else if c.flagToErase then return (.erase, ← s.manage (s.mngClient.eraseClient cli))
  else if c.socketNum < 0 then return (.skip, s)
  else if c.socketNum ∈ ev.fds_except then return (.except, ← s.closeConnection cli)
  else if c.socketNum ∈ ev.fds_read then
    match ev.received c.socketNum with
    | .nothing => return (.logout, ← s.closeConnection cli)
    | .message buffer => do
      let (mngClient, valid) ← s.mngClient.serveClient cli buffer
      let s := { s with mngClient }
      if valid ≠ 0 then return (.kick, ← s.kick cli) else return (.serve, s)
  else return (.idle, s)

/-- The iteration of the loop is the visit, without its name. -/
theorem updateClient_eq (ev : Events) (s : Server) (cli : ℕ) :
    updateClient ev s cli =
      (examine ev s cli).map fun p => (p.2, if p.1.advances then cli + 1 else cli) := by
  unfold updateClient examine
  cases s.mngClient.deref cli with
  | error f => rfl
  | ok c =>
    simp only [ok_bind]
    split_ifs
    · cases s.closeConnection cli <;> rfl
    · cases s.manage (s.mngClient.eraseClient cli) <;> rfl
    · rfl
    · cases s.closeConnection cli <;> rfl
    · cases ev.received c.socketNum with
      | nothing =>
        dsimp only
        cases s.closeConnection cli <;> rfl
      | message buffer =>
        dsimp only
        cases s.mngClient.serveClient cli buffer with
        | error f => rfl
        | ok p =>
          simp only [ok_bind]
          split_ifs
          · cases Server.kick { s with mngClient := p.1 } cli <;> rfl
          · rfl
    · rfl

variable {ev : Events} {s s' : Server} {cli : ℕ} {v : Visit} {m : ClientManager}

/-! ### One visit -/

/-- The client at a position is closed for good, and the marks of those behind it are still
there. -/
structure ClosedAt (cs cs' : List Client) (cli : ℕ) : Prop where
  length : cs'.length = cs.length
  closed : ∃ c c', cs[cli]? = some c ∧ cs'[cli]? = some c' ∧ c'.socketNum < 0 ∧
    c'.flagToDisconnect = false ∧ (c.flagToErase = true → c'.flagToErase = true)
  behind : AllMarked (cs.drop (cli + 1)) (cs'.drop (cli + 1))

theorem drop_closeConnection (h : s.closeConnection cli = .ok s') :
    s'.mngClient.clients.drop (cli + 1) = s.mngClient.clients.drop (cli + 1) := by
  obtain ⟨c, -, ⟨-, rfl⟩ | ⟨-, m, hcs, -, rfl⟩⟩ := closeConnection_cases h
  · rfl
  · show m.clients.drop (cli + 1) = _
    rw [hcs, List.drop_modify_of_lt _ _ _ _ (Nat.lt_succ_self cli)]

/-- The flags and the descriptor of the client whose connection is closed. -/
theorem flags_closeConnection {c : Client} (h : s.closeConnection cli = .ok s')
    (hc : s.mngClient.clients[cli]? = some c) :
    ∃ c', s'.mngClient.clients[cli]? = some c' ∧ c'.socketNum < 0 ∧
      c'.flagToDisconnect = c.flagToDisconnect ∧ c'.flagToErase = c.flagToErase := by
  obtain ⟨c₁, hc₁, hcases⟩ := closeConnection_cases h
  obtain rfl : c = c₁ := Option.some.inj (hc.symm.trans hc₁)
  obtain ⟨hsock, rfl⟩ | ⟨-, m, hcs, -, rfl⟩ := hcases
  · exact ⟨c, hc, hsock, rfl, rfl⟩
  · refine ⟨disconnect c, ?_, disconnect_socketNum c, rfl, rfl⟩
    show m.clients[cli]? = _
    rw [hcs, List.getElem?_modify_eq, hc]
    rfl

/-- A connection that was not flagged to be closed is closed, perhaps after serving the client. -/
theorem closedAt_of_close {c c₁ : Client} {s₁ : Server} (h : s₁.closeConnection cli = .ok s')
    (hc : s.mngClient.clients[cli]? = some c)
    (hmark : AllMarked s.mngClient.clients s₁.mngClient.clients)
    (hc₁ : s₁.mngClient.clients[cli]? = some c₁) (hdisc : c.flagToDisconnect = false) :
    ClosedAt s.mngClient.clients s'.mngClient.clients cli := by
  obtain ⟨c', hc', hsock, hdisc', herase'⟩ := flags_closeConnection h hc₁
  obtain ⟨c₂, hc₂, hcc⟩ := forall₂_exists_right hmark hc
  obtain rfl : c₁ = c₂ := Option.some.inj (hc₁.symm.trans hc₂)
  refine ⟨(length_closeConnection h).trans hmark.length_eq.symm,
    ⟨c, c', hc, hc', hsock, ?_, ?_⟩, ?_⟩
  · rw [hdisc', hcc.disconnect, hdisc]
  · intro he
    rw [herase']
    exact hcc.erase he
  · rw [drop_closeConnection h]
    exact List.forall₂_drop (cli + 1) hmark

/-- A connection that was flagged to be closed is closed, and the flag is taken back. -/
theorem closedAt_of_flag {c : Client} {s₁ : Server} (h : s.closeConnection cli = .ok s₁)
    (hc : s.mngClient.clients[cli]? = some c) :
    ClosedAt s.mngClient.clients
      (s₁.mngClient.modify cli (·.setFlagToDisconnect false)).clients cli := by
  obtain ⟨c', hc', hsock, -, herase⟩ := flags_closeConnection h hc
  refine ⟨(List.length_modify ..).trans (length_closeConnection h),
    ⟨c, c'.setFlagToDisconnect false, hc, ?_, hsock, rfl, fun he => herase.trans he⟩, ?_⟩
  · show (s₁.mngClient.clients.modify cli _)[cli]? = _
    rw [List.getElem?_modify_eq, hc']
    rfl
  · show AllMarked _ ((s₁.mngClient.clients.modify cli _).drop (cli + 1))
    rw [List.drop_modify_of_lt _ _ _ _ (Nat.lt_succ_self cli), drop_closeConnection h]
    exact AllMarked.refl _

/-- The outcomes of a visit: the client is closed, erased or passed over. -/
theorem examine_cases (h : examine ev s cli = .ok (v, s')) :
    ∃ c, s.mngClient.clients[cli]? = some c ∧ (c.flagToDisconnect = true → v = .disconnect) ∧
      (v.closes = true ∧ ClosedAt s.mngClient.clients s'.mngClient.clients cli ∨
        v = .erase ∧ AllMarked (s.mngClient.clients.eraseIdx cli) s'.mngClient.clients ∨
        v.advances = true ∧ AllMarked s.mngClient.clients s'.mngClient.clients) ∧
      (c.flagToDisconnect = false → c.flagToErase = true → v = .erase) ∧
      (c.flagToDisconnect = false → c.socketNum < 0 → v = .erase ∨ v = .skip) := by
  obtain ⟨c, hc, h₁⟩ := bind_eq_ok.1 h
  have hc := deref_eq_ok.1 hc
  refine ⟨c, hc, ?_⟩
  by_cases hdisc : c.flagToDisconnect = true
  · rw [if_pos hdisc] at h₁
    obtain ⟨s₁, hs₁, h₂⟩ := bind_eq_ok.1 h₁
    cases h₂
    exact ⟨fun _ => rfl, Or.inl ⟨rfl, closedAt_of_flag hs₁ hc⟩, by simp [hdisc], by simp [hdisc]⟩
  rw [if_neg hdisc] at h₁
  rw [Bool.not_eq_true] at hdisc
  by_cases herase : c.flagToErase = true
  · rw [if_pos herase] at h₁
    obtain ⟨s₁, hs₁, h₂⟩ := bind_eq_ok.1 h₁
    cases h₂
    obtain ⟨m, hm, rfl⟩ := manage_eq_ok.1 hs₁
    exact ⟨by simp [hdisc], Or.inr (Or.inl ⟨rfl, AllMarked.eraseClient hm⟩), fun _ _ => rfl,
      fun _ _ => Or.inl rfl⟩
  rw [if_neg herase] at h₁
  refine ⟨by simp [hdisc], ?_, fun _ he => absurd he herase, ?_⟩
  · by_cases hsock : c.socketNum < 0
    · rw [if_pos hsock] at h₁
      cases h₁
      exact Or.inr (Or.inr ⟨rfl, AllMarked.refl _⟩)
    rw [if_neg hsock] at h₁
    by_cases hexcept : c.socketNum ∈ ev.fds_except
    · rw [if_pos hexcept] at h₁
      obtain ⟨s₁, hs₁, h₂⟩ := bind_eq_ok.1 h₁
      cases h₂
      exact Or.inl ⟨rfl, closedAt_of_close hs₁ hc (AllMarked.refl _) hc hdisc⟩
    rw [if_neg hexcept] at h₁
    by_cases hread : c.socketNum ∈ ev.fds_read
    · rw [if_pos hread] at h₁
      cases hrecv : ev.received c.socketNum with
      | nothing =>
        rw [hrecv] at h₁
        obtain ⟨s₁, hs₁, h₂⟩ := bind_eq_ok.1 h₁
        cases h₂
        exact Or.inl ⟨rfl, closedAt_of_close hs₁ hc (AllMarked.refl _) hc hdisc⟩
      | message buffer =>
        rw [hrecv] at h₁
        obtain ⟨⟨m, valid⟩, hserve, h₂⟩ := bind_eq_ok.1 h₁
        have hmark := allMarked_serveClient hserve
        dsimp only at h₂
        split_ifs at h₂
        · obtain ⟨s₁, hs₁, h₃⟩ := bind_eq_ok.1 h₂
          cases h₃
          obtain ⟨c₁, hc₁, -⟩ := forall₂_exists_right hmark hc
          have hclose : closeConnection { s with mngClient := m.sendToClient cli SC_KICK } cli =
            .ok s' := hs₁
          exact Or.inl ⟨rfl, closedAt_of_close hclose hc hmark hc₁ hdisc⟩
        · cases h₂
          exact Or.inr (Or.inr ⟨rfl, hmark⟩)
    · rw [if_neg hread] at h₁
      cases h₁
      exact Or.inr (Or.inr ⟨rfl, AllMarked.refl _⟩)
  · intro _ hsock
    rw [if_pos hsock] at h₁
    cases h₁
    exact Or.inr rfl

/-! ### Faults of a visit -/

theorem avoids_manage {e : Fault} (s : Server) {x : Except Fault ClientManager}
    (hx : Avoids e x) : Avoids e (s.manage x) := hx.bind fun _ _ => .ok _

section Faults

variable {e : Fault} (he : ¬e.OfLookup)
include he

theorem avoids_closeConnection (s : Server) (i : ℕ) : Avoids e (s.closeConnection i) := by
  refine (avoids_deref he _ _).bind fun c _ => ?_
  split_ifs
  · exact .ok _
  · refine (avoids_deref he _ _).bind fun d _ => ?_
    split_ifs
    · exact avoids_manage _ (avoids_sendToOpponentOf he _ _ _)
    · exact .ok _

theorem avoids_eraseClient (m : ClientManager) (i : ℕ) : Avoids e (m.eraseClient i) := by
  refine (avoids_deref he _ _).bind fun c _ => Avoids.bind ?_ fun _ _ => .ok _
  split_ifs
  · exact (avoids_getOpponentOf he _ _).bind fun n _ => (avoids_deref he _ _).bind fun o _ =>
      avoids_destroyRoom he _ _ _ _
  · exact .ok _

theorem avoids_serveClient (m : ClientManager) (i : ℕ) (buffer : Text) :
    Avoids e (m.serveClient i buffer) := by
  by_cases hvalid : isValidFormat buffer = 0
  · obtain ⟨ds, hne, rfl⟩ := Frame.isValidFormat_iff.1 hvalid
    rw [serveClient_wire hne]
    exact avoids_handleFrames he _ _ _
  · simp only [serveClient, if_neg hvalid, ne_eq, not_true_eq_false, if_false]
    exact .ok _

/-- In a visit, only the lookups of rooms and clients can fail. -/
theorem avoids_examine (ev : Events) (s : Server) (cli : ℕ) : Avoids e (examine ev s cli) := by
  refine (avoids_deref he _ _).bind fun c _ => ?_
  split_ifs
  · exact (avoids_closeConnection he _ _).bind fun _ _ => .ok _
  · exact (avoids_manage _ (avoids_eraseClient he _ _)).bind fun _ _ => .ok _
  · exact .ok _
  · exact (avoids_closeConnection he _ _).bind fun _ _ => .ok _
  · cases ev.received c.socketNum with
    | nothing => exact (avoids_closeConnection he _ _).bind fun _ _ => .ok _
    | message buffer =>
      refine (avoids_serveClient he _ _ _).bind fun p _ => ?_
      dsimp only
      split_ifs
      · exact (avoids_closeConnection he _ _).bind fun _ _ => .ok _
      · exact .ok _
  · exact .ok _

end Faults

end Server

/-! ### The loop with its log -/

/-- An entry of the log: a client, by its number at the start of the loop, as the visit finds it,
and what the visit does. -/
structure Entry where
  id : ℕ
  client : Client
  visit : Visit

/-- The visits of one client. -/
def history (log : List Entry) (i : ℕ) : List Entry := log.filter (·.id = i)

/-- The loop over the clients, with its log. -/
structure Sweep where
  server : Server
  /-- The position. -/
  cli : ℕ
  /-- The numbers the clients had at the start, position by position. -/
  ids : List ℕ
  log : List Entry

namespace Sweep

open Server

/-- Before the loop the number of a client is its position. -/
def start (s : Server) : Sweep := ⟨s, 0, List.range s.mngClient.clients.length, []⟩

/-- The clients of the server. -/
def clients (w : Sweep) : List Client := w.server.mngClient.clients

/-- One iteration. -/
def step (ev : Events) (w : Sweep) : Except Fault Sweep := do
  let (visit, server) ← w.server.examine ev w.cli
  return {
    server
    cli := if visit.advances then w.cli + 1 else w.cli
    ids := if visit = .erase then w.ids.eraseIdx w.cli else w.ids
    log := w.log ++ (Option.map₂ (Entry.mk · · visit) w.ids[w.cli]? w.clients[w.cli]?).toList }

/-- The loop; what a read answers may depend on the iteration. -/
def loop (ev : Events) (reads : ℕ → ℤ → Reading) : ℕ → Sweep → Except Fault Sweep
  | 0, w => .ok w
  | fuel + 1, w =>
    if w.cli < w.clients.length then do
      let w ← w.step { ev with received := reads fuel }
      loop ev reads fuel w
    else .ok w

/-- **The loop with its log is the loop over the clients.** -/
theorem loop_updateLoop (ev : Events) (fuel : ℕ) (w : Sweep) :
    (loop ev (fun _ => ev.received) fuel w).map (fun w => (w.server, w.cli)) =
      Server.updateLoop ev fuel w.server w.cli := by
  induction fuel generalizing w with
  | zero => rfl
  | succ fuel ih =>
    rw [loop, Server.updateLoop]
    by_cases hlt : w.cli < w.clients.length
    · rw [if_pos hlt, if_pos (show w.cli < w.server.mngClient.clients.length from hlt),
        Server.updateClient_eq]
      have hev : { ev with received := ev.received } = ev := rfl
      rw [hev, step]
      cases hv : w.server.examine ev w.cli with
      | error f => rfl
      | ok p =>
        simp only [ok_bind, pure_eq_ok, Except.map]
        exact ih _
    · rw [if_neg hlt, if_neg (show ¬w.cli < w.server.mngClient.clients.length from hlt)]
      rfl

/-! ### Leaving a client -/

/-- How a client is left: at its first visit, or closed at the first and left at the second. -/
def LeftOnce (c : Client) (es : List Entry) : Prop :=
  (∃ e, es = [e] ∧ e.visit.leaves = true ∧ c.flagToDisconnect = false) ∨
    ∃ e e', es = [e, e'] ∧ e.visit.closes = true ∧
      (c.flagToDisconnect = true → e.visit = .disconnect) ∧
      (e'.visit = .erase ∨ e'.visit = .skip) ∧
      (c.flagToErase = true ∨ e.client.flagToErase = true ∨ e'.client.flagToErase = true →
        e'.visit = .erase) ∧
      e'.client.socketNum < 0

/-- The first `k` of the clients `cs` were left, one after the other. -/
structure Logged (cs : List Client) (k : ℕ) (log : List Entry) : Prop where
  lt : ∀ e ∈ log, e.id < k
  ordered : (log.map (·.id)).Pairwise (· ≤ ·)
  left : ∀ i c, i < k → cs[i]? = some c → LeftOnce c (history log i)

/-- The clients `cs` from number `k` on are still to be visited, from the position on. -/
structure Rest (cs : List Client) (k : ℕ) (w : Sweep) : Prop where
  cli_le : w.cli ≤ w.clients.length
  ids : w.ids.drop w.cli = List.range' k (cs.length - k)
  marks : AllMarked (cs.drop k) (w.clients.drop w.cli)

/-- Number `k` is at the position, and those after it follow. -/
structure Front (cs : List Client) (k : ℕ) (w : Sweep) : Prop where
  lt : w.cli < w.clients.length
  id : w.ids[w.cli]? = some k
  ids : w.ids.drop (w.cli + 1) = List.range' (k + 1) (cs.length - (k + 1))
  marks : AllMarked (cs.drop (k + 1)) (w.clients.drop (w.cli + 1))

variable {cs : List Client} {k : ℕ} {w w' : Sweep} {ev : Events} {v : Visit} {s' : Server}
  {c : Client} {log : List Entry}

theorem Logged.append (h : Logged cs k log) (hk : cs[k]? = some c) {es : List Entry}
    (hes : LeftOnce c es) (hid : ∀ e ∈ es, e.id = k) : Logged cs (k + 1) (log ++ es) := by
  refine ⟨?_, ?_, ?_⟩
  · intro e he
    obtain he | he := List.mem_append.1 he
    · exact Nat.lt_succ_of_lt (h.lt e he)
    · rw [hid e he]
      exact Nat.lt_succ_self k
  · rw [List.map_append, List.pairwise_append]
    refine ⟨h.ordered, ?_, ?_⟩
    · rw [List.pairwise_map]
      refine List.pairwise_of_forall_mem_list ?_
      intro a ha b hb
      rw [hid a ha, hid b hb]
    · intro a ha b hb
      obtain ⟨e, he, rfl⟩ := List.mem_map.1 ha
      obtain ⟨f, hf, rfl⟩ := List.mem_map.1 hb
      rw [hid f hf]
      exact (h.lt e he).le
  · intro i d hi hd
    rw [history, List.filter_append]
    obtain hi | rfl := Nat.lt_succ_iff_lt_or_eq.1 hi
    · have hnone : es.filter (·.id = i) = [] := by
        rw [List.filter_eq_nil_iff]
        intro e he
        rw [hid e he]
        simpa using hi.ne'
      rw [hnone, List.append_nil]
      exact h.left i d hi hd
    · have hall : es.filter (·.id = i) = es := by
        rw [List.filter_eq_self]
        intro e he
        simpa using hid e he
      have hnone : log.filter (·.id = i) = [] := by
        rw [List.filter_eq_nil_iff]
        intro e he
        simpa using (h.lt e he).ne
      rw [hall, hnone, List.nil_append]
      obtain rfl : c = d := Option.some.inj (hk.symm.trans hd)
      exact hes

/-- The client at the position. -/
theorem Rest.front (h : Rest cs k w) (hk : k < cs.length) :
    Front cs k w ∧ ∃ c d, cs[k]? = some c ∧ w.clients[w.cli]? = some d ∧ Marked c d := by
  have hids := h.ids
  have hmarks := h.marks
  obtain ⟨n, hn⟩ : ∃ n, cs.length - k = n + 1 := ⟨cs.length - k - 1, by omega⟩
  rw [hn, List.range'_succ] at hids
  have hid : w.ids[w.cli]? = some k := by
    rw [← Nat.add_zero w.cli, ← List.getElem?_drop, hids, List.getElem?_cons_zero]
  have htail : w.ids.drop (w.cli + 1) = List.range' (k + 1) (cs.length - (k + 1)) := by
    rw [← List.drop_drop, hids, List.drop_one, List.tail_cons]
    congr 1
    omega
  rw [List.drop_eq_getElem_cons hk] at hmarks
  obtain ⟨d, ds, hcd, hrest, hdrop⟩ := List.forall₂_cons_left_iff.1 hmarks
  have hd : w.clients[w.cli]? = some d := by
    rw [← Nat.add_zero w.cli, ← List.getElem?_drop, hdrop, List.getElem?_cons_zero]
  have hds : w.clients.drop (w.cli + 1) = ds := by
    rw [← List.drop_drop, hdrop, List.drop_one, List.tail_cons]
  exact ⟨⟨(List.getElem?_eq_some_iff.1 hd).1, hid, htail, hds ▸ hrest⟩, cs[k], d,
    List.getElem?_eq_getElem hk, hd, hcd⟩

/-- What an iteration makes of a visit. -/
theorem Front.step_eq {p : Visit × Server} (h : Front cs k w) (hc : w.clients[w.cli]? = some c)
    (hexam : w.server.examine ev w.cli = .ok p) :
    w.step ev = .ok {
      server := p.2
      cli := if p.1.advances then w.cli + 1 else w.cli
      ids := if p.1 = .erase then w.ids.eraseIdx w.cli else w.ids
      log := w.log ++ [⟨k, c, p.1⟩] } := by
  rw [step, hexam, h.id, hc]
  rfl

/-- A visit that leaves the client. -/
theorem Front.leave (h : Front cs k w)
    (hout : v = .erase ∧ AllMarked (w.clients.eraseIdx w.cli) s'.mngClient.clients ∨
      v.advances = true ∧ AllMarked w.clients s'.mngClient.clients) (es : List Entry) :
    Rest cs (k + 1) {
      server := s'
      cli := if v.advances then w.cli + 1 else w.cli
      ids := if v = .erase then w.ids.eraseIdx w.cli else w.ids
      log := es } := by
  have hlt := h.lt
  have hidlt := (List.getElem?_eq_some_iff.1 h.id).1
  obtain ⟨rfl, hmark⟩ | ⟨hadv, hmark⟩ := hout
  · have hlen := hmark.length_eq
    rw [List.length_eraseIdx_of_lt hlt] at hlen
    refine ⟨?_, ?_, ?_⟩
    · show w.cli ≤ s'.mngClient.clients.length
      omega
    · show (w.ids.eraseIdx w.cli).drop w.cli = _
      rw [List.eraseIdx_eq_take_drop_succ, List.drop_left' (List.length_take_of_le hidlt.le), h.ids]
    · have hdrop := List.forall₂_drop w.cli hmark
      rw [List.eraseIdx_eq_take_drop_succ, List.drop_left' (List.length_take_of_le hlt.le)] at hdrop
      exact h.marks.trans hdrop
  · have herase : v ≠ .erase := by
      rintro rfl
      cases hadv
    rw [if_pos hadv, if_neg herase]
    refine ⟨?_, h.ids, ?_⟩
    · show w.cli + 1 ≤ s'.mngClient.clients.length
      rw [← hmark.length_eq]
      exact hlt
    · have hdrop := List.forall₂_drop (w.cli + 1) hmark
      exact AllMarked.trans h.marks hdrop

/-- After a visit that closes the client it is at the position again. -/
theorem Front.close (h : Front cs k w) (hv : v.closes = true)
    (hclosed : ClosedAt w.clients s'.mngClient.clients w.cli) (es : List Entry) :
    Front cs k {
      server := s'
      cli := if v.advances then w.cli + 1 else w.cli
      ids := if v = .erase then w.ids.eraseIdx w.cli else w.ids
      log := es } := by
  have hadv : v.advances = false := by
    cases v <;> first | rfl | cases hv
  have herase : v ≠ .erase := by
    rintro rfl
    cases hv
  rw [if_neg (by simp [hadv]), if_neg herase]
  refine ⟨?_, h.id, h.ids, AllMarked.trans h.marks hclosed.behind⟩
  show w.cli < s'.mngClient.clients.length
  rw [hclosed.length]
  exact h.lt

theorem loop_of_end {reads : ℕ → ℤ → Reading} {fuel : ℕ} (h : w.cli = w.clients.length) :
    loop ev reads fuel w = .ok w := by
  cases fuel with
  | zero => rfl
  | succ fuel => exact if_neg h.not_lt

/-- A lookup fails, or the client is visited. -/
theorem step_cases (ev : Events) (w : Sweep) :
    (∃ e : Fault, e.OfLookup ∧ w.step ev = .error e) ∨
      ∃ v s', w.server.examine ev w.cli = .ok (v, s') := by
  cases hexam : w.server.examine ev w.cli with
  | error e =>
    refine Or.inl ⟨e, ?_, by rw [step, hexam]; rfl⟩
    by_contra he
    exact avoids_examine he _ _ _ hexam
  | ok p => exact Or.inr ⟨p.1, p.2, rfl⟩

/-- **One visit** of the client at the position: it is closed, and at the position again; or it is
left, and the next one is there. -/
theorem Front.visit (h : Front cs k w) (hc : w.clients[w.cli]? = some c) (ev : Events) :
    (∃ e : Fault, e.OfLookup ∧ w.step ev = .error e) ∨
      ∃ v w', w.step ev = .ok w' ∧ w'.log = w.log ++ [⟨k, c, v⟩] ∧
        (c.flagToDisconnect = true → v = .disconnect) ∧
        (v.closes = true ∧ Front cs k w' ∧ (∃ c', w'.clients[w'.cli]? = some c' ∧
            c'.socketNum < 0 ∧ c'.flagToDisconnect = false ∧
            (c.flagToErase = true → c'.flagToErase = true)) ∨
          v.leaves = true ∧ Rest cs (k + 1) w') ∧
        (c.flagToDisconnect = false → c.flagToErase = true → v = .erase) ∧
        (c.flagToDisconnect = false → c.socketNum < 0 → v = .erase ∨ v = .skip) := by
  obtain hfault | ⟨v, s₁, hexam⟩ := step_cases ev w
  · exact Or.inl hfault
  obtain ⟨d, hd, hflagged, hout, herased, hleft⟩ := examine_cases hexam
  obtain rfl : c = d := Option.some.inj (hc.symm.trans hd)
  refine Or.inr ⟨v, _, h.step_eq hc hexam, rfl, hflagged, ?_, herased, hleft⟩
  obtain ⟨hcloses, hclosed⟩ | hout := hout
  · have hadv : v.advances = false := by
      cases v <;> first | rfl | cases hcloses
    obtain ⟨d, c', hd, hc', hsock, hdisc, herase⟩ := hclosed.closed
    obtain rfl : c = d := Option.some.inj (hc.symm.trans hd)
    refine Or.inl ⟨hcloses, h.close hcloses hclosed _, c', ?_, hsock, hdisc, herase⟩
    simpa [clients, hadv] using hc'
  · refine Or.inr ⟨?_, h.leave hout _⟩
    obtain ⟨rfl, -⟩ | ⟨hadv, -⟩ := hout
    · rfl
    · simp [Visit.leaves, hadv]

/-- From clients that are still to be visited on, the loop visits each of them and ends at the
end of the vector, unless a lookup fails; two iterations for each client are enough. -/
theorem Rest.loop {n fuel : ℕ} (h : Rest cs k w) (ev : Events)
    (reads : ℕ → ℤ → Reading) (hn : k + n = cs.length) (hlog : Logged cs k w.log)
    (hfuel : 2 * n ≤ fuel) :
    (∃ e : Fault, e.OfLookup ∧ Sweep.loop ev reads fuel w = .error e) ∨
      ∃ w', Sweep.loop ev reads fuel w = .ok w' ∧ w'.cli = w'.clients.length ∧
        Logged cs cs.length w'.log := by
  induction n generalizing k w fuel with
  | zero =>
    have hend : w.cli = w.clients.length := by
      have hlen := h.marks.length_eq
      rw [List.length_drop, List.length_drop] at hlen
      have := h.cli_le
      omega
    exact Or.inr ⟨w, loop_of_end hend, hend, hn ▸ hlog⟩
  | succ n ih =>
    obtain ⟨fuel, rfl⟩ : ∃ f, fuel = f + 2 := ⟨fuel - 2, by omega⟩
    obtain ⟨hfront, c, d, hc, hd, hmarked⟩ := h.front (by omega)
    rw [Sweep.loop, if_pos hfront.lt]
    obtain ⟨e, he, hstep⟩ | ⟨v, w₁, hstep, hlog₁, hflagged, hout, -⟩ :=
      hfront.visit hd { ev with received := reads (fuel + 1) }
    · exact Or.inl ⟨e, he, by rw [hstep]; rfl⟩
    rw [hstep, ok_bind]
    obtain ⟨hcloses, hfront', c', hc', hsock, hdisc, herase⟩ | ⟨hleaves, hrest⟩ := hout
    · -- the first visit closes the client: it is visited once more
      rw [Sweep.loop, if_pos hfront'.lt]
      obtain ⟨e, he, hstep'⟩ | ⟨v', w₂, hstep', hlog₂, -, hout', herased, hleft⟩ :=
        hfront'.visit hc' { ev with received := reads fuel }
      · exact Or.inl ⟨e, he, by rw [hstep']; rfl⟩
      rw [hstep', ok_bind]
      have hv' := hleft hdisc hsock
      obtain ⟨-, hrest⟩ := hout'.resolve_left fun hcl => by
        obtain rfl | rfl := hv' <;> cases hcl.1
      have hleftOnce : LeftOnce c [⟨k, d, v⟩, ⟨k, c', v'⟩] := by
        refine Or.inr ⟨_, _, rfl, hcloses, fun hdc => hflagged (hmarked.disconnect.trans hdc), hv',
          fun hflag => herased hdisc ?_, hsock⟩
        -- the flag stays, whenever it was set
        rcases hflag with hc | hd | hc'
        · exact herase (hmarked.erase hc)
        · exact herase hd
        · exact hc'
      have hlog' : Logged cs (k + 1) w₂.log := by
        rw [hlog₂, hlog₁, List.append_assoc]
        exact hlog.append hc hleftOnce (by simp)
      exact ih hrest (by omega) hlog' (by omega)
    · have hnot : c.flagToDisconnect = false := by
        by_contra hdc
        rw [Bool.not_eq_false] at hdc
        rw [hflagged (hmarked.disconnect.trans hdc)] at hleaves
        cases hleaves
      have hleftOnce : LeftOnce c [⟨k, d, v⟩] := Or.inl ⟨_, rfl, hleaves, hnot⟩
      have hlog' : Logged cs (k + 1) w₁.log := by
        rw [hlog₁]
        exact hlog.append hc hleftOnce (by simp)
      exact ih hrest (by omega) hlog' (by omega)

theorem Rest.start (s : Server) : Rest s.mngClient.clients 0 (start s) where
  cli_le := Nat.zero_le _
  ids := List.range_eq_range'
  marks := AllMarked.refl _

/-! ### Each client once -/

theorem LeftOnce.count_leaves {es : List Entry} (h : LeftOnce c es) :
    es.countP (·.visit.leaves) = 1 := by
  obtain ⟨e, rfl, hleaves, -⟩ | ⟨e, e', rfl, hcloses, -, hleft, -⟩ := h
  · simp [hleaves]
  · have hfirst : e.visit.leaves = false := by simpa [Visit.closes] using hcloses
    have hsecond : e'.visit.leaves = true := by
      obtain hv | hv := hleft <;> rw [hv] <;> rfl
    simp [hfirst, hsecond]

/-- The second visit of a client does not look at its socket. -/
theorem LeftOnce.count_le {es : List Entry} (h : LeftOnce c es) {p : Visit → Bool}
    (herase : p .erase = false) (hskip : p .skip = false) : es.countP (p ·.visit) ≤ 1 := by
  obtain ⟨e, rfl, -⟩ | ⟨e, e', rfl, -, -, hleft, -⟩ := h
  · exact List.countP_le_length
  · have hsecond : p e'.visit = false := by
      obtain hv | hv := hleft
      · rw [hv, herase]
      · rw [hv, hskip]
    by_cases hfirst : p e.visit = true
    · simp [hfirst, hsecond]
    · simp [hfirst, hsecond]

/-- The loop has visited everybody once: it has ended at the end of the vector; the clients of the
start were visited in their order, and each was erased or passed over exactly once and read and
served at most once; one that was flagged to be disconnected was closed first, and then erased if it
was flagged to be erased, at the start or at one of its visits. -/
structure VisitsAll (s : Server) (w : Sweep) : Prop where
  ends : w.cli = w.clients.length
  known : ∀ e ∈ w.log, e.id < s.mngClient.clients.length
  ordered : (w.log.map (·.id)).Pairwise (· ≤ ·)
  left : ∀ i < s.mngClient.clients.length, (history w.log i).countP (·.visit.leaves) = 1
  read : ∀ i < s.mngClient.clients.length, (history w.log i).countP (·.visit.reads) ≤ 1
  served : ∀ i < s.mngClient.clients.length, (history w.log i).countP (·.visit.serves) ≤ 1
  closed : ∀ i c, s.mngClient.clients[i]? = some c → c.flagToDisconnect = true →
    ∃ e e', history w.log i = [e, e'] ∧ e.visit = .disconnect ∧ e'.client.socketNum < 0 ∧
      (e'.visit = .erase ∨ e'.visit = .skip) ∧
      (c.flagToErase = true ∨ e.client.flagToErase = true ∨ e'.client.flagToErase = true →
        e'.visit = .erase)

/-- **The loop over the clients visits everybody once**, whatever the sockets deliver and whatever
the reads answer, unless a lookup of a room or a client fails.  Without its log it is the loop of
`updateClients`. -/
theorem everybody_visited_once (ev : Events) (reads : ℕ → ℤ → Reading) (s : Server) :
    ((∃ e : Fault, e.OfLookup ∧ loop ev reads s.loopFuel (start s) = .error e) ∨
      ∃ w, loop ev reads s.loopFuel (start s) = .ok w ∧ VisitsAll s w) ∧
    (loop ev (fun _ => ev.received) s.loopFuel (start s)).map (fun w => (w.server, w.cli)) =
      Server.updateLoop ev s.loopFuel s 0 := by
  refine ⟨?_, loop_updateLoop ev s.loopFuel (start s)⟩
  have hlog : Logged s.mngClient.clients 0 (start s).log :=
    ⟨by simp [start], by simp [start], fun i c hi => absurd hi (Nat.not_lt_zero i)⟩
  have hfuel : 2 * s.mngClient.clients.length ≤ s.loopFuel := by
    unfold loopFuel
    omega
  obtain hfault | ⟨w, hw, hend, hlogged⟩ :=
    (Rest.start s).loop ev reads (Nat.zero_add _) hlog hfuel
  · exact Or.inl hfault
  have hleft : ∀ i < s.mngClient.clients.length, ∃ c, LeftOnce c (history w.log i) :=
    fun i hi => ⟨_, hlogged.left i _ hi (List.getElem?_eq_getElem hi)⟩
  refine Or.inr ⟨w, hw, hend, hlogged.lt, hlogged.ordered, ?_, ?_, ?_, ?_⟩
  · intro i hi
    obtain ⟨c, hc⟩ := hleft i hi
    exact hc.count_leaves
  · intro i hi
    obtain ⟨c, hc⟩ := hleft i hi
    exact hc.count_le rfl rfl
  · intro i hi
    obtain ⟨c, hc⟩ := hleft i hi
    exact hc.count_le rfl rfl
  · intro i c hc hdisc
    obtain ⟨e, -, -, hnot⟩ | ⟨e, e', hes, -, hflag, hleave, herased, hsock⟩ :=
      hlogged.left i c (List.getElem?_eq_some_iff.1 hc).1 hc
    · rw [hdisc] at hnot
      cases hnot
    · exact ⟨e, e', hes, hflag hdisc, hsock, hleave, herased⟩

end Sweep

end HnefServer
