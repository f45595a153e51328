import HnefServer.Invariant.Marks
import HnefServer.Property.Streams

/-!
# The books of the server

The client manager counts the connections that were opened and closed, and the reconnections.  No
lookup, no game and no erasure touches the counts (`Booked`), so that in every run they tell how
many connections are watched, and how many clients were told that they are back (`books_balance`).
-/

namespace HnefServer

open Protocol ClientManager

/-- The message tells a client that it is back. -/
def isBack (p : ℕ × Text) : Bool := SC_RESP_RECN.isPrefixOf p.2

/-! ### Requests -/

namespace ClientManager

variable {m m' m'' : ClientManager} {i j : ℕ} {msg : Text}

/-- Meanwhile every reconnection that was counted was told to a client, and no other message says
that. -/
def TellsBack (m m' : ClientManager) : Prop := ∃ log, m'.sent = m.sent ++ log ∧
  m'.cli_reconnected = m.cli_reconnected + log.countP isBack

namespace TellsBack

theorem refl (m : ClientManager) : TellsBack m m := ⟨[], by simp, by simp⟩

theorem trans (h : TellsBack m m') (h' : TellsBack m' m'') : TellsBack m m'' := by
  obtain ⟨log, hlog, hcount⟩ := h
  obtain ⟨log', hlog', hcount'⟩ := h'
  refine ⟨log ++ log', by rw [hlog', hlog, List.append_assoc], ?_⟩
  rw [hcount', hcount, List.countP_append, Nat.add_assoc]

end TellsBack

/-- From `m` to `m'` no connection is opened or closed. -/
structure Booked (m m' : ClientManager) : Prop where
  connected : m'.cli_connected = m.cli_connected
  disconnected : m'.cli_disconnected = m.cli_disconnected
  told : TellsBack m m'

namespace Booked

theorem refl (m : ClientManager) : Booked m m := ⟨rfl, rfl, .refl m⟩

theorem trans (h : Booked m m') (h' : Booked m' m'') : Booked m m'' :=
  ⟨h'.connected.trans h.connected, h'.disconnected.trans h.disconnected, h.told.trans h'.told⟩

/-- A message that does not say so. -/
theorem send (h : isBack (i, msg) = false) : Booked m (m.sendToClient i msg) where
  connected := rfl
  disconnected := rfl
  told := ⟨[(i, msg)], rfl, by simp [h, sendToClient]⟩

theorem modify (f : Client → Client) : Booked m (m.modify i f) := ⟨rfl, rfl, [], by simp [
  ClientManager.modify], by simp [ClientManager.modify]⟩

theorem putRoom (k : ℕ) (r : RoomHnefatafl) : Booked m (m.putRoom k r) :=
  ⟨rfl, rfl, [], by simp [ClientManager.putRoom], by simp [ClientManager.putRoom]⟩

theorem sendToOpponentOf (hmsg : ∀ j, isBack (j, msg) = false)
    (h : m.sendToOpponentOf i msg = .ok m') : Booked m m' := by
  obtain ⟨-, -, -, -, rfl | rfl⟩ := sendToOpponentOf_cases h
  · exact refl _
  · exact send (hmsg _)

theorem destroyRoom {id : ℕ} (h : m.destroyRoom id i j = .ok m') : Booked m m' := by
  obtain ⟨a, -, h₁⟩ := bind_eq_ok.1 h
  obtain ⟨b, -, h₂⟩ := bind_eq_ok.1 h₁
  obtain ⟨l, -, h₃⟩ := bind_eq_ok.1 h₂
  cases h₃
  have hlobby : ∀ m : ClientManager, Booked m { m with lobby := l } := fun m =>
    ⟨rfl, rfl, [], by simp, by simp⟩
  exact ((((modify _).trans (modify _)).trans (hlobby _)).trans (modify _)).trans (modify _)

theorem handedOver (st : State) (t : Text) : Booked m (m.handedOver i j st t) :=
  (((modify _).trans (modify _)).trans (send rfl)).trans (send rfl)

theorem requestMove {t : Text} {b : ℤ} (h : m.requestMove i t = .ok (m', b)) : Booked m m' := by
  obtain ⟨c, k, r, r', -, -, -, -, ⟨-, -, -, rfl⟩ | ⟨-, -, -, a, d, -, -, hover⟩⟩ :=
    requestMove_outcome h
  · exact putRoom k r'
  have hmoved := (putRoom (m := m) k r').trans (handedOver (i := m.findClientByNick r.onStand)
    (j := m.findClientByNick r.onTurn) a.state t)
  rcases hover with ⟨-, rfl⟩ | ⟨-, hdestroy⟩
  · exact hmoved
  · exact hmoved.trans (((send rfl).trans (send rfl)).trans (destroyRoom hdestroy))

theorem requestLeave {b : ℤ} (h : m.requestLeave i = .ok (m', b)) : Booked m m' := by
  obtain ⟨c, n, m₁, -, -, hsend, hdestroy⟩ := requestLeave_cases h
  have hleave : Booked m (m.sendToClient i SC_RESP_LEAVE) := send rfl
  exact (hleave.trans (sendToOpponentOf (fun _ => rfl) hsend)).trans (destroyRoom hdestroy)

theorem requestChat {t : Text} {b : ℤ} (h : m.requestChat i t = .ok (m', b)) : Booked m m' := by
  obtain ⟨m₁, hsend, h₁⟩ := bind_eq_ok.1 h
  cases h₁
  exact sendToOpponentOf (fun _ => rfl) hsend

/-- The reconnection is told, and counted. -/
theorem reportReconnection (h : m.reportReconnection i = .ok m') : Booked m m' := by
  obtain ⟨c, -, h₁⟩ := bind_eq_ok.1 h
  obtain ⟨m₁, hm₁, h₂⟩ := bind_eq_ok.1 h₁
  cases h₂
  split_ifs at hm₁
  · cases hm₁
    exact ⟨rfl, rfl, [(i, composeMsgInLobbyRecn)], rfl, rfl⟩
  · obtain ⟨msg, hmsg, hsend⟩ := bind_eq_ok.1 hm₁
    have hback : isBack (i, msg) = true := by
      obtain ⟨r, turn, nick, -, -, -, rfl⟩ := Server.composeMsgInGameRecn_cases hmsg
      rfl
    obtain ⟨hconn, hdisc, log, hlog, hcount⟩ := sendToOpponentOf (fun _ => rfl) hsend
    refine ⟨hconn, hdisc, (i, msg) :: log, ?_, ?_⟩
    · change m₁.sent = m.sent ++ ([(i, msg)] ++ log)
      rw [hlog, ← List.append_assoc]
      rfl
    · change m₁.cli_reconnected + 1 = m.cli_reconnected + ((i, msg) :: log).countP isBack
      rw [hcount, List.countP_cons_of_pos hback]
      rfl

theorem requestConnect {n : Text} {st : State} {b : ℤ}
    (h : m.requestConnect i n st = .ok (m', b)) : Booked m m' := by
  obtain ⟨c, -, ⟨-, ⟨-, -, rfl⟩ | ⟨rfl, -⟩⟩ | ⟨-, rfl⟩ | ⟨d, -, -, -, hrec⟩⟩ :=
    requestConnect_cases h
  · exact ((modify _).trans (send rfl)).trans (send rfl)
  · exact refl _
  · exact send rfl
  · obtain ⟨e, -, ⟨-, rfl⟩ | ⟨-, hrep⟩ | ⟨-, hrep⟩⟩ := handleReconnection_cases hrec
    · exact send rfl
    · exact (modify _).trans (reportReconnection hrep)
    · exact ((modify _).trans (modify _)).trans (reportReconnection hrep)

theorem serveFrame {st : State} {f : Frame} {b : ℤ}
    (h : m.serveFrame i st f = .ok (m', b)) : Booked m m' := by
  cases f with
  | ping =>
    cases h
    split_ifs
    · exact (modify _).trans (send rfl)
    · exact send rfl
  | pong | ready =>
    cases h
    exact modify _
  | ok =>
    cases h
    exact refl _
  | connect n => exact requestConnect h
  | move t => exact requestMove h
  | leave => exact requestLeave h
  | chat t => exact requestChat h

theorem startGame {id : ℕ} (h : m.startGame id i j = .ok m') : Booked m m' := by
  obtain ⟨_, -, h₁⟩ := bind_eq_ok.1 h
  obtain ⟨_, -, h₂⟩ := bind_eq_ok.1 h₁
  cases h₂
  have hseated := (((modify (m := m) (i := i) (·.setRoomId id)).trans (modify (i := j)
    (·.setRoomId id))).trans (modify (i := i) (·.setState .playingOnTurn))).trans (modify (i := j)
      (·.setState .playingOnStand))
  exact (hseated.trans (send rfl)).trans (send rfl)

theorem pairLoop {fuel : ℕ} (h : pairLoop fuel m i = .ok m') : Booked m m' := by
  induction fuel generalizing m i with
  | zero =>
    cases h
    exact refl _
  | succ fuel ih =>
    rw [ClientManager.pairLoop] at h
    split_ifs at h
    · obtain ⟨c, -, h₁⟩ := bind_eq_ok.1 h
      by_cases hp : c.state = .ready ∧ m.nextReady (i + 1) < m.clients.length
      · rw [if_pos hp] at h₁
        obtain ⟨d, -, h₂⟩ := bind_eq_ok.1 h₁
        obtain ⟨m₁, hstart, hrest⟩ := bind_eq_ok.1 h₂
        have hroom : Booked m { m with lobby := (m.lobby.createRoom c.nick d.nick).1 } :=
          ⟨rfl, rfl, [], by simp, by simp⟩
        exact (hroom.trans (startGame hstart)).trans (ih hrest)
      · rw [if_neg hp] at h₁
        exact ih h₁
    · cases h
      exact refl _

theorem eraseClient (h : m.eraseClient i = .ok m') : Booked m m' := by
  obtain ⟨c, -, h₁⟩ := bind_eq_ok.1 h
  obtain ⟨m₂, hm₂, h₂⟩ := bind_eq_ok.1 h₁
  cases h₂
  have herase : Booked m₂ { m₂ with clients := m₂.clients.eraseIdx i } :=
    ⟨rfl, rfl, [], by simp, by simp⟩
  refine Booked.trans ?_ herase
  split_ifs at hm₂
  · obtain ⟨n, -, h₃⟩ := bind_eq_ok.1 hm₂
    obtain ⟨o, -, hdestroy⟩ := bind_eq_ok.1 h₃
    have hgone := destroyRoom hdestroy
    split_ifs at hgone
    · exact ((send rfl).trans (send rfl)).trans hgone
    · exact hgone
  · cases hm₂
    exact refl _

theorem pingClient (h : m.pingClient i = .ok m') : Booked m m' := by
  obtain ⟨c, -, h₁⟩ := bind_eq_ok.1 h
  split_ifs at h₁
  · cases h₁
    exact modify _
  · obtain ⟨c', -, h₂⟩ := bind_eq_ok.1 h₁
    have hping : Booked m ((m.sendToClient i OP_PING).modify i (·.setState .lost)) :=
      (send rfl).trans (modify _)
    split_ifs at h₂
    · exact hping.trans (sendToOpponentOf (fun _ => rfl) h₂)
    · cases h₂
      exact hping
  · cases h₁
    exact (send rfl).trans (modify _)
  · obtain ⟨c', -, h₂⟩ := bind_eq_ok.1 h₁
    split_ifs at h₂
    · cases h₂
      exact (modify _).trans (modify _)
    · cases h₂
      exact modify _
  · cases h₁
    exact (send rfl).trans (modify _)

theorem pingLoop (is : List ℕ) (h : is.foldlM ClientManager.pingClient m = .ok m') :
    Booked m m' := by
  induction is generalizing m with
  | nil =>
    cases h
    exact refl _
  | cons i is ih =>
    rw [List.foldlM_cons] at h
    obtain ⟨m₁, hm₁, h₁⟩ := bind_eq_ok.1 h
    exact (pingClient hm₁).trans (ih h₁)

end Booked

end ClientManager

/-! ### Connections -/

namespace Server

variable {clients rooms : ℕ} {fd : ℤ} {s s' : Server} {i : ℕ} {l : Input}

/-- The watched descriptors but that of the server. -/
def watchedSocks (s : Server) : List ℤ := s.sockets.filter (· ≠ s.serverSocket)

/-- **The books are right.**  As many connections are watched as were opened and not closed. -/
structure Books (s : Server) : Prop where
  nodup : s.sockets.Nodup
  listening : s.isRunning = true → s.serverSocket ∈ s.sockets
  own : ∀ c ∈ s.mngClient.clients, 0 ≤ c.socketNum → c.socketNum ≠ s.serverSocket
  balance : s.mngClient.cli_connected = s.mngClient.cli_disconnected + s.watchedSocks.length

/-- Nothing is booked, and the descriptors of the clients are those of clients from before. -/
theorem Books.manager {m : ClientManager} (h : s.Books) (hm : Booked s.mngClient m)
    (hsocks : ∀ c' ∈ m.clients, ∃ c ∈ s.mngClient.clients, c'.socketNum = c.socketNum) :
    Books { s with mngClient := m } where
  nodup := h.nodup
  listening := h.listening
  own := fun c' hc' hsock => by
    obtain ⟨c, hc, heq⟩ := hsocks c' hc'
    rw [heq] at hsock ⊢
    exact h.own c hc hsock
  balance := by
    change m.cli_connected = m.cli_disconnected + s.watchedSocks.length
    rw [hm.connected, hm.disconnected]
    exact h.balance

theorem socks_of_same {cs cs' : List Client} (h : SameSocks cs cs') :
    ∀ c' ∈ cs', ∃ c ∈ cs, c'.socketNum = c.socketNum := by
  intro c' hc'
  obtain ⟨j, hj⟩ := List.mem_iff_getElem?.1 hc'
  obtain ⟨c, hc, hsock⟩ := forall₂_exists_left h hj
  exact ⟨c, List.mem_of_getElem? hc, hsock⟩

theorem socks_of_erased {cs cs' : List Client} (h : SameSocks (cs.eraseIdx i) cs') :
    ∀ c' ∈ cs', ∃ c ∈ cs, c'.socketNum = c.socketNum := by
  intro c' hc'
  obtain ⟨c, hc, hsock⟩ := socks_of_same h c' hc'
  exact ⟨c, List.mem_of_mem_eraseIdx hc, hsock⟩

/-- A connection that is closed is booked. -/
theorem closeConnection_booked (h : s.closeConnection i = .ok s') :
    ∃ c, s.mngClient.clients[i]? = some c ∧ (s' = s ∨ 0 ≤ c.socketNum ∧ ∃ m,
      Booked ((s.mngClient.setDisconnected i).setBadSocket i (-42)) m ∧
        SameSocks (s.mngClient.clients.modify i disconnect) m.clients ∧
        s' = { s with mngClient := m, sockets := FD_CLR c.socketNum s.sockets }) := by
  obtain ⟨c, hc, h₁⟩ := bind_eq_ok.1 h
  refine ⟨c, deref_eq_ok.1 hc, ?_⟩
  split_ifs at h₁ with hneg
  · cases h₁
    exact Or.inl rfl
  have hclosed : ((s.mngClient.setDisconnected i).setBadSocket i (-42)).clients =
      s.mngClient.clients.modify i disconnect :=
    List.modify_modify_eq _ (fun c : Client => c.setSocket (-42)) i s.mngClient.clients
  obtain ⟨c', -, h₂⟩ := bind_eq_ok.1 h₁
  split_ifs at h₂
  · obtain ⟨m, hm, rfl⟩ := manage_eq_ok.1 h₂
    refine Or.inr ⟨not_lt.1 hneg, m, .sendToOpponentOf (fun _ => rfl) hm, ?_, rfl⟩
    rw [(sendToOpponentOf_same hm).1, hclosed]
    exact SameSocks.refl _
  · cases h₂
    refine Or.inr ⟨not_lt.1 hneg, _, .refl _, ?_, rfl⟩
    rw [hclosed]
    exact SameSocks.refl _

theorem Books.close (hb : s.world.Base) (h : s.Books) (hs : s.closeConnection i = .ok s') :
    s'.Books := by
  obtain ⟨c, hc, rfl | ⟨hsock, m, hm, hsocks, rfl⟩⟩ := closeConnection_booked hs
  · exact h
  have hmem := List.mem_of_getElem? hc
  have hwatched : c.socketNum ∈ s.watchedSocks :=
    List.mem_filter.2 ⟨hb.watched c hmem hsock, decide_eq_true (h.own c hmem hsock)⟩
  refine ⟨h.nodup.filter _, fun hrun => ?_, fun e he hpos => ?_, ?_⟩
  · exact List.mem_filter.2 ⟨h.listening hrun, decide_eq_true (h.own c hmem hsock).symm⟩
  · obtain ⟨d, hd, heq⟩ := socks_of_same hsocks e he
    rw [heq] at hpos ⊢
    rcases mem_modify hd with ⟨j, -, hd⟩ | ⟨a, -, rfl⟩
    · exact h.own d (List.mem_of_getElem? hd) hpos
    · have hneg := disconnect_socketNum a
      omega
  · -- one descriptor less is watched
    have hnodup : s.watchedSocks.Nodup := h.nodup.filter _
    have hcleared : (FD_CLR c.socketNum s.sockets).filter (· ≠ s.serverSocket) =
        s.watchedSocks.erase c.socketNum := by
      rw [hnodup.erase_eq_filter, watchedSocks, FD_CLR, List.filter_comm]
      refine List.filter_congr fun x _ => ?_
      by_cases hx : x = c.socketNum
      · simp [hx]
      · simp [hx]
    have hpos := List.length_pos_of_mem hwatched
    have hbalance := h.balance
    change m.cli_connected = m.cli_disconnected +
      ((FD_CLR c.socketNum s.sockets).filter (· ≠ s.serverSocket)).length
    rw [hcleared, List.length_erase_of_mem hwatched, hm.connected, hm.disconnected]
    change s.mngClient.cli_connected = s.mngClient.cli_disconnected + 1 + _
    omega

theorem told_closeConnection (h : s.closeConnection i = .ok s') :
    TellsBack s.mngClient s'.mngClient := by
  obtain ⟨c, -, rfl | ⟨-, m, hm, -, rfl⟩⟩ := closeConnection_booked h
  · exact .refl _
  · have htold := hm.told
    exact htold

/-- The books stay right, and the reconnections are told. -/
structure KeepsBooks (s s' : Server) : Prop where
  upds : s.world.Upds s'.world
  books : s.world.Base → s.Books → s'.Books
  told : TellsBack s.mngClient s'.mngClient

theorem keepsBooks_manager {m : ClientManager} (hu : s.world.Upds
    (Server.world { s with mngClient := m })) (hm : Booked s.mngClient m)
    (hsocks : ∀ c' ∈ m.clients, ∃ c ∈ s.mngClient.clients, c'.socketNum = c.socketNum) :
    KeepsBooks s { s with mngClient := m } :=
  ⟨hu, fun _ h => h.manager hm hsocks, hm.told⟩

/-- The parts of a pass that handle no frame keep the books. -/
theorem preserving_books : Preserving KeepsBooks where
  refl := fun _ => ⟨.refl _, fun _ h => h, .refl _⟩
  trans := fun _ _ _ h h' =>
    ⟨h.upds.trans h'.upds, fun hb hs => h'.books (hb.upds h.upds) (h.books hb hs),
      h.told.trans h'.told⟩
  tell := fun s i msg hmsg => by
    have hother : ∀ t ∈ [SC_MANY_CLNT, SC_SHDW, SC_KICK], isBack (i, t) = false := by
      simp [isBack, SC_MANY_CLNT, SC_SHDW, SC_KICK, SC_RESP_RECN, List.isPrefixOf]
    exact keepsBooks_manager (upds_sendToClient s i msg) (.send (hother msg hmsg))
      (socks_of_same (.refl _))
  close := fun s i s' h =>
    ⟨upds_closeConnection h, fun hb hs => hs.close hb h, told_closeConnection h⟩
  erase := fun s i s' h => by
    have hu := upds_eraseClient h
    obtain ⟨m, hm, rfl⟩ := manage_eq_ok.1 h
    exact keepsBooks_manager hu (.eraseClient hm) (socks_of_erased (AllMarked.eraseClient hm).sameSocks)
  evict := fun s k => keepsBooks_manager (preserving_upds.evict s k) ⟨rfl, rfl, [], by simp, by simp⟩
    (socks_of_erased (.refl _))
  unflag := fun s i => keepsBooks_manager (preserving_upds.unflag s i) (.modify _)
    (socks_of_same (SameSocks.modify _ fun _ => rfl))

/-- A new connection is booked. -/
theorem keepsBooks_accept {ip : Text} (hrun : s.isRunning = true) (hnew : fd ∉ s.sockets) :
    KeepsBooks s (s.acceptConnection ip fd) := by
  refine ⟨upds_acceptConnection hnew, fun _ h => ?_, ?_⟩
  · unfold acceptConnection
    split_ifs with hpos
    swap
    · exact h
    have hne : fd ≠ s.serverSocket := fun heq => hnew (heq ▸ h.listening hrun)
    have hset : FD_SET fd s.sockets = fd :: s.sockets := if_neg hnew
    refine ⟨?_, fun _ => ?_, fun c hc hsock => ?_, ?_⟩
    · change (FD_SET fd s.sockets).Nodup
      rw [hset]
      exact h.nodup.cons hnew
    · change s.serverSocket ∈ FD_SET fd s.sockets
      rw [hset]
      exact List.mem_cons_of_mem _ (h.listening hrun)
    · rcases List.mem_append.1 hc with hc | hc
      · exact h.own c hc hsock
      · rw [List.mem_singleton.1 hc]
        exact hne
    · have hbalance := h.balance
      change s.mngClient.cli_connected + 1 = s.mngClient.cli_disconnected +
        ((FD_SET fd s.sockets).filter (· ≠ s.serverSocket)).length
      rw [hset, List.filter_cons_of_pos (by simpa using hne), List.length_cons, hbalance]
      rfl
  · unfold acceptConnection
    split_ifs
    · exact ⟨[], by simp [createClient], by simp [createClient]⟩
    · exact .refl _

/-- **A step keeps the books.** -/
theorem server_step_books (hb : s.world.Base) (h : s.Books) (hst : server.Step s l s') :
    s'.Books ∧ s'.mngClient.cli_reconnected =
      s.mngClient.cli_reconnected + s'.mngClient.sent.countP isBack := by
  obtain ⟨hguard, hexec⟩ := hst
  change s.clearSent.handle l = .ok s' at hexec
  have hclear : s.clearSent.Books := ⟨h.nodup, h.listening, h.own, h.balance⟩
  suffices hkeeps : s'.Books ∧ TellsBack s.clearSent.mngClient s'.mngClient by
    obtain ⟨hbooks, log, hlog, hcount⟩ := hkeeps
    rw [hlog]
    exact ⟨hbooks, hcount⟩
  have hof : KeepsBooks s.clearSent s' → s'.Books ∧ TellsBack s.clearSent.mngClient s'.mngClient :=
    fun hk => ⟨hk.books hb hclear, hk.told⟩
  cases l with
  | accept ip fd =>
    exact hof (preserving_books.trans _ _ _ (keepsBooks_accept hguard.1 hguard.2)
      (preserving_books.checkCapacity hexec))
  | frame i f =>
    obtain ⟨c, m, b, -, rfl, ⟨-, rfl⟩ | ⟨-, hserve⟩⟩ := frame_cases hexec
    · exact ⟨hclear, .refl _⟩
    · have hm := Booked.serveFrame hserve
      exact ⟨hclear.manager hm (socks_of_same (AllMarked.serveFrame hserve).sameSocks), hm.told⟩
  | close i => exact hof (preserving_books.close _ _ _ hexec)
  | kick i => exact hof (preserving_books.kick hexec)
  | flags i => exact hof (preserving_books.processFlags hexec)
  | pair =>
    obtain ⟨m, hm, rfl⟩ := manage_eq_ok.1 hexec
    have hbooked := Booked.pairLoop (m := s.clearSent.mngClient) hm
    have hkept : AllKept false s.clearSent.mngClient.clients m.clients := AllKept.pairLoop hm
    exact ⟨hclear.manager hbooked (socks_of_same hkept.sameSocks), hbooked.told⟩
  | ping =>
    obtain ⟨m, hm, rfl⟩ := manage_eq_ok.1 hexec
    have hbooked := Booked.pingLoop _ hm
    refine ⟨hclear.manager hbooked fun c' hc' => ?_, hbooked.told⟩
    rw [(pingClients_spec hm).1] at hc'
    obtain ⟨c, hc, rfl⟩ := List.mem_map.1 hc'
    exact ⟨c, hc, quiet_pinged.sock c⟩
  | shutdown =>
    obtain ⟨s₁, hs₁, h₁⟩ := bind_eq_ok.1 hexec
    cases h₁
    have hk := preserving_books.closeClientSockets hs₁
    have hbooks := hk.books hb hclear
    refine ⟨⟨hbooks.nodup.filter _, fun hrun => ?_, hbooks.own, ?_⟩, hk.told⟩
    · cases hrun
    -- the descriptor of the server was not counted
    have hbalance := hbooks.balance
    change s₁.mngClient.cli_connected = s₁.mngClient.cli_disconnected +
      ((FD_CLR s₁.serverSocket s₁.sockets).filter (· ≠ s₁.serverSocket)).length
    rw [hbalance, FD_CLR, List.filter_filter, watchedSocks]
    simp

/-! ### Runs -/

/-- The watched descriptors that no client has. -/
def leftBehind (s : Server) : List ℤ :=
  s.watchedSocks.filter fun fd => fd ∉ s.mngClient.clients.filterMap Client.sockKey

/-- A watched descriptor is that of a client, or left behind. -/
theorem length_watchedSocks (hb : s.world.Base) (h : s.Books) : s.watchedSocks.length =
    s.mngClient.clients.countP (fun c => 0 ≤ c.socketNum) + s.leftBehind.length := by
  have hnodup : s.watchedSocks.Nodup := h.nodup.filter _
  have hsub : ∀ fd ∈ s.mngClient.clients.filterMap Client.sockKey, fd ∈ s.watchedSocks := by
    intro fd hfd
    obtain ⟨c, hc, hkey⟩ := List.mem_filterMap.1 hfd
    obtain ⟨rfl, hsock⟩ := Client.sockKey_eq_some.1 hkey
    exact List.mem_filter.2 ⟨hb.watched c hc hsock, decide_eq_true (h.own c hc hsock)⟩
  have howned : (s.watchedSocks.filter fun fd =>
      fd ∈ s.mngClient.clients.filterMap Client.sockKey).Perm
        (s.mngClient.clients.filterMap Client.sockKey) := by
    refine (List.perm_ext_iff_of_nodup (hnodup.filter _) hb.socks.nodup_filterMap).2 fun fd => ?_
    rw [List.mem_filter, decide_eq_true_eq]
    exact ⟨fun h => h.2, fun h => ⟨hsub fd h, h⟩⟩
  have hkeys : ∀ c : Client, c.sockKey.isSome = decide (0 ≤ c.socketNum) := by
    intro c
    unfold Client.sockKey
    split_ifs with hneg
    · simp [hneg]
    · simp [not_lt.1 hneg]
  have hconnected : (s.mngClient.clients.filterMap Client.sockKey).length =
      s.mngClient.clients.countP (fun c => 0 ≤ c.socketNum) := by
    rw [List.length_filterMap_eq_countP]
    exact List.countP_congr fun c _ => by rw [hkeys]
  rw [List.length_eq_countP_add_countP (fun fd =>
    decide (fd ∈ s.mngClient.clients.filterMap Client.sockKey)), List.countP_eq_length_filter,
    howned.length_eq, hconnected, leftBehind]
  simp only [decide_eq_true_eq, List.countP_eq_length_filter]

theorem Books.create : (create clients rooms fd).Books where
  nodup := List.nodup_singleton fd
  listening := fun _ => List.mem_singleton_self fd
  own := fun c hc => by cases hc
  balance := by simp [Server.create, ClientManager.create, watchedSocks]

theorem Posted.books {log : List (ℕ × Text)} (h : Posted clients rooms fd s log) :
    s.Books ∧ s.mngClient.cli_reconnected = log.countP isBack := by
  induction h with
  | nil => exact ⟨.create, rfl⟩
  | snoc hrun hst ih =>
    obtain ⟨hbooks, hback⟩ := server_step_books (Posted.reachable hrun).base ih.1 hst
    exact ⟨hbooks, by rw [hback, ih.2, List.countP_append]⟩

/-- **The books balance.**  In every run the connections that were opened are those that were
closed, those that clients have, and those that were left behind; and there were as many
reconnections as messages that tell a client that it is back. -/
theorem books_balance {log : List (ℕ × Text)} (h : Posted clients rooms fd s log) :
    s.mngClient.cli_connected = s.mngClient.cli_disconnected +
        s.mngClient.clients.countP (fun c => 0 ≤ c.socketNum) + s.leftBehind.length ∧
      s.mngClient.cli_reconnected = log.countP isBack := by
  obtain ⟨hbooks, hback⟩ := h.books
  refine ⟨?_, hback⟩
  rw [hbooks.balance, length_watchedSocks h.reachable.base hbooks, Nat.add_assoc]

/-- A session is taken over from another connection before and after it was closed. -/
theorem books_balance_takeOver : ∃ s log, Posted 10 5 3 s log ∧ s.leftBehind = [4] ∧
    s.mngClient.cli_reconnected = 2 ∧
    s.mngClient.cli_connected = s.mngClient.cli_disconnected +
        s.mngClient.clients.countP (fun c => 0 ≤ c.socketNum) + s.leftBehind.length ∧
      s.mngClient.cli_reconnected = log.countP isBack := by
  have hrun : (server.replayRecorded (fun _ _ s' log => log ++ s'.mngClient.sent) (create 10 5 3) []
      [.accept "10.0.0.4".toList 4, .accept "10.0.0.4".toList 5, .frame 0 (.connect alice),
        .frame 0 .ready, .frame 1 (.connect alice), .flags 0, .close 0,
        .accept "10.0.0.4".toList 6, .frame 1 (.connect alice)]).any (fun p =>
        decide (p.1.leftBehind = [4] ∧ p.1.mngClient.cli_reconnected = 2)) = true := by
    decide +kernel
  obtain ⟨s, log, hlog, ht⟩ := System.exists_recorded .nil hrun
  obtain ⟨hleft, htwo⟩ := of_decide_eq_true ht
  exact ⟨s, log, hlog, hleft, htwo, books_balance hlog⟩

end Server

end HnefServer
