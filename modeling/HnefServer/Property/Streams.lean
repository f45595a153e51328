import HnefServer.Data.Framing
import HnefServer.LTS.Trace
import HnefServer.Property.Grammar
import HnefServer.Property.Sending

/-!
# The streams of the clients

A client is sent a stream of frames, and `send` may break off any of them.  No message of any run
contains a delimiter, so that a client that splits its stream at the braces reads exactly the
messages that `sendToClient` has reported as sent (`streams_resynchronise`): a frame that was broken
off is lost, and never the one after it.
-/

namespace HnefServer

open Protocol ClientManager Framing

/-! ### Clean messages -/

/-- The text contains no brace, and no NUL. -/
def Text.Clean (t : Text) : Prop := ∀ c ∈ t, c ≠ '\x7b' ∧ c ≠ '\x7d' ∧ c ≠ '\x00'

instance (t : Text) : Decidable t.Clean := List.decidableBAll _ t

namespace Text.Clean

variable {t t' turn nick board : Text}

theorem append (h : t.Clean) (h' : t'.Clean) : Text.Clean (t ++ t') := by
  intro c hc
  rcases List.mem_append.1 hc with hc | hc
  · exact h c hc
  · exact h' c hc

/-- A text over a class without these characters. -/
theorem of_class {p : Char → Bool} (hp : p '\x7b' = false ∧ p '\x7d' = false ∧ p '\x00' = false)
    (h : ∀ c ∈ t, p c = true) : t.Clean := by
  intro c hc
  have hother : ∀ d, p d = false → c ≠ d := by
    rintro d hd rfl
    exact Bool.eq_false_iff.1 hd (h c hc)
  exact ⟨hother _ hp.1, hother _ hp.2.1, hother _ hp.2.2⟩

theorem of_digits (h : ∀ c ∈ t, c.isDigit = true) : t.Clean := of_class (by decide) h

theorem of_named (h : t.Named) : t.Clean := by
  rcases h with rfl | ⟨n, rfl⟩
  · decide
  · exact of_class (by decide) n.chars

theorem of_turn (h : turn = SC_TURN_YOU ∨ turn = SC_TURN_OPN) : turn.Clean := by
  rcases h with rfl | rfl
  · decide
  · decide

theorem of_plain {msg : Text} (h : Plain msg) : msg.Clean := by
  cases h with
  | fixed hmem =>
    have hall : ∀ t ∈ fixedMsgs, Text.Clean t := by decide
    exact hall msg hmem
  | move coordinates =>
    have hkey : Text.Clean (SC_OPN_MOVE ++ OP_INI) := by decide
    exact hkey.append (of_digits coordinates.chars)
  | chat said =>
    have hkey : Text.Clean (OP_CHAT ++ OP_INI) := by decide
    exact hkey.append (of_class (by decide) said.chars)

theorem inGame (hturn : turn = SC_TURN_YOU ∨ turn = SC_TURN_OPN) (hnick : nick.Named) :
    Text.Clean (composeMsgInGame turn nick) := by
  have hkey : Text.Clean (SC_IN_GAME ++ OP_SEP) := by decide
  have hsep : Text.Clean OP_SEP := by decide
  have hname : Text.Clean SC_OPN_NAME := by decide
  have hini : Text.Clean OP_INI := by decide
  exact ((((hkey.append (of_turn hturn)).append hsep).append hname).append hini).append
    (of_named hnick)

theorem inGameRecn (hturn : turn = SC_TURN_YOU ∨ turn = SC_TURN_OPN) (hnick : nick.Named)
    (hboard : ∀ c ∈ board, c.isDigit = true) : Text.Clean (backInGame turn nick board) := by
  have hgame : Text.Clean (SC_RESP_RECN ++ OP_SEP ++ SC_IN_GAME ++ OP_SEP) := by decide
  have hsep : Text.Clean OP_SEP := by decide
  have hname : Text.Clean SC_OPN_NAME := by decide
  have hini : Text.Clean OP_INI := by decide
  have hfield : Text.Clean SC_PLAYFIELD := by decide
  have hopponent := ((((hgame.append (of_turn hturn)).append hsep).append hname).append
    hini).append (of_named hnick)
  exact (((hopponent.append hsep).append hfield).append hini).append (of_digits hboard)

end Text.Clean

/-- The messages of the pairing. -/
theorem clean_gameMsgs {nicks : ℕ → Text} (hnicks : ∀ x, (nicks x).Named) (R : List ℕ) :
    ∀ p ∈ gameMsgs nicks R, p.2.Clean := by
  induction R using gameMsgs.induct with
  | case1 x y R ih =>
    rw [gameMsgs, List.forall_mem_cons, List.forall_mem_cons]
    exact ⟨.inGame (Or.inl rfl) (hnicks y), .inGame (Or.inr rfl) (hnicks x), ih⟩
  | case2 R hR =>
    intro p hp
    rw [gameMsgs] at hp
    · cases hp
    · exact hR

/-! ### The players of the rooms -/

namespace ClientManager

variable {m m' : ClientManager} {i : ℕ}

/-- A player of a room has a name that was asked for, or none. -/
def PlayersNamed (m : ClientManager) : Prop :=
  ∀ r ∈ m.lobby.games, r.black.Named ∧ r.white.Named

theorem named_pairLoop {fuel : ℕ} (hfuel : m.clients.length ≤ fuel + i)
    (h : pairLoop fuel m i = .ok m') (hnamed : ∀ x, (nickAt m.clients x).Named)
    (hm : m.PlayersNamed) : m'.PlayersNamed := by
  refine pairLoop_induction (P := fun m _ m' => (∀ x, (HnefServer.nickAt m.clients x).Named) →
    m.PlayersNamed → m'.PlayersNamed) (fun m _ hm => hm) (fun m x m' hrest => hrest)
    (fun m m₁ m' x y c d R hp _ _ hrest hnamed hm => ?_) hfuel h hnamed hm
  refine hrest (hp.nickAt ▸ hnamed) fun r hr => ?_
  rw [hp.lobby] at hr
  rcases List.mem_append.1 hr with hr | hr
  · exact hm r hr
  · have hblack := hnamed x
    have hwhite := hnamed y
    rw [nickAt_eq hp.fst] at hblack
    rw [nickAt_eq hp.snd] at hwhite
    rw [List.mem_singleton.1 hr]
    exact ⟨hblack, hwhite⟩

end ClientManager

namespace Server

variable {clients rooms : ℕ} {fd : ℤ} {s s' : Server} {l : Input}

theorem playersNamed_step (hnamed : s.Named) (h : s.mngClient.PlayersNamed)
    (hstep : server.Step s l s') : s'.mngClient.PlayersNamed := by
  by_cases hl : l = .pair
  · subst hl
    obtain ⟨m, hm, rfl⟩ := manage_eq_ok.1 hstep.2
    exact named_pairLoop (m := s.clearSent.mngClient) (by omega) hm hnamed.nickAt h
  · -- every room is one from before
    intro r hr
    have hnarrow := (server_step_rooms hstep hl).games
    obtain ⟨a, ha, hid⟩ := List.mem_map.1 (hnarrow.subset (List.mem_map_of_mem hr))
    simp only [RoomHnefatafl.identity, Prod.mk.injEq] at hid
    rw [← hid.2.1, ← hid.2.2]
    exact h a ha

theorem Reachable.playersNamed (h : Server.Reachable clients rooms fd s) :
    s.mngClient.PlayersNamed := by
  have hboth : Server.Reachable clients rooms fd s ∧ s.mngClient.PlayersNamed := by
    refine System.Reachable.invariant (I := fun s : Server =>
      Server.Reachable clients rooms fd s ∧ s.mngClient.PlayersNamed) h
      ⟨.refl _, fun r hr => by cases hr⟩ fun s l s' hs hst => ?_
    exact ⟨hs.1.tail trivial hst, playersNamed_step hs.1.named hs.2 hst⟩
  exact hboth.2

theorem clean_composeMsgInGameRecn {m : ClientManager} {c : Client} {msg : Text}
    (hnamed : m.PlayersNamed) (hcol : ∀ r ∈ m.lobby.games, Hall.Coloured r)
    (h : m.composeMsgInGameRecn c = .ok msg) : msg.Clean := by
  obtain ⟨r, turn, nick, hr, hturn, hnick, rfl⟩ := composeMsgInGameRecn_cases h
  have hmem := List.mem_of_getElem? hr
  obtain ⟨hblack, hwhite⟩ := hnamed r hmem
  have hplayers : r.onTurn.Named ∧ r.onStand.Named := by
    rcases hcol r hmem with ⟨hb, hw⟩ | ⟨hb, hw⟩
    · exact ⟨hb ▸ hblack, hw ▸ hwhite⟩
    · exact ⟨hw ▸ hwhite, hb ▸ hblack⟩
  have hn : nick.Named := by
    rcases hnick with rfl | rfl
    · exact hplayers.1
    · exact hplayers.2
  exact .inGameRecn hturn hn r.isDigit_getPlayfieldString

/-- **No message breaks a frame.** -/
theorem clean_step (h : Server.Reachable clients rooms fd s) (hstep : server.Step s l s') :
    ∀ p ∈ s'.mngClient.sent, p.2.Clean := by
  have h' : Server.Reachable clients rooms fd s' := h.tail trivial hstep
  by_cases hl : l = .pair
  · subst hl
    obtain ⟨m, hm, rfl⟩ := manage_eq_ok.1 hstep.2
    have hsent : m.sent = gameMsgs (nickAt s.mngClient.clients)
        (readyPositions s.mngClient.clients 0) :=
      sent_pairLoop (m := s.clearSent.mngClient) (by omega) hm
    change ∀ p ∈ m.sent, p.2.Clean
    rw [hsent]
    exact clean_gameMsgs h.named.nickAt _
  · intro p hp
    rcases server_step_told hstep hl p hp with hplain | ⟨c, -, hmsg⟩
    · exact .of_plain hplain
    · exact clean_composeMsgInGameRecn h'.playersNamed h'.coloured hmsg

/-- Runs with all the messages that were handed to `sendToClient`, in their order. -/
abbrev Posted (clients rooms : ℕ) (fd : ℤ) : Server → List (ℕ × Text) → Prop :=
  server.Recorded (fun _ _ s' log => log ++ s'.mngClient.sent) (create clients rooms fd) []

theorem Posted.reachable {log : List (ℕ × Text)} (h : Posted clients rooms fd s log) :
    Server.Reachable clients rooms fd s :=
  System.Recorded.reachable h

theorem Posted.clean {log : List (ℕ × Text)} (h : Posted clients rooms fd s log) :
    ∀ p ∈ log, p.2.Clean := by
  induction h with
  | nil =>
    intro p hp
    cases hp
  | snoc hrun hst ih =>
    intro p hp
    rcases List.mem_append.1 hp with hp | hp
    · exact ih p hp
    · exact clean_step (Posted.reachable hrun) hst p hp

end Server

/-! ### Connections -/

/-- What comes out of sending `msg`, to any client and with any answers of `send`. -/
def Delivery (msg : Text) (r : Sent) : Prop :=
  ∃ (m : Sender) (client : Client) (socket : Socket), m.sendToClient client msg socket = some r

/-- The bytes a connection has accepted. -/
def wire (rs : List Sent) : Text := rs.flatMap (·.accepted)

/-- The messages a client reads. -/
def readFrames (bytes : Text) : List Text := (Reader.fresh.readAll '\x7b' '\x7d' bytes).msgs

/-- The messages that `sendToClient` has reported as sent. -/
def reported (mail : List (ℕ × Text)) (rs : List Sent) : List Text :=
  ((mail.zip rs).filter fun p => p.2.value ≠ -1).map fun p => p.1.2

theorem frame_eq_enclose (msg : Text) : OP_SOH ++ msg ++ OP_EOT = enclose '\x7b' '\x7d' msg := rfl

/-- **What a call of `sendToClient` leaves on the connection.** -/
theorem Delivery.spec {msg : Text} {r : Sent} (hmsg : msg.Clean) (h : Delivery msg r) :
    r.accepted <+: enclose '\x7b' '\x7d' msg ∧
      (r.value ≠ -1 ↔ r.accepted = enclose '\x7b' '\x7d' msg) := by
  obtain ⟨m, client, socket, hsend⟩ := h
  rw [Sender.sendToClient, frame_eq_enclose] at hsend
  have hnul : '\x00' ∉ enclose '\x7b' '\x7d' msg := by
    rw [enclose, List.mem_cons, List.mem_append, List.mem_singleton]
    rintro (h | h | h)
    · cases h
    · exact (hmsg _ h).2.2 rfl
    · cases h
  have hlen : 0 < (enclose '\x7b' '\x7d' msg).length := by simp [enclose]
  generalize enclose '\x7b' '\x7d' msg = frame at *
  obtain ⟨s, hloop, rfl⟩ := Option.map_eq_some_iff.1 hsend
  by_cases hsock : client.socketNum < 0
  · -- nothing is sent to a closed socket
    have hfail : (Sending.start client frame).failed_send_count = 0 := if_pos hsock
    rw [Sending.loop_of_stop socket _ (by rw [hfail]; simp)] at hloop
    obtain rfl := Option.some.inj hloop
    refine ⟨List.nil_prefix, iff_of_false (fun hne => hne (if_pos hfail)) fun heq => ?_⟩
    rw [← heq] at hlen
    exact lt_irrefl _ hlen
  · have hfail : (Sending.start client frame).failed_send_count = 3 := if_neg hsock
    have hstart : (Sending.start client frame).Sound frame :=
      ⟨⟨frame, rfl, by rw [Sending.start, strcpy, Sender.cString_eq hnul], rfl⟩, rfl,
        by rw [hfail]; decide, Or.inl (by rw [hfail]; decide)⟩
    have hwork : (Sending.start client frame).work ≤ frame.length + 3 := by
      rw [Sending.work, hfail]
      simp [Sending.start]
    obtain ⟨s', hloop', hsound, hend⟩ := hstart.loop socket hwork
    obtain rfl : s = s' := Option.some.inj (hloop.symm.trans hloop')
    obtain ⟨rest, hsplit, -, -⟩ := hsound.split
    have hvalue : (m.finish s).value = if s.accepted = frame then (frame.length : ℤ) else -1 :=
      hsound.result hend
    refine ⟨⟨rest, hsplit.symm⟩, ?_⟩
    rw [hvalue]
    change _ ↔ s.accepted = frame
    split_ifs with hwhole
    · exact iff_of_true (by omega) hwhole
    · exact iff_of_false (fun hne => hne rfl) hwhole

/-- Message by message, what was sent of it. -/
theorem pieces_spec {mail : List (ℕ × Text)} {rs : List Sent} (hclean : ∀ p ∈ mail, p.2.Clean)
    (h : List.Forall₂ (fun p r => Delivery p.2 r) mail rs) :
    ∃ ps : List (Text × Text), ps.flatMap Prod.snd = wire rs ∧
      (ps.filter fun p => p.2 = enclose '\x7b' '\x7d' p.1).map Prod.fst = reported mail rs ∧
      ∀ p ∈ ps, ('\x7b' ∉ p.1 ∧ '\x7d' ∉ p.1) ∧ p.2 <+: enclose '\x7b' '\x7d' p.1 := by
  induction h with
  | nil => exact ⟨[], rfl, rfl, by simp⟩
  | @cons p r mail rs hr _ ih =>
    rw [List.forall_mem_cons] at hclean
    obtain ⟨ps, hwire, hreported, hps⟩ := ih hclean.2
    obtain ⟨hpre, hvalue⟩ := hr.spec hclean.1
    refine ⟨(p.2, r.accepted) :: ps, ?_, ?_, ?_⟩
    · rw [List.flatMap_cons, hwire]
      rfl
    · rw [reported, List.zip_cons_cons, List.filter_cons, List.filter_cons]
      by_cases hwhole : r.accepted = enclose '\x7b' '\x7d' p.2
      · rw [if_pos (by simpa using hwhole), if_pos (by simpa using hvalue.2 hwhole),
          List.map_cons, List.map_cons, hreported]
        rfl
      · rw [if_neg (by simpa using hwhole), if_neg (by simpa using mt hvalue.1 hwhole), hreported]
        rfl
    · rw [List.forall_mem_cons]
      exact ⟨⟨⟨fun h => (hclean.1 _ h).1 rfl, fun h => (hclean.1 _ h).2.1 rfl⟩, hpre⟩, hps⟩

namespace Server

variable {clients rooms : ℕ} {fd : ℤ} {s : Server} {log mail : List (ℕ × Text)} {rs : List Sent}

/-- **The streams resynchronise.**  Take any of the messages of a run, in their order, as those of
one connection, and let `send` answer what it likes: split at the braces, the bytes the connection
has accepted are exactly the messages that `sendToClient` has reported as sent.  As long as a part
of the bytes has arrived only, the first of these are read, and nothing else. -/
theorem streams_resynchronise (h : Posted clients rooms fd s log) (hmail : List.Sublist mail log)
    (hsent : List.Forall₂ (fun p r => Delivery p.2 r) mail rs) :
    readFrames (wire rs) = reported mail rs ∧
      ∀ seen, seen <+: wire rs → readFrames seen <+: reported mail rs := by
  obtain ⟨ps, hwire, hreported, hps⟩ := pieces_spec (fun p hp => h.clean p (hmail.subset hp)) hsent
  have hread : readFrames (wire rs) = reported mail rs := by
    rw [← hwire, ← hreported]
    exact msgs_readAll_pieces (by decide) hps Reader.fresh
  refine ⟨hread, fun seen hseen => ?_⟩
  rw [← hread]
  exact Reader.msgs_readAll_prefix hseen

/-- A socket that takes one byte and then fails. -/
def brokenSocket : Socket where
  send call offered := if call < 1 then min 1 offered else -1
  send_le call offered := by
    split_ifs <;> omega

/-- A socket that takes what it is offered. -/
def goodSocket : Socket where
  send _ offered := offered
  send_le _ _ := le_refl _

/-- The confirmation of the name is broken off after its first byte; the lobby and a ping come
through. -/
theorem streams_resynchronise_broken : ∃ s log rs, Posted 10 5 3 s log ∧
    wire rs = "\x7b\x7bil\x7d\x7b>\x7d".toList ∧
    reported log rs = ["il".toList, ">".toList] ∧ readFrames (wire rs) = reported log rs ∧
      ∀ seen, seen <+: wire rs → readFrames seen <+: reported log rs := by
  have hrun : (server.replayRecorded (fun _ _ s' log => log ++ s'.mngClient.sent) (create 10 5 3) []
      [.accept "10.0.0.2".toList 4, .frame 0 (.connect alice), .ping]).any (fun p =>
        decide (p.2 = [(0, "rc".toList), (0, "il".toList), (0, ">".toList)])) = true := by
    decide +kernel
  obtain ⟨s, log, hlog, ht⟩ := System.exists_recorded .nil hrun
  obtain rfl := of_decide_eq_true ht
  have hsent : List.Forall₂ (fun (p : ℕ × Text) r => Delivery p.2 r)
      [(0, "rc".toList), (0, "il".toList), (0, ">".toList)]
      [⟨⟨1⟩, -1, "\x7b".toList⟩, ⟨⟨4⟩, 4, "\x7bil\x7d".toList⟩, ⟨⟨3⟩, 3, "\x7b>\x7d".toList⟩] :=
    .cons ⟨⟨0⟩, Client.create [] 4, brokenSocket, rfl⟩ <|
      .cons ⟨⟨0⟩, Client.create [] 4, goodSocket, rfl⟩ <|
      .cons ⟨⟨0⟩, Client.create [] 4, goodSocket, rfl⟩ .nil
  exact ⟨s, _, _, hlog, by decide, by decide,
    streams_resynchronise hlog (List.Sublist.refl _) hsent⟩

end Server

end HnefServer
