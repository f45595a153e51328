import HnefServer.Invariant.Quiet
import HnefServer.Invariant.Stable
import HnefServer.LTS.Trace
import HnefServer.Property.Capacity
import HnefServer.Property.Presence

/-!
# The server falls silent

Nobody sends anything any more: `select` times out in every pass, and the ping rounds go on.  Then
the clients leave one after the other, each by three ping rounds, a pass, two more ping rounds and
another pass at most.  Only ghosts stay, for ever: the instances without a socket that are not
Disconnected, which no ping round counts down (`silence_leaves_ghosts`).
-/

namespace HnefServer

open Protocol ClientManager

/-! ### Agendas -/

section Agenda

variable {α : Type*} [DecidableEq α] {a : α} {w v as : List α}

/-- Strike out the first entry of an agenda, if it is `a`. -/
def strike (w : List α) (a : α) : List α := if w.head? = some a then w.tail else w

@[simp] theorem strike_cons_self (a : α) (w : List α) : strike (a :: w) a = w := by simp [strike]

theorem strike_cons_of_ne {b : α} (h : b ≠ a) (w : List α) : strike (b :: w) a = b :: w := by
  simp [strike, h]

theorem strike_sublist_self (w : List α) (a : α) : List.Sublist (strike w a) w := by
  unfold strike
  split_ifs
  · exact List.tail_sublist w
  · exact List.Sublist.refl w

/-- A part of an agenda is worked off before the agenda. -/
theorem strike_mono (h : List.Sublist v w) (a : α) :
    List.Sublist (strike v a) (strike w a) := by
  cases h with
  | slnil => exact List.Sublist.refl _
  | @cons _ w b h =>
    by_cases hb : b = a
    · subst hb
      rw [strike_cons_self]
      exact (strike_sublist_self v b).trans h
    · rw [strike_cons_of_ne hb]
      exact ((strike_sublist_self v a).trans h).cons b
  | @cons_cons v w b h =>
    by_cases hb : b = a
    · subst hb
      rwa [strike_cons_self, strike_cons_self]
    · rw [strike_cons_of_ne hb, strike_cons_of_ne hb]
      exact h.cons_cons b

/-- An agenda is worked off by all that contains it. -/
theorem foldl_strike_of_sublist (h : List.Sublist w as) : as.foldl strike w = [] := by
  induction as generalizing w with
  | nil => exact List.sublist_nil.1 h
  | cons a as ih =>
    refine ih ?_
    cases h with
    | cons _ h => exact (strike_sublist_self w a).trans h
    | cons_cons _ h => rwa [strike_cons_self]

end Agenda

/-! ### What is due to an instance -/

/-- The turns of a server that nobody talks to. -/
inductive Tick
  | ping
  | pass
  deriving DecidableEq

/-- A turn without activity. -/
def Turn.tick : Turn → Option Tick
  | .ping => some .ping
  | .update ev => if ev.fds_read = [] ∧ ev.fds_except = [] then some .pass else none
  | .shutdown => none

namespace Client

variable {c c' : Client}

/-- The instance is flagged to be erased, or its countdown goes on. -/
def Counted (c : Client) : Prop :=
  c.flagToErase = true ∨ 0 < c.cntrPings ∧ c.cntrPings ≤ LONG_PING

theorem stable_counted : Stable Counted where
  create _ _ := Or.inr ⟨(by decide : (0 : ℤ) < LONG_PING), le_refl LONG_PING⟩
  setState _ _ h := h
  setStateLast _ _ h := h
  setRoomId _ _ h := h
  setNick _ _ h := h
  setSocket _ _ h := h
  resetInaccessCount _ _ := Or.inr ⟨(by decide : (0 : ℤ) < LONG_PING), le_refl LONG_PING⟩
  setFlagToDisconnect _ _ h := h
  expire _ _ := Or.inl rfl
  countDown c h := by
    unfold Counted countDown at *
    dsimp only [decreaseInaccessCount]
    split_ifs with hzero
    · exact Or.inl rfl
    · rcases h with h | ⟨hpos, hle⟩
      · exact Or.inl h
      · refine Or.inr ⟨?_, ?_⟩
        · change 0 < c.cntrPings - 1
          omega
        · change c.cntrPings - 1 ≤ LONG_PING
          omega

/-- An instance without a socket that the ping rounds do not count down. -/
def Ghost (c : Client) : Prop :=
  c.socketNum < 0 ∧ c.state ≠ .disconnected ∧ c.flagToErase = false

instance : DecidablePred Ghost := fun c =>
  inferInstanceAs (Decidable (c.socketNum < 0 ∧ c.state ≠ .disconnected ∧ c.flagToErase = false))

/-- What is due to a Disconnected instance: the countdown, and a pass that erases it. -/
def countdown (c : Client) : List Tick := List.replicate c.cntrPings.toNat .ping ++ [.pass]

/-- The ping rounds that lead to the flag to disconnect. -/
def patience : State → List Tick
  | .lost => [.ping]
  | .pinged => [.ping, .ping]
  | _ => [.ping, .ping, .ping]

/-- What is due to an instance until it is erased, unless it is a ghost. -/
def agenda (c : Client) : List Tick :=
  if c.flagToErase then [.pass]
  else if c.state = .disconnected then c.countdown
  else if c.flagToDisconnect then .pass :: c.countdown
  else patience c.state ++ .pass :: c.countdown

section

variable (he : c.flagToErase = false)
include he

theorem agenda_of_gone (hs : c.state = .disconnected) : c.agenda = c.countdown := by
  rw [agenda, if_neg (by simp [he]), if_pos hs]

theorem agenda_of_flag (hs : c.state ≠ .disconnected) (hd : c.flagToDisconnect = true) :
    c.agenda = .pass :: c.countdown := by
  rw [agenda, if_neg (by simp [he]), if_neg hs, if_pos hd]

theorem agenda_of_patience (hs : c.state ≠ .disconnected) (hd : c.flagToDisconnect = false) :
    c.agenda = patience c.state ++ .pass :: c.countdown := by
  rw [agenda, if_neg (by simp [he]), if_neg hs, if_neg (by simp [hd])]

end

theorem agenda_of_erase (he : c.flagToErase = true) : c.agenda = [.pass] := if_pos he

theorem patience_eq (s : State) : ∃ l, patience s = .ping :: l := by
  cases s <;> exact ⟨_, rfl⟩

theorem countdown_eq (hc : c.Counted) (he : c.flagToErase = false) :
    ∃ n : ℕ, c.cntrPings = n + 1 ∧ c.countdown = .ping :: (List.replicate n .ping ++ [.pass]) := by
  obtain ⟨hpos, -⟩ := hc.resolve_left (by simp [he])
  refine ⟨c.cntrPings.toNat - 1, by omega, ?_⟩
  rw [countdown, show c.cntrPings.toNat = c.cntrPings.toNat - 1 + 1 by omega,
    List.replicate_succ]
  rfl

/-- The last thing that is due to an instance is a pass. -/
theorem pass_sublist_agenda (c : Client) : List.Sublist [.pass] (strike c.agenda .ping) := by
  have hend : ∀ l : List Tick, List.Sublist [.pass] (strike (l ++ [.pass]) .ping) := by
    intro l
    cases l with
    | nil => exact List.Sublist.refl _
    | cons k l =>
      cases k with
      | ping => exact (strike_cons_self Tick.ping (l ++ [.pass])) ▸ List.sublist_append_right l _
      | pass => exact List.sublist_append_right (.pass :: l) _
  unfold agenda
  split_ifs
  · exact hend []
  · exact hend (List.replicate c.cntrPings.toNat .ping)
  · exact hend (.pass :: List.replicate c.cntrPings.toNat .ping)
  · rw [countdown, ← List.cons_append, ← List.append_assoc]
    exact hend _

theorem erase_pinged (he : c.flagToErase = true) : (pinged c).flagToErase = true := by
  unfold pinged
  split_ifs
  · rfl
  · cases c.state with
    | disconnected =>
      unfold countDown
      dsimp only
      split_ifs
      · rfl
      · exact he
    | new | waiting | ready | playingOnTurn | playingOnStand | pinged | lost => exact he

theorem agenda_countDown (hc : c.Counted) (he : c.flagToErase = false)
    (hs : c.state = .disconnected) :
    List.Sublist (countDown c).agenda (strike c.agenda .ping) := by
  obtain ⟨n, hn, hcount⟩ := countdown_eq hc he
  rw [agenda_of_gone he hs, hcount, strike_cons_self]
  unfold countDown
  dsimp only
  split_ifs with hzero
  · exact List.sublist_append_right _ _
  · have htoNat : c.decreaseInaccessCount.cntrPings.toNat = n := by
      change (c.cntrPings - 1).toNat = n
      omega
    rw [agenda_of_gone (c := c.decreaseInaccessCount) he hs, countdown, htoNat]

/-- A client is pinged that is not Disconnected: it stays flagged, is flagged now, or has less
patience left. -/
theorem agenda_next (d : Client) (he : c.flagToErase = false) (hs : c.state ≠ .disconnected)
    (he' : d.flagToErase = false) (hs' : d.state ≠ .disconnected)
    (hcount : d.countdown = c.countdown)
    (hflag : c.flagToDisconnect = true → d.flagToDisconnect = true)
    (hnext : c.flagToDisconnect = false →
      d.flagToDisconnect = true ∧ patience c.state = [.ping] ∨
        d.flagToDisconnect = false ∧ patience c.state = .ping :: patience d.state) :
    List.Sublist d.agenda (strike c.agenda .ping) := by
  cases hd : c.flagToDisconnect with
  | true =>
    rw [agenda_of_flag he hs hd, agenda_of_flag he' hs' (hflag hd), hcount,
      strike_cons_of_ne (by decide)]
  | false =>
    rw [agenda_of_patience he hs hd]
    rcases hnext hd with ⟨hd', hp⟩ | ⟨hd', hp⟩
    · rw [agenda_of_flag he' hs' hd', hp, hcount, List.cons_append, strike_cons_self]
      exact List.Sublist.refl _
    · rw [agenda_of_patience he' hs' hd', hp, hcount, List.cons_append, strike_cons_self]

/-- A ping round strikes the first entry of an agenda, if it is a ping. -/
theorem agenda_pinged (hc : c.Counted) :
    List.Sublist (pinged c).agenda (strike c.agenda .ping) := by
  by_cases he : c.flagToErase = true
  · rw [agenda_of_erase he, agenda_of_erase (erase_pinged he)]
    exact List.Sublist.refl _
  rw [Bool.not_eq_true] at he
  unfold pinged
  split_ifs with hunnamed
  · exact pass_sublist_agenda c
  cases hs : c.state with
  | disconnected => exact agenda_countDown hc he hs
  | lost =>
    exact agenda_next (c.setFlagToDisconnect true) he (by simp [hs]) he
      (by simp [setFlagToDisconnect, hs]) rfl (fun _ => rfl)
      fun _ => Or.inl ⟨rfl, by rw [hs]; rfl⟩
  | new | waiting | ready | playingOnTurn | playingOnStand | pinged =>
    exact agenda_next (c.setState _) he (by simp [hs]) he (by simp) rfl id
      fun h => Or.inr ⟨h, by rw [hs]; rfl⟩

/-- A pass strikes the first entry of an agenda, if it is a pass and does not erase the
instance. -/
theorem agenda_settle (hc : c.Counted) (hsound : c.Sound) (he : c.flagToErase = false)
    (hghost : ¬ c.Ghost) : List.Sublist c.settle.agenda (strike c.agenda .pass) := by
  obtain ⟨n, -, hcount⟩ := countdown_eq hc he
  have hgone : c.state = .disconnected → strike c.agenda .pass = c.countdown := by
    intro hs
    rw [agenda_of_gone he hs, hcount, strike_cons_of_ne (by decide)]
  unfold settle
  split_ifs with hd hneg
  · -- an instance without a socket that is no ghost
    have hs : c.state = .disconnected := by
      by_contra hs
      exact hghost ⟨hneg, hs, he⟩
    rw [hgone hs, agenda_of_gone (c := c.setFlagToDisconnect false) he hs]
    exact List.Sublist.refl _
  · have hs : c.state ≠ .disconnected := fun hs => hneg (hsound.gone hs)
    rw [agenda_of_flag he hs hd, strike_cons_self,
      agenda_of_gone (c := (Server.disconnect c).setFlagToDisconnect false) he rfl]
    exact List.Sublist.refl _
  · rw [Bool.not_eq_true] at hd
    by_cases hs : c.state = .disconnected
    · rw [hgone hs, agenda_of_gone he hs]
    · obtain ⟨l, hl⟩ := patience_eq c.state
      rw [agenda_of_patience he hs hd, hl, List.cons_append, strike_cons_of_ne (by decide)]

theorem patience_of_accessible {s : State} (h : s.inaccessible = false) :
    patience s = [.ping, .ping, .ping] := by
  cases s <;> first | rfl | cases h

theorem disconnected_nudged (h : Nudged c c') :
    c'.state = .disconnected ↔ c.state = .disconnected := by
  rcases h.state with hs | ⟨hs, hs'⟩
  · rw [hs]
  · constructor
    · intro hd
      rw [hd] at hs'
      cases hs'
    · intro hd
      rw [hd] at hs
      cases hs

theorem agenda_nudged (h : Nudged c c') : c'.agenda = c.agenda := by
  have hpatience : patience c'.state = patience c.state := by
    rcases h.state with hs | ⟨hs, hs'⟩
    · rw [hs]
    · rw [patience_of_accessible hs, patience_of_accessible hs']
  simp only [agenda, countdown, h.erase, h.disconnect, h.count, disconnected_nudged h, hpatience]

theorem agenda_sublist (hc : c.Counted) :
    List.Sublist c.agenda [.ping, .ping, .ping, .pass, .ping, .ping, .pass] := by
  cases he : c.flagToErase with
  | true =>
    rw [agenda_of_erase he]
    decide
  | false =>
    obtain ⟨hpos, hle⟩ := hc.resolve_left (by simp [he])
    have htwo : c.cntrPings.toNat ≤ 2 := by
      unfold LONG_PING at hle
      omega
    have hcount : List.Sublist c.countdown [.ping, .ping, .pass] :=
      ((List.replicate_sublist_replicate Tick.ping).2 htwo).append_right [Tick.pass]
    unfold agenda
    rw [if_neg (by simp [he])]
    split_ifs
    · exact hcount.trans (List.sublist_append_right [Tick.ping, .ping, .ping, .pass] _)
    · exact (hcount.cons_cons Tick.pass).trans
        (List.sublist_append_right [Tick.ping, .ping, .ping] _)
    · have hpatience : List.Sublist (patience c.state) [.ping, .ping, .ping] := by
        cases c.state <;> decide
      exact hpatience.append (hcount.cons_cons Tick.pass)

/-! ### Ghosts -/

theorem ghost_nudged (h : Nudged c c') : c'.Ghost ↔ c.Ghost := by
  rw [Ghost, Ghost, h.sock, h.erase, ne_eq, ne_eq, disconnected_nudged h]

theorem ghost_settle : c.settle.Ghost ↔ c.Ghost := by
  unfold settle
  split_ifs with hd hneg
  · exact Iff.rfl
  · exact ⟨fun h => absurd rfl h.2.1, fun h => absurd h.1 hneg⟩
  · exact Iff.rfl

theorem ghost_pinged : (pinged c).Ghost ↔ c.Ghost := by
  unfold pinged
  split_ifs with hunnamed
  · constructor
    · intro h
      cases h.2.2
    · intro h
      have hneg := h.1
      omega
  cases hs : c.state with
  | disconnected =>
    have hgone : (countDown c).state = .disconnected := by
      unfold countDown
      dsimp only
      split_ifs
      · exact hs
      · exact hs
    exact ⟨fun h => absurd hgone h.2.1, fun h => absurd hs h.2.1⟩
  | lost => exact Iff.rfl
  | new | waiting | ready | playingOnTurn | playingOnStand | pinged =>
    exact ⟨fun h => ⟨h.1, by simp [hs], h.2.2⟩, fun h => ⟨h.1, by simp, h.2.2⟩⟩

theorem nick_settle (c : Client) : c.settle.nick = c.nick := by
  unfold settle
  split_ifs <;> rfl

theorem nick_pinged (c : Client) : (pinged c).nick = c.nick := by
  unfold pinged
  split_ifs
  · rfl
  · cases c.state with
    | disconnected =>
      unfold countDown
      dsimp only
      split_ifs <;> rfl
    | new | waiting | ready | playingOnTurn | playingOnStand | pinged | lost => rfl

/-- The ghosts of a list, by name. -/
def ghostNames (cs : List Client) : List Text := (cs.filter (·.Ghost)).map nick

section GhostNames

variable {cs cs' : List Client}

theorem ghostNames_cons (c : Client) (cs : List Client) :
    ghostNames (c :: cs) = (if c.Ghost then [c.nick] else []) ++ ghostNames cs := by
  unfold ghostNames
  by_cases h : c.Ghost
  · simp [h]
  · simp [h]

theorem ghostNames_nudged (h : List.Forall₂ Nudged cs cs') :
    ghostNames cs' = ghostNames cs := by
  induction h with
  | nil => rfl
  | cons hab _ ih => simp only [ghostNames_cons, ih, hab.nick, ghost_nudged hab]

theorem ghostNames_passedOver (cs : List Client) :
    ghostNames (passedOver cs) = ghostNames cs := by
  induction cs with
  | nil => rfl
  | cons c cs ih =>
    rw [ghostNames_cons, ← ih, passedOver, List.filter_cons]
    cases he : c.flagToErase with
    | true =>
      have hghost : ¬ c.Ghost := fun h => by
        have hkeep := h.2.2
        rw [he] at hkeep
        cases hkeep
      rw [if_neg hghost]
      rfl
    | false =>
      change ghostNames (c.settle :: passedOver cs) = _
      simp only [ghostNames_cons, ghost_settle, nick_settle]

theorem ghostNames_pinged (cs : List Client) :
    ghostNames (cs.map pinged) = ghostNames cs := by
  induction cs with
  | nil => rfl
  | cons c cs ih =>
    rw [List.map_cons, ghostNames_cons, ghostNames_cons, ih]
    simp only [ghost_pinged, nick_pinged]

end GhostNames

end Client

namespace Server

variable {N rooms : ℕ} {fd : ℤ} {s s' : Server} {ts : List Turn} {ticks : List Tick}

theorem stable_handled {P : Client → Prop} (hP : Stable P) (h : Handled s s')
    (hs : ∀ c ∈ s.mngClient.clients, P c) : ∀ c ∈ s'.mngClient.clients, P c := by
  induction h with
  | refl => exact hs
  | tail _ hst ih =>
    obtain ⟨l, -, hl⟩ := hst
    exact hP.handle hl ih

/-- What every setter keeps holds of every client after every pass. -/
theorem passes_stable {P : Client → Prop} (hP : Stable P)
    (h : passes.Reachable (create N rooms fd) s) : ∀ c ∈ s.mngClient.clients, P c := by
  have hboth : PassInv N s ∧ ∀ c ∈ s.mngClient.clients, P c := by
    refine System.Reachable.invariant (I := fun s => PassInv N s ∧ ∀ c ∈ s.mngClient.clients, P c)
      h ⟨passInv (.refl _), fun c hc => by cases hc⟩ fun s t s' hs hst => ⟨hs.1.step hst, ?_⟩
    obtain ⟨hinv, hall⟩ := hs
    obtain ⟨hguard, hexec⟩ := hst
    cases t with
    | update ev =>
      have hcap : s.clearSent.mngClient.clients.length < s.clearSent.maxClients := by
        change s.mngClient.clients.length < s.maxClients
        rw [hinv.maxClients]
        exact Nat.lt_succ_of_le hinv.length
      exact stable_handled hP
        (updateClients_handled (s := s.clearSent) hguard.1 hcap hguard.2 hexec) hall
    | ping => exact hP.handle (s := s.clearSent) (l := .ping) hexec hall
    | shutdown => exact hP.handle (s := s.clearSent) (l := .shutdown) hexec hall
  exact hboth.2

/-- A turn without activity strikes an entry of every agenda, and leaves the ghosts alone. -/
theorem quiet_step (h : passes.Reachable (create N rooms fd) s) {t : Turn}
    (hst : passes.Step s t s') {k : Tick} (htick : t.tick = some k) {w : List Tick}
    (hw : ∀ c ∈ s.mngClient.clients, ¬ c.Ghost → List.Sublist c.agenda w) :
    (∀ c ∈ s'.mngClient.clients, ¬ c.Ghost → List.Sublist c.agenda (strike w k)) ∧
      Client.ghostNames s'.mngClient.clients = Client.ghostNames s.mngClient.clients := by
  have hcounted := passes_stable Client.stable_counted h
  have hinv := passInv h
  obtain ⟨-, hexec⟩ := hst
  cases t with
  | update ev =>
    by_cases hquiet : ev.fds_read = [] ∧ ev.fds_except = []
    swap
    · rw [Turn.tick, if_neg hquiet] at htick
      cases htick
    rw [Turn.tick, if_pos hquiet] at htick
    cases htick
    have hcap : s.clearSent.mngClient.clients.length < s.clearSent.maxClients := by
      change s.mngClient.clients.length < s.maxClients
      rw [hinv.maxClients]
      exact Nat.lt_succ_of_le hinv.length
    have hpassed : List.Forall₂ Nudged (passedOver s.mngClient.clients) s'.mngClient.clients :=
      updateClients_quiet (s := s.clearSent) hquiet.1 hquiet.2 hcap hexec
    refine ⟨fun c' hc' hghost => ?_, ?_⟩
    · obtain ⟨i, hi⟩ := List.mem_iff_getElem?.1 hc'
      obtain ⟨d, hd, hnudged⟩ := forall₂_exists_left hpassed hi
      obtain ⟨c, hc, rfl⟩ := List.mem_map.1 (List.mem_of_getElem? hd)
      obtain ⟨hmem, he⟩ := List.mem_filter.1 hc
      rw [Client.ghost_nudged hnudged, Client.ghost_settle] at hghost
      rw [Client.agenda_nudged hnudged]
      exact (Client.agenda_settle (hcounted c hmem) (hinv.base.sound c hmem) (by simpa using he)
        hghost).trans (strike_mono (hw c hmem hghost) .pass)
    · rw [Client.ghostNames_nudged hpassed, Client.ghostNames_passedOver]
  | ping =>
    cases htick
    obtain ⟨m, hm, rfl⟩ := manage_eq_ok.1 hexec
    have hclients : m.clients = s.mngClient.clients.map pinged := (pingClients_spec hm).1
    refine ⟨fun c' hc' hghost => ?_, ?_⟩
    · obtain ⟨c, hc, rfl⟩ := List.mem_map.1 (hclients ▸ hc')
      rw [Client.ghost_pinged] at hghost
      exact (Client.agenda_pinged (hcounted c hc)).trans (strike_mono (hw c hc hghost) .ping)
    · change Client.ghostNames m.clients = _
      rw [hclients, Client.ghostNames_pinged]
  | shutdown => cases htick

/-- A run without activity strikes its entries from every agenda. -/
theorem quiet_run (h : passes.Reachable (create N rooms fd) s) (hrun : passes.Trace s ts s')
    (hquiet : ts.map Turn.tick = ticks.map some) {w : List Tick}
    (hw : ∀ c ∈ s.mngClient.clients, ¬ c.Ghost → List.Sublist c.agenda w) :
    (∀ c ∈ s'.mngClient.clients, ¬ c.Ghost → List.Sublist c.agenda (ticks.foldl strike w)) ∧
      Client.ghostNames s'.mngClient.clients = Client.ghostNames s.mngClient.clients := by
  induction hrun generalizing ticks with
  | nil =>
    obtain rfl : ticks = [] := List.map_eq_nil_iff.1 hquiet.symm
    exact ⟨hw, rfl⟩
  | @snoc s₁ ts t s₂ hrun hst ih =>
    obtain ⟨ks, k, rfl⟩ : ∃ ks k, ticks = ks ++ [k] := by
      rcases List.eq_nil_or_concat ticks with rfl | ⟨ks, k, rfl⟩
      · simp at hquiet
      · exact ⟨ks, k, List.concat_eq_append⟩
    rw [List.map_append, List.map_append] at hquiet
    obtain ⟨hinit, hlast⟩ := List.append_inj' hquiet rfl
    obtain ⟨hw₁, hghosts⟩ := ih hinit
    obtain ⟨hw₂, hghosts'⟩ := quiet_step (h.trans (System.Recorded.reachable hrun)) hst
      (List.singleton_inj.1 hlast) hw₁
    rw [List.foldl_append]
    exact ⟨hw₂, hghosts'.trans hghosts⟩

/-- **Silence leaves ghosts.**  After a run without activity that contains three ping rounds, a
pass, two ping rounds and a pass, in this order, exactly the ghosts are left, in the order in which
they were; so none, if every client was Disconnected iff it had no socket. -/
theorem silence_leaves_ghosts (h : passes.Reachable (create N rooms fd) s)
    (hrun : passes.Trace s ts s') (hquiet : ts.map Turn.tick = ticks.map some)
    (hlong : List.Sublist [.ping, .ping, .ping, .pass, .ping, .ping, .pass] ticks) :
    (∀ c ∈ s'.mngClient.clients, c.Ghost) ∧
      s'.mngClient.clients.map Client.nick =
        (s.mngClient.clients.filter (·.Ghost)).map Client.nick ∧
      (s.AllPresent → s'.mngClient.clients = []) := by
  have hcounted := passes_stable Client.stable_counted h
  obtain ⟨hdone, hghosts⟩ := quiet_run h hrun hquiet fun c hc _ =>
    Client.agenda_sublist (hcounted c hc)
  rw [foldl_strike_of_sublist hlong] at hdone
  have hall : ∀ c ∈ s'.mngClient.clients, c.Ghost := by
    intro c hc
    by_contra hghost
    have hpass := (Client.pass_sublist_agenda c).trans
      ((strike_sublist_self c.agenda .ping).trans (hdone c hc hghost))
    cases hpass
  have hleft : s'.mngClient.clients.filter (·.Ghost) = s'.mngClient.clients :=
    List.filter_eq_self.2 fun c hc => decide_eq_true (hall c hc)
  unfold Client.ghostNames at hghosts
  rw [hleft] at hghosts
  refine ⟨hall, hghosts, fun hpresent => ?_⟩
  have hnone : s.mngClient.clients.filter (·.Ghost) = [] :=
    List.filter_eq_nil_iff.2 fun c hc => by
      rw [decide_eq_true_eq]
      exact fun hghost => hghost.2.1 ((hpresent c hc).2 hghost.1)
  rw [hnone, List.map_nil, List.map_eq_nil_iff] at hghosts
  exact hghosts

/-- Two clients play; `alice`, who is on turn, logs out, and `bobby`, who was pinged, moves a stone
of hers. -/
def hauntedGame : List Turn :=
  [acceptPass 4, acceptPass 5,
    .update ⟨[4, 5], [], ([], -1), fun f =>
      .message (Frame.wire [.connect (if f = 4 then alice else bobby), .ready])⟩,
    .ping,
    .update ⟨[4, 5], [], ([], -1), fun f =>
      if f = 4 then .nothing else .message (Frame.wire [.move opening])⟩]

/-- A pass in which `select` timed out. -/
def silentPass : Turn := .update ⟨[], [], ([], -1), fun _ => .nothing⟩

/-- Five rounds of pings. -/
def silence : List Turn :=
  [.ping, silentPass, .ping, silentPass, .ping, silentPass, .ping, silentPass, .ping, silentPass]

/-- The server after the game: `alice` has become a ghost. -/
theorem silence_leaves_ghosts_haunted : ∃ s s' : Server,
    passes.Reachable (create 2 5 3) s ∧ s.mngClient.clients.length = 2 ∧
    passes.Trace s silence s' ∧ s'.mngClient.clients.length = 1 ∧
    (∀ c ∈ s'.mngClient.clients, c.Ghost) ∧
      s'.mngClient.clients.map Client.nick =
        (s.mngClient.clients.filter (·.Ghost)).map Client.nick ∧
      (s.AllPresent → s'.mngClient.clients = []) := by
  have hrun : (passes.replay (fun _ _ => True) (create 2 5 3) hauntedGame).any (fun s =>
      decide (s.mngClient.clients.length = 2) &&
        (passes.replay (fun _ _ => True) s silence).any fun s' =>
          decide (s'.mngClient.clients.length = 1)) = true := by
    decide +kernel
  obtain ⟨s, hs, ht⟩ := System.exists_reachableIf hrun
  obtain ⟨htwo, ht⟩ := Bool.and_eq_true_iff.1 ht
  obtain ⟨s', htrace, hone⟩ := System.Trace.nil.exists_of_replay ht
  have hquiet : silence.map Turn.tick =
      [Tick.ping, .pass, .ping, .pass, .ping, .pass, .ping, .pass, .ping, .pass].map some := rfl
  exact ⟨s, s', hs, of_decide_eq_true htwo, htrace, of_decide_eq_true hone,
    silence_leaves_ghosts hs htrace hquiet (by decide)⟩

end Server

end HnefServer
