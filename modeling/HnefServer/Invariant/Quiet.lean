import HnefServer.Property.Passes

/-!
# Passes without activity

When `select` times out, a pass reads no socket and accepts nobody: it closes the connections that
a ping round has flagged, erases the instances that are flagged so, and may start games between
clients that were ready.  `Passed` says so for the whole list of clients (`updateClients_passed`).
-/

namespace HnefServer

open Protocol ClientManager

/-- What a pass does to an instance that it does not erase: its connection is closed, if it is
flagged. -/
def Client.settle (c : Client) : Client :=
  if c.flagToDisconnect then
    (if c.socketNum < 0 then c else Server.disconnect c).setFlagToDisconnect false
  else c

/-- What may happen to an instance on behalf of the others: it is freed, or starts to play. -/
structure Nudged (c c' : Client) : Prop where
  nick : c'.nick = c.nick
  sock : c'.socketNum = c.socketNum
  count : c'.cntrPings = c.cntrPings
  disconnect : c'.flagToDisconnect = c.flagToDisconnect
  erase : c'.flagToErase = c.flagToErase
  state : c'.state = c.state ∨ c.state.inaccessible = false ∧ c'.state.inaccessible = false

namespace Nudged

variable {c c' c'' : Client} {cs cs' : List Client} {i j : ℕ} {m m' : ClientManager}

theorem refl (c : Client) : Nudged c c := ⟨rfl, rfl, rfl, rfl, rfl, Or.inl rfl⟩

theorem trans (h : Nudged c c') (h' : Nudged c' c'') : Nudged c c'' where
  nick := h'.nick.trans h.nick
  sock := h'.sock.trans h.sock
  count := h'.count.trans h.count
  disconnect := h'.disconnect.trans h.disconnect
  erase := h'.erase.trans h.erase
  state := by
    rcases h.state with hs | ⟨hs, hs'⟩ <;> rcases h'.state with ht | ⟨ht, ht'⟩
    · exact Or.inl (ht.trans hs)
    · exact Or.inr ⟨hs ▸ ht, ht'⟩
    · exact Or.inr ⟨hs, ht ▸ hs'⟩
    · exact Or.inr ⟨hs, ht'⟩

theorem setRoomId (id : ℕ) (c : Client) : Nudged c (c.setRoomId id) :=
  ⟨rfl, rfl, rfl, rfl, rfl, Or.inl rfl⟩

theorem toWaiting {s : State} (hs : s.inaccessible = c.state.inaccessible) :
    Nudged c (toWaiting s c) := by
  unfold ClientManager.toWaiting
  split_ifs with h
  · exact ⟨rfl, rfl, rfl, rfl, rfl, Or.inl rfl⟩
  · exact ⟨rfl, rfl, rfl, rfl, rfl, Or.inr ⟨by rw [← hs, Bool.eq_false_iff]; exact h, rfl⟩⟩

theorem settle (h : Nudged c c') : Nudged c.settle c'.settle := by
  unfold Client.settle
  rw [h.disconnect, h.sock]
  split_ifs
  · exact ⟨h.nick, h.sock, h.count, rfl, h.erase, h.state⟩
  · exact ⟨h.nick, rfl, h.count, rfl, h.erase, Or.inl rfl⟩
  · exact h

theorem all_refl (cs : List Client) : List.Forall₂ Nudged cs cs :=
  List.forall₂_same.2 fun c _ => refl c

theorem all_trans {xs ys zs : List Client} (h : List.Forall₂ Nudged xs ys)
    (h' : List.Forall₂ Nudged ys zs) : List.Forall₂ Nudged xs zs :=
  forall₂_trans h h' fun _ _ _ => trans

theorem freeClients {a b : Client} (ha : cs[i]? = some a) (hb : cs[j]? = some b) :
    List.Forall₂ Nudged cs (freeClients cs i j a b) := by
  have hfirst : List.Forall₂ Nudged cs (cs.modify i (ClientManager.toWaiting a.state)) :=
    forall₂_modify refl fun c hc => toWaiting (by rw [Option.some.inj (ha.symm.trans hc)])
  have hsecond : List.Forall₂ Nudged (cs.modify i (ClientManager.toWaiting a.state))
      ((cs.modify i (ClientManager.toWaiting a.state)).modify j
        (ClientManager.toWaiting b.state)) := by
    refine forall₂_modify refl fun c hc => toWaiting ?_
    rw [List.getElem?_modify] at hc
    obtain ⟨e, he, rfl⟩ := Option.map_eq_some_iff.1 hc
    obtain rfl : b = e := Option.some.inj (hb.symm.trans he)
    split_ifs with hij
    · subst hij
      obtain rfl : a = b := Option.some.inj (ha.symm.trans hb)
      exact toWaiting_inaccessible.symm
    · rfl
  have hrooms : ∀ (xs : List Client) (k : ℕ),
      List.Forall₂ Nudged xs (xs.modify k (·.setRoomId 0)) := fun xs k =>
    forall₂_modify refl fun c _ => setRoomId 0 c
  exact all_trans (all_trans (all_trans hfirst hsecond) (hrooms _ i)) (hrooms _ j)

/-- The clients other than the erased one. -/
theorem eraseClient (h : m.eraseClient i = .ok m') :
    List.Forall₂ Nudged (m.clients.eraseIdx i) m'.clients := by
  obtain ⟨c, -, ⟨-, rfl⟩ | ⟨-, n, m₁, m₂, -, hcs, -, hdestroy, rfl⟩⟩ := eraseClient_cases h
  · exact all_refl _
  · obtain ⟨a, b, ha, hb, hfree, -⟩ := destroyRoom_cases hdestroy
    rw [hcs] at ha hb hfree
    have hfreed := freeClients ha hb
    rw [← hfree] at hfreed
    exact forall₂_eraseIdx hfreed i

theorem pairLoop {fuel : ℕ} (h : pairLoop fuel m i = .ok m') :
    List.Forall₂ Nudged m.clients m'.clients := by
  have hpairs := pairs_of_pairLoop h
  clear h
  induction hpairs with
  | refl => exact all_refl _
  | tail _ hp ih =>
    obtain ⟨i, j, c, d, hp⟩ := hp
    have hseat : ∀ {cs : List Client} {k : ℕ} {e : Client} (id : ℕ) {st : State},
        cs[k]? = some e → e.state = .ready → st.inaccessible = false →
          List.Forall₂ Nudged cs (cs.modify k (seat id st)) := by
      intro cs k e id st he hs hst
      refine forall₂_modify refl fun a ha => ⟨rfl, rfl, rfl, rfl, rfl, Or.inr ⟨?_, hst⟩⟩
      rw [← Option.some.inj (he.symm.trans ha), hs]
      rfl
    rw [hp.clients]
    refine all_trans ih (all_trans (hseat _ hp.fst hp.fstReady rfl) (hseat _ ?_ hp.sndReady rfl))
    rw [List.getElem?_modify_ne _ _ hp.lt.ne]
    exact hp.snd

end Nudged

/-! ### The loop -/

/-- What a pass without activity leaves of a list of clients. -/
def passedOver (cs : List Client) : List Client :=
  (cs.filter fun c => !c.flagToErase).map Client.settle

/-- The same, for the clients from position `cli` on. -/
def passedFrom (cs : List Client) (cli : ℕ) : List Client := cs.take cli ++ passedOver (cs.drop cli)

section PassedFrom

variable {cs cs' : List Client} {cli : ℕ} {c : Client}

theorem passedFrom_of_le (h : cs.length ≤ cli) : passedFrom cs cli = cs := by
  rw [passedFrom, List.take_of_length_le h, List.drop_eq_nil_of_le h]
  exact List.append_nil cs

theorem passedFrom_cons (hc : cs[cli]? = some c) :
    passedFrom cs cli = cs.take cli ++ (if c.flagToErase then [] else [c.settle]) ++
      passedOver (cs.drop (cli + 1)) := by
  obtain ⟨hlt, rfl⟩ := List.getElem?_eq_some_iff.1 hc
  rw [passedFrom, List.drop_eq_getElem_cons hlt, passedOver, List.filter_cons, List.append_assoc]
  cases cs[cli].flagToErase with
  | true => rfl
  | false => rfl

theorem settle_settle (c : Client) : c.settle.settle = c.settle := by
  unfold Client.settle
  split_ifs with h₁ h₂ <;> simp_all [Client.setFlagToDisconnect]

theorem erase_settle (c : Client) : c.settle.flagToErase = c.flagToErase := by
  unfold Client.settle
  split_ifs <;> rfl

/-- An instance that was settled is still to be passed over. -/
theorem passedFrom_settle (hc : cs[cli]? = some c) :
    passedFrom (cs.modify cli Client.settle) cli = passedFrom cs cli := by
  have hc' : (cs.modify cli Client.settle)[cli]? = some c.settle := by
    rw [List.getElem?_modify_eq, hc]
    rfl
  rw [passedFrom_cons hc, passedFrom_cons hc', erase_settle, settle_settle, List.take_modify,
    List.modify_eq_self (List.length_take_le cli cs),
    List.drop_modify_of_lt _ _ _ _ cli.lt_succ_self]

/-- An erased instance is out of the list. -/
theorem passedFrom_erase (hc : cs[cli]? = some c) (herase : c.flagToErase = true) :
    passedFrom (cs.eraseIdx cli) cli = passedFrom cs cli := by
  obtain ⟨hlt, -⟩ := List.getElem?_eq_some_iff.1 hc
  have hlen : (cs.take cli).length = cli := List.length_take_of_le hlt.le
  rw [passedFrom_cons hc, if_pos herase, List.append_nil, passedFrom,
    List.eraseIdx_eq_take_drop_succ, List.take_left' hlen, List.drop_left' hlen]

/-- An instance without flags stays as it is. -/
theorem passedFrom_succ (hc : cs[cli]? = some c) (hdisc : c.flagToDisconnect = false)
    (herase : c.flagToErase = false) : passedFrom cs cli = passedFrom cs (cli + 1) := by
  obtain ⟨hlt, rfl⟩ := List.getElem?_eq_some_iff.1 hc
  have hsettle : cs[cli].settle = cs[cli] := if_neg (by simp [hdisc])
  rw [passedFrom_cons hc, herase, hsettle, passedFrom, List.take_succ_eq_append_getElem hlt]
  rfl

theorem passedOver_nudged (h : List.Forall₂ Nudged cs cs') :
    List.Forall₂ Nudged (passedOver cs) (passedOver cs') := by
  induction h with
  | nil => exact .nil
  | @cons a b _ _ hab _ ih =>
    rw [passedOver, passedOver, List.filter_cons, List.filter_cons, hab.erase]
    cases a.flagToErase with
    | true => exact ih
    | false => exact .cons hab.settle ih

theorem passedFrom_nudged (h : List.Forall₂ Nudged cs cs') :
    List.Forall₂ Nudged (passedFrom cs cli) (passedFrom cs' cli) :=
  forall₂_append (List.forall₂_take cli h) (passedOver_nudged (List.forall₂_drop cli h))

end PassedFrom

namespace Server

variable {ev : Events} {s s' : Server} {cli cli' : ℕ} {c : Client}

/-- An iteration of the loop, if no socket is ready. -/
theorem updateClient_quiet (hread : ev.fds_read = []) (hexcept : ev.fds_except = [])
    (h : updateClient ev s cli = .ok (s', cli')) :
    List.Forall₂ Nudged (passedFrom s.mngClient.clients cli)
      (passedFrom s'.mngClient.clients cli') := by
  obtain ⟨c, hderef, h₁⟩ := bind_eq_ok.1 h
  have hc := deref_eq_ok.1 hderef
  by_cases hdisc : c.flagToDisconnect = true
  · rw [if_pos hdisc] at h₁
    obtain ⟨s₁, hs₁, h₂⟩ := bind_eq_ok.1 h₁
    cases h₂
    have hsettled : s₁.mngClient.clients.modify cli (·.setFlagToDisconnect false) =
        s.mngClient.clients.modify cli Client.settle := by
      obtain ⟨c', hc', ⟨hneg, rfl⟩ | ⟨hpos, m, hcs, -, rfl⟩⟩ := closeConnection_cases hs₁
      all_goals obtain rfl : c = c' := Option.some.inj (hc.symm.trans hc')
      · refine modify_congr hc ?_
        rw [Client.settle, if_pos hdisc, if_pos hneg]
      · change m.clients.modify cli _ = _
        rw [hcs, List.modify_modify_eq]
        refine modify_congr hc ?_
        rw [Client.settle, if_pos hdisc, if_neg (not_lt.2 hpos)]
        rfl
    change List.Forall₂ Nudged _
      (passedFrom (s₁.mngClient.clients.modify cli (·.setFlagToDisconnect false)) cli)
    rw [hsettled, passedFrom_settle hc]
    exact Nudged.all_refl _
  rw [if_neg hdisc] at h₁
  rw [Bool.not_eq_true] at hdisc
  by_cases herase : c.flagToErase = true
  · rw [if_pos herase] at h₁
    obtain ⟨s₁, hs₁, h₂⟩ := bind_eq_ok.1 h₁
    cases h₂
    obtain ⟨m, hm, rfl⟩ := manage_eq_ok.1 hs₁
    rw [← passedFrom_erase hc herase]
    exact passedFrom_nudged (Nudged.eraseClient hm)
  rw [if_neg herase] at h₁
  rw [Bool.not_eq_true] at herase
  -- no descriptor is ready, so the loop goes on with the next client
  have hnext : s' = s ∧ cli' = cli + 1 := by
    rw [hread, hexcept] at h₁
    simp only [List.not_mem_nil, if_false] at h₁
    split_ifs at h₁ <;> cases h₁ <;> exact ⟨rfl, rfl⟩
  obtain ⟨rfl, rfl⟩ := hnext
  rw [passedFrom_succ hc hdisc herase]
  exact Nudged.all_refl _

theorem updateLoop_quiet (hread : ev.fds_read = []) (hexcept : ev.fds_except = []) {fuel : ℕ}
    (h : updateLoop ev fuel s cli = .ok (s', cli')) (hend : s'.mngClient.clients.length ≤ cli') :
    List.Forall₂ Nudged (passedFrom s.mngClient.clients cli) s'.mngClient.clients := by
  induction fuel generalizing s cli with
  | zero =>
    cases h
    rw [passedFrom_of_le hend]
    exact Nudged.all_refl _
  | succ fuel ih =>
    rw [updateLoop] at h
    split_ifs at h
    · obtain ⟨⟨s₁, cli₁⟩, hs₁, h₁⟩ := bind_eq_ok.1 h
      exact Nudged.all_trans (updateClient_quiet hread hexcept hs₁) (ih h₁)
    · cases h
      rw [passedFrom_of_le hend]
      exact Nudged.all_refl _

/-- **A pass without activity**, on a server that is not full. -/
theorem updateClients_quiet (hread : ev.fds_read = []) (hexcept : ev.fds_except = [])
    (hcap : s.mngClient.clients.length < s.maxClients) (h : s.updateClients ev = .ok s') :
    List.Forall₂ Nudged (passedOver s.mngClient.clients) s'.mngClient.clients := by
  obtain ⟨s₁, hs₁, h₁⟩ := bind_eq_ok.1 h
  obtain ⟨⟨s₂, cli₂⟩, hs₂, h₂⟩ := bind_eq_ok.1 h₁
  rw [acceptRequest, if_neg (by simp [hread]), checkCapacity_of_lt hcap] at hs₁
  cases hs₁
  obtain ⟨m, hm, rfl⟩ := manage_eq_ok.1 h₂
  have hfuel : s.loopWork 0 ≤ s.loopFuel := (loopWork_le s 0).trans (by rw [loopFuel, Nat.sub_zero])
  have hend := updateLoop_ends hfuel (Nat.zero_le _) hs₂
  exact Nudged.all_trans (updateLoop_quiet hread hexcept hs₂ hend.ge) (Nudged.pairLoop hm)

end Server

end HnefServer
