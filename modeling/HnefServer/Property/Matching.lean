import HnefServer.Invariant.NoFault
import Mathlib.Data.List.Nodup

/-!
# Who plays whom

The pairing takes the Ready clients two by two in the order of the vector: the two nested loops,
one of which moves the iterator of the other, leave nobody out and pair nobody twice
(`ready_clients_matched`).
-/

namespace HnefServer

open Protocol ClientManager

/-- The client at `i` is Ready. -/
def readyAt (cs : List Client) (i : ℕ) : Bool := (cs[i]?).any fun c => c.state == .ready

/-- The positions of the Ready clients from position `i` on, in the order of the vector. -/
def readyPositions (cs : List Client) (i : ℕ) : List ℕ :=
  (List.range' i (cs.length - i)).filter (readyAt cs)

section Positions

variable {cs cs' : List Client} {i j x : ℕ} {c : Client}

theorem mem_readyPositions : x ∈ readyPositions cs i ↔ i ≤ x ∧ readyAt cs x = true := by
  rw [readyPositions, List.mem_filter, List.mem_range'_1]
  constructor
  · rintro ⟨⟨hle, -⟩, hx⟩
    exact ⟨hle, hx⟩
  · rintro ⟨hle, hx⟩
    obtain ⟨c, hc, -⟩ := (Option.any_eq_true _ _).1 hx
    have hlt := (List.getElem?_eq_some_iff.1 hc).1
    exact ⟨⟨hle, by omega⟩, hx⟩

theorem readyPositions_end (hi : cs.length ≤ i) : readyPositions cs i = [] := by
  rw [readyPositions, Nat.sub_eq_zero_of_le hi]
  rfl

theorem readyPositions_ready (hc : cs[i]? = some c) (hs : c.state = .ready) :
    readyPositions cs i = i :: readyPositions cs (i + 1) := by
  have hlt := (List.getElem?_eq_some_iff.1 hc).1
  rw [readyPositions, show cs.length - i = (cs.length - (i + 1)) + 1 by omega, List.range'_succ,
    List.filter_cons_of_pos (by simp [readyAt, hc, hs])]
  rfl

/-- Clients that are not Ready are passed over. -/
theorem readyPositions_skip (hij : i ≤ j) (hnone : ∀ x, i ≤ x → x < j → readyAt cs x = false) :
    readyPositions cs i = readyPositions cs j := by
  induction j, hij using Nat.le_induction with
  | base => rfl
  | succ j hij ih =>
    rw [ih fun x hx hxj => hnone x hx (by omega)]
    rcases Nat.lt_or_ge j cs.length with hlt | hge
    · rw [readyPositions, show cs.length - j = (cs.length - (j + 1)) + 1 by omega,
        List.range'_succ, List.filter_cons_of_neg (by simp [hnone j hij (by omega)])]
      rfl
    · rw [readyPositions_end hge, readyPositions_end (by omega)]

/-- The positions depend on the clients from there on only. -/
theorem readyPositions_congr (hlen : cs'.length = cs.length)
    (h : ∀ x, i ≤ x → cs'[x]? = cs[x]?) : readyPositions cs' i = readyPositions cs i := by
  rw [readyPositions, readyPositions, hlen]
  refine List.filter_congr fun x hx => ?_
  rw [readyAt, readyAt, h x (List.mem_range'_1.1 hx).1]

end Positions

namespace ClientManager

variable {m m₁ m' : ClientManager} {i j x : ℕ} {c d : Client} {R : List ℕ}

/-- Before the next Ready client there is none. -/
theorem readyAt_of_lt_nextReady (hi : i ≤ x) (hx : x < m.nextReady i) :
    readyAt m.clients x = false := by
  cases hc : m.clients[x]? with
  | none => simp [readyAt, hc]
  | some c =>
    have hbefore : x - i < (m.clients.drop i).findIdx fun c => c.state == .ready := by
      rw [nextReady] at hx
      omega
    have hnot := List.not_of_lt_findIdx hbefore
    have hat : (m.clients.drop i)[x - i]? = some c := by
      rw [List.getElem?_drop, Nat.add_sub_cancel' hi, hc]
    obtain ⟨hlt, heq⟩ := List.getElem?_eq_some_iff.1 hat
    simp only [heq] at hnot
    simp [readyAt, hc, hnot]

/-- The clients at the positions `R` play against each other in new rooms, two by two, and nothing
else has changed. -/
structure Matched (m m' : ClientManager) (R : List ℕ) : Prop where
  /-- Half as many rooms as clients are created. -/
  created : m'.lobby.roomsTotal = m.lobby.roomsTotal + R.length / 2 ∧
    m'.lobby.games.length = m.lobby.games.length + R.length / 2
  /-- The rooms that were there are as they were. -/
  rooms : ∀ k, k < m.lobby.games.length → m'.lobby.games[k]? = m.lobby.games[k]?
  /-- The new rooms have consecutive ids; the first player of each is black and on turn. -/
  pairs : ∀ n i j c d, R[2 * n]? = some i → R[2 * n + 1]? = some j → m.clients[i]? = some c →
    m.clients[j]? = some d →
      m'.lobby.games[m.lobby.games.length + n]? =
        some (RoomHnefatafl.create (m.lobby.roomsTotal + 1 + n) c.nick d.nick) ∧
      m'.clients[i]? = some (seat (m.lobby.roomsTotal + 1 + n) .playingOnTurn c) ∧
      m'.clients[j]? = some (seat (m.lobby.roomsTotal + 1 + n) .playingOnStand d)
  /-- The other clients are as they were. -/
  others : ∀ x, x ∉ R.take (2 * (R.length / 2)) → m'.clients[x]? = m.clients[x]?

theorem Matched.nil (m : ClientManager) : Matched m m [] where
  created := ⟨rfl, rfl⟩
  rooms := fun _ _ => rfl
  pairs := by
    intro n i j c d hi
    cases hi
  others := fun _ _ => rfl

/-- A single client stays alone. -/
theorem Matched.single (h : Matched m m' []) (i : ℕ) : Matched m m' [i] where
  created := by simpa using h.created
  rooms := h.rooms
  pairs := by
    intro n i j c d hi hj
    simp at hj
  others := by
    intro x _
    exact h.others x (by simp)

/-- A pair of clients before the others. -/
theorem Matched.cons (hp : Paired m m₁ i j c d) (h : Matched m₁ m' R)
    (hR : ∀ x ∈ R, x ≠ i ∧ x ≠ j) : Matched m m' (i :: j :: R) := by
  have htotal : m₁.lobby.roomsTotal = m.lobby.roomsTotal + 1 := by
    rw [hp.lobby]
    rfl
  have hgames : m₁.lobby.games =
      m.lobby.games ++ [RoomHnefatafl.create (m.lobby.roomsTotal + 1) c.nick d.nick] := by
    rw [hp.lobby]
    rfl
  have hlen : m₁.lobby.games.length = m.lobby.games.length + 1 := by simp [hgames]
  have hhalf : (i :: j :: R).length / 2 = R.length / 2 + 1 := by
    rw [List.length_cons, List.length_cons]
    omega
  have hclients : ∀ x, x ≠ i → x ≠ j → m₁.clients[x]? = m.clients[x]? := by
    intro x hxi hxj
    rw [hp.clients, List.getElem?_modify_ne _ _ hxj.symm, List.getElem?_modify_ne _ _ hxi.symm]
  have hleft : ∀ x, (∀ y ∈ R, y ≠ x) → m'.clients[x]? = m₁.clients[x]? := fun x hx =>
    h.others x fun hmem => hx x (List.mem_of_mem_take hmem) rfl
  refine ⟨⟨?_, ?_⟩, fun k hk => ?_, ?_, fun x hx => ?_⟩
  · rw [h.created.1, htotal, hhalf]
    omega
  · rw [h.created.2, hlen, hhalf]
    omega
  · rw [h.rooms k (by omega), hgames, List.getElem?_append_left hk]
  · rintro (_ | n) a b e f ha hb he hf
    · -- the pair itself, which the later pairs leave alone
      obtain rfl : i = a := by simpa using ha
      obtain rfl : j = b := by simpa using hb
      obtain rfl : c = e := Option.some.inj (hp.fst.symm.trans he)
      obtain rfl : d = f := Option.some.inj (hp.snd.symm.trans hf)
      have hij : i ≠ j := hp.lt.ne
      refine ⟨?_, ?_, ?_⟩
      · rw [h.rooms _ (by omega), hgames]
        simp
      · rw [hleft i fun y hy => (hR y hy).1, hp.clients, List.getElem?_modify_ne _ _ hij.symm,
          List.getElem?_modify_eq, he]
        rfl
      · rw [hleft j fun y hy => (hR y hy).2, hp.clients, List.getElem?_modify_eq,
          List.getElem?_modify_ne _ _ hij, hf]
        rfl
    · have ha : R[2 * n]? = some a := by simpa [Nat.mul_succ] using ha
      have hb : R[2 * n + 1]? = some b := by simpa [Nat.mul_succ] using hb
      obtain ⟨hai, haj⟩ := hR a (List.mem_of_getElem? ha)
      obtain ⟨hbi, hbj⟩ := hR b (List.mem_of_getElem? hb)
      have hnext := h.pairs n a b e f ha hb ((hclients a hai haj).trans he)
        ((hclients b hbi hbj).trans hf)
      have hpos : m.lobby.games.length + 1 + n = m.lobby.games.length + (n + 1) := by omega
      have hid : m.lobby.roomsTotal + 1 + 1 + n = m.lobby.roomsTotal + 1 + (n + 1) := by omega
      rwa [hlen, htotal, hpos, hid] at hnext
  · rw [hhalf, Nat.mul_succ] at hx
    simp only [List.take_succ_cons, List.mem_cons, not_or] at hx
    rw [h.others x hx.2.2, hclients x hx.1 hx.2.1]

/-- **The pairing takes the Ready clients two by two**: what holds of no Ready client and of a
single one, and of a pair before the others, holds of the pairing from position `i` on. -/
theorem pairLoop_induction {P : ClientManager → List ℕ → ClientManager → Prop}
    (hnil : ∀ m, P m [] m) (hsingle : ∀ m x m', P m [] m' → P m [x] m')
    (hcons : ∀ m m₁ m' x y c d R, Paired m m₁ x y c d →
      m₁.sent = m.sent ++ [(x, composeMsgInGame SC_TURN_YOU d.nick),
        (y, composeMsgInGame SC_TURN_OPN c.nick)] →
      (∀ z ∈ R, z ≠ x ∧ z ≠ y) → P m₁ R m' → P m (x :: y :: R) m')
    {fuel : ℕ} (hfuel : m.clients.length ≤ fuel + i) (h : pairLoop fuel m i = .ok m') :
    P m (readyPositions m.clients i) m' := by
  induction fuel generalizing m i with
  | zero =>
    cases h
    rw [readyPositions_end (by omega)]
    exact hnil _
  | succ fuel ih =>
    rcases pairLoop_cases_sent h with ⟨hi, rfl⟩ | ⟨m₁, c, d, hp, hsent, hrest⟩ |
      ⟨c, hc, hnot, hrest⟩
    · rw [readyPositions_end hi]
      exact hnil _
    · have hlt := hp.lt
      have hlen : m₁.clients.length = m.clients.length := by simp [hp.clients]
      have hbehind : readyPositions m₁.clients (m.nextReady (i + 1) + 1) =
          readyPositions m.clients (m.nextReady (i + 1) + 1) := by
        refine readyPositions_congr hlen fun x hx => ?_
        rw [hp.clients, List.getElem?_modify_ne _ _ (by omega),
          List.getElem?_modify_ne _ _ (by omega)]
      rw [readyPositions_ready hp.fst hp.fstReady,
        readyPositions_skip hlt fun x hx hxj => readyAt_of_lt_nextReady hx hxj,
        readyPositions_ready hp.snd hp.sndReady, ← hbehind]
      refine hcons _ _ _ _ _ _ _ _ hp hsent (fun x hx => ?_) (ih (by omega) hrest)
      have hle := (mem_readyPositions.1 hx).1
      omega
    · have hrest := ih (by omega) hrest
      by_cases hs : c.state = .ready
      · -- there is no other Ready client
        have hend : m.clients.length ≤ m.nextReady (i + 1) :=
          not_lt.1 fun hlt => hnot ⟨hs, hlt⟩
        have hnone : readyPositions m.clients (i + 1) = [] := by
          rcases Nat.lt_or_ge (i + 1) (m.nextReady (i + 1)) with hle | hge
          · rw [readyPositions_skip hle.le fun x hx hxj => readyAt_of_lt_nextReady hx hxj,
              readyPositions_end hend]
          · exact readyPositions_end (by omega)
        rw [hnone] at hrest
        rw [readyPositions_ready hc hs, hnone]
        exact hsingle _ _ _ hrest
      · rwa [readyPositions_skip (Nat.le_succ i) fun x hx hxi => ?_]
        obtain rfl : x = i := by omega
        simp [readyAt, hc, hs]

/-- **The pairing matches the Ready clients** from position `i` on. -/
theorem matched_pairLoop {fuel : ℕ} (hfuel : m.clients.length ≤ fuel + i)
    (h : pairLoop fuel m i = .ok m') : Matched m m' (readyPositions m.clients i) :=
  pairLoop_induction (P := fun m R m' => Matched m m' R) Matched.nil
    (fun _ x _ hrest => hrest.single x) (fun _ _ _ _ _ _ _ _ hp _ hR hrest => .cons hp hrest hR)
    hfuel h

/-- **Who plays whom.**  Let `R` be the Ready clients in the order of the vector.  The pairing
returns, and sends every two of them to a new room; if their number is odd the last one stays
Ready, and the clients that are not in `R` stay as they were. -/
theorem ready_clients_matched (m : ClientManager) :
    ∃ m' R, m.moveReadyClientsToPlay = .ok m' ∧ R = readyPositions m.clients 0 ∧
      Matched m m' R ∧
      (∀ x, R.length % 2 = 1 → R[R.length - 1]? = some x →
        m'.clients[x]? = m.clients[x]? ∧ readyAt m'.clients x = true) ∧
      ∀ x, x ∉ R → m'.clients[x]? = m.clients[x]? := by
  obtain ⟨m', h⟩ : Returns m.moveReadyClientsToPlay := Hall.returns_pairLoop _
  have hmatched := matched_pairLoop (by omega) h
  refine ⟨m', _, h, rfl, hmatched, fun x hodd hx => ?_, fun x hx => ?_⟩
  · have hlast : x ∉ (readyPositions m.clients 0).take
        (2 * ((readyPositions m.clients 0).length / 2)) := by
      intro hmem
      obtain ⟨k, hk⟩ := List.mem_iff_getElem?.1 hmem
      rw [List.getElem?_take] at hk
      split_ifs at hk with hlt
      have hnodup : (readyPositions m.clients 0).Nodup := List.Nodup.filter _ List.nodup_range'
      have hkl : k < (readyPositions m.clients 0).length := by omega
      have hkx := (List.getElem?_inj hkl hnodup).1 (hk.trans hx.symm)
      omega
    have hsame := hmatched.others x hlast
    refine ⟨hsame, ?_⟩
    rw [readyAt, hsame]
    exact (mem_readyPositions.1 (List.mem_of_getElem? hx)).2
  · exact hmatched.others x fun hmem => hx (List.mem_of_mem_take hmem)

end ClientManager

end HnefServer
