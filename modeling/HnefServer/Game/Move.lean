import HnefServer.Game.Room
import Mathlib.Tactic.Ring
import Mathlib.Tactic.Push

/-!
# What a move does

* `RoomHnefatafl.processMove_cases` : an accepted move is valid, moves the stone, captures, and
  swaps the players; a rejected one only stores the coordinates.
* `RoomHnefatafl.isValidMove_spec` : what an accepted move has checked about the two squares.
* `RoomHnefatafl.checkCaptures_spec` : the captures only take warriors off the board, and the
  game stays open only if the King is not on a corner.
* `RoomHnefatafl.processMove_returns` : no move faults, whatever the board.
-/

namespace HnefServer

theorem square_eq_ok {y x : ℤ} {q : Square} :
    square y x = .ok q ↔ (q.1.val : ℤ) = y ∧ (q.2.val : ℤ) = x := by
  obtain ⟨⟨a, ha⟩, ⟨b, hb⟩⟩ := q
  by_cases h : (0 ≤ y ∧ y < SIZE) ∧ (0 ≤ x ∧ x < SIZE)
  · rw [square, dif_pos h]
    simp only [Except.ok.injEq, Prod.mk.injEq, Fin.mk.injEq]
    omega
  · rw [square, dif_neg h]
    simp only [SIZE] at h
    simp only [reduceCtorEq, false_iff]
    omega

theorem exists_square {y x : ℤ} (hy : 0 ≤ y ∧ y < SIZE) (hx : 0 ≤ x ∧ x < SIZE) :
    ∃ q, square y x = .ok q :=
  ⟨_, dif_pos ⟨hy, hx⟩⟩

namespace Playfield

variable {pf pf' : Playfield} {y x : ℤ} {f : Field}

theorem get_eq_ok : pf.get y x = .ok f ↔ ∃ q, square y x = .ok q ∧ pf q = f := by
  simp [get, bind_eq_ok]

theorem set_eq_ok :
    pf.set y x f = .ok pf' ↔ ∃ q, square y x = .ok q ∧ Function.update pf q f = pf' := by
  simp [set, bind_eq_ok]

theorem get_returns (hy : 0 ≤ y ∧ y < SIZE) (hx : 0 ≤ x ∧ x < SIZE) :
    Returns (pf.get y x) :=
  Returns.bind (exists_square hy hx) fun _ _ => .ok _

theorem set_returns (hy : 0 ≤ y ∧ y < SIZE) (hx : 0 ≤ x ∧ x < SIZE) :
    Returns (pf.set y x f) :=
  Returns.bind (exists_square hy hx) fun _ _ => .ok _

/-- Warriors are taken off the board, one after the other. -/
def Captures : Playfield → Playfield → Prop :=
  Relation.ReflTransGen fun pf pf' =>
    ∃ q, (pf q = .sBlack ∨ pf q = .sWhite) ∧ pf' = Function.update pf q .fEmpty

end Playfield

namespace RoomHnefatafl

variable {r r' : RoomHnefatafl} {t : Text} {b : Bool}

/-! ### The parts of a move -/

theorem parseMove_spec (h : r.parseMove t = .ok r') :
    ∃ a b c d, r' = r.setCoordinates a b c d := by
  simp only [parseMove, bind_eq_ok, pure_eq_ok, Except.ok.injEq] at h
  obtain ⟨a, -, b, -, c, -, d, -, rfl⟩ := h
  exact ⟨a, b, c, d, rfl⟩

/-- What an accepted move has checked about the field it leaves and the field it enters. -/
def LegalFields (r : RoomHnefatafl) (fromField toField : Field) : Prop :=
  (r.onTurn = r.black ∧ fromField = .sBlack ∧ toField = .fEmpty) ∨
  (r.onTurn = r.white ∧ fromField = .sWhite ∧ toField = .fEmpty) ∨
  (r.onTurn = r.white ∧ fromField = .sKing ∧
    (toField = .fEmpty ∨ toField = .fThrone ∨ toField = .fEscape))

theorem LegalFields.ne {f g : Field} (h : r.LegalFields f g) : f ≠ g := by
  rintro rfl
  rcases h with ⟨-, h₁, h₂⟩ | ⟨-, h₁, h₂⟩ | ⟨-, h₁, h₂⟩ <;> simp [h₁] at h₂

theorem isValidMove_spec (h : r.isValidMove = .ok true) :
    ∃ p q, square r.yFrom r.xFrom = .ok p ∧ square r.yTo r.xTo = .ok q ∧
      r.LegalFields (r.pf p) (r.pf q) := by
  unfold isValidMove at h
  split_ifs at h
  · obtain ⟨fromField, hfrom, h⟩ := bind_eq_ok.1 h
    obtain ⟨toField, hto, h⟩ := bind_eq_ok.1 h
    obtain ⟨p, hp, rfl⟩ := Playfield.get_eq_ok.1 hfrom
    obtain ⟨q, hq, rfl⟩ := Playfield.get_eq_ok.1 hto
    refine ⟨p, q, hp, hq, ?_⟩
    split_ifs at h with h₁ h₂ h₃ h₄ h₅ h₆
    · exact Or.inl ⟨h₁.1, h₁.2, h₂⟩
    · cases h
    · exact Or.inr (Or.inl ⟨h₃.1, h₃.2, h₄⟩)
    · cases h
    · exact Or.inr (Or.inr ⟨h₅.1, h₅.2, h₆⟩)
    · cases h
    · cases h
  · cases h

/-- The middle of the board. -/
def centre : Square := (5, 5)

/-- The board after the stone on `p` has moved to `q`. -/
def relocate (pf : Playfield) (p q : Square) : Playfield :=
  Function.update (Function.update pf q (pf p)) p (if p = centre then .fThrone else .fEmpty)

theorem move_eq {p q : Square} (hp : square r.yFrom r.xFrom = .ok p)
    (hq : square r.yTo r.xTo = .ok q) : r.move = .ok { r with pf := relocate r.pf p q } := by
  have hc : (r.yFrom = SIZE / 2 ∧ r.xFrom = SIZE / 2) ↔ p = centre := by
    obtain ⟨h₁, h₂⟩ := square_eq_ok.1 hp
    simp only [SIZE, centre, Prod.ext_iff, Fin.ext_iff]
    omega
  simp only [move, Playfield.get, Playfield.set, hp, hq, ok_bind, pure_eq_ok, hc, relocate]
  split_ifs <;> rfl

theorem captureSide_spec {surrounded : Field → Field → Bool} {inBounds : Prop}
    [Decidable inBounds] {y x y' x' : ℤ} {pf pf' : Playfield}
    (hs : ∀ f g, surrounded f g = true → f = .sBlack ∨ f = .sWhite)
    (h : captureSide surrounded inBounds y x y' x' pf = .ok pf') : pf.Captures pf' := by
  unfold captureSide at h
  split_ifs at h
  · obtain ⟨f, hf, h₁⟩ := bind_eq_ok.1 h
    obtain ⟨g, -, h₂⟩ := bind_eq_ok.1 h₁
    split_ifs at h₂ with hsur
    · obtain ⟨q, hq, rfl⟩ := Playfield.get_eq_ok.1 hf
      obtain ⟨q', hq', rfl⟩ := Playfield.set_eq_ok.1 h₂
      obtain rfl : q = q' := Except.ok.inj (hq.symm.trans hq')
      exact .single ⟨q, hs _ _ hsur, rfl⟩
    · cases h₂
      exact .refl
  · cases h
    exact .refl

theorem checkCaptureWarrior_spec {surrounded : Field → Field → Bool}
    (hs : ∀ f g, surrounded f g = true → f = .sBlack ∨ f = .sWhite)
    (h : r.checkCaptureWarrior surrounded = .ok r') :
    ∃ pf, r.pf.Captures pf ∧ r' = { r with pf } := by
  simp only [checkCaptureWarrior, bind_eq_ok, pure_eq_ok, Except.ok.injEq] at h
  obtain ⟨pf₁, h₁, pf₂, h₂, pf₃, h₃, pf₄, h₄, rfl⟩ := h
  exact ⟨pf₄, (((captureSide_spec hs h₁).trans (captureSide_spec hs h₂)).trans
    (captureSide_spec hs h₃)).trans (captureSide_spec hs h₄), rfl⟩

theorem isSurroundedBlack_adjacent (f g : Field) (h : isSurroundedBlack f g = true) :
    f = .sBlack ∨ f = .sWhite := by
  simp only [isSurroundedBlack, Bool.and_eq_true, beq_iff_eq] at h
  exact Or.inl h.1

theorem isSurroundedWhite_adjacent (f g : Field) (h : isSurroundedWhite f g = true) :
    f = .sBlack ∨ f = .sWhite := by
  simp only [isSurroundedWhite, Bool.and_eq_true, beq_iff_eq] at h
  exact Or.inr h.1

/-- A corner of the board. -/
def IsCorner (q : Square) : Prop := (q.1 = 0 ∨ q.1 = 10) ∧ (q.2 = 0 ∨ q.2 = 10)

instance : DecidablePred IsCorner := fun q =>
  inferInstanceAs (Decidable ((q.1 = 0 ∨ q.1 = 10) ∧ (q.2 = 0 ∨ q.2 = 10)))

/-- The captures take warriors off the board, and the game goes on only if the stone that was
moved is not the King on a corner. -/
theorem checkCaptures_spec (h : r.checkCaptures = .ok r') {q : Square}
    (hq : square r.yTo r.xTo = .ok q) :
    ∃ pf gs, r.pf.Captures pf ∧ r' = { r with pf, gameState := gs } ∧
      (gs = .gameover ∨ gs = r.gameState ∧ ¬ (r.pf q = .sKing ∧ IsCorner q)) := by
  have hcorner : ((r.xTo = 0 ∨ r.xTo = SIZE - 1) ∧ (r.yTo = 0 ∨ r.yTo = SIZE - 1)) ↔
      IsCorner q := by
    obtain ⟨h₁, h₂⟩ := square_eq_ok.1 hq
    simp only [SIZE, IsCorner, Fin.ext_iff, ← h₁, ← h₂]
    simp only [Fin.val_zero, show ((10 : Fin 11) : ℕ) = 10 from rfl]
    omega
  simp only [checkCaptures, Playfield.get, hq, ok_bind, pure_eq_ok, hcorner] at h
  split_ifs at h with hk hc hw hb
  · cases h
    exact ⟨r.pf, .gameover, .refl, rfl, Or.inl rfl⟩
  · cases h
    exact ⟨r.pf, r.gameState, .refl, rfl, Or.inr ⟨rfl, fun h => hc h.2⟩⟩
  · obtain ⟨pf, hpf, rfl⟩ := checkCaptureWarrior_spec isSurroundedBlack_adjacent h
    exact ⟨pf, r.gameState, hpf, rfl, Or.inr ⟨rfl, fun h => hk h.1⟩⟩
  · obtain ⟨r₁, h₁, h⟩ := bind_eq_ok.1 h
    obtain ⟨pf, hpf, rfl⟩ := checkCaptureWarrior_spec isSurroundedWhite_adjacent h₁
    obtain ⟨captured, -, h⟩ := bind_eq_ok.1 h
    split_ifs at h
    · cases h
      exact ⟨pf, .gameover, hpf, rfl, Or.inl rfl⟩
    · cases h
      exact ⟨pf, r.gameState, hpf, rfl, Or.inr ⟨rfl, fun h => hk h.1⟩⟩
  · cases h
    exact ⟨r.pf, r.gameState, .refl, rfl, Or.inr ⟨rfl, fun h => hk h.1⟩⟩

/-- **What a move does.**  A rejected move only stores the coordinates.  An accepted one was
made by the player on turn with a stone of its own from `p` to `q`; it moves the stone, takes
warriors off the board and swaps the players, and the game goes on only if the King is not on a
corner. -/
theorem processMove_cases (h : r.processMove t = .ok (r', b)) :
    (b = false ∧ ∃ a b c d, r' = r.setCoordinates a b c d) ∨
    (b = true ∧ ∃ p q pf gs a b c d, r.LegalFields (r.pf p) (r.pf q) ∧
      (relocate r.pf p q).Captures pf ∧
      (gs = .gameover ∨ gs = r.gameState ∧ ¬ (r.pf p = .sKing ∧ IsCorner q)) ∧
      square b a = .ok p ∧ square d c = .ok q ∧
      r' = { r.setCoordinates a b c d with pf, gameState := gs }.swapPlayers) := by
  unfold processMove at h
  obtain ⟨r₁, hparse, h₁⟩ := bind_eq_ok.1 h
  obtain ⟨valid, hvalid, h₂⟩ := bind_eq_ok.1 h₁
  obtain ⟨a, b', c, d, rfl⟩ := parseMove_spec hparse
  cases valid with
  | false =>
    obtain ⟨rfl, rfl⟩ : r.setCoordinates a b' c d = r' ∧ false = b := by simpa using h₂
    exact Or.inl ⟨rfl, a, b', c, d, rfl⟩
  | true =>
    obtain ⟨p, q, hp, hq, hlegal⟩ := isValidMove_spec hvalid
    simp only [if_true, move_eq hp hq, ok_bind] at h₂
    obtain ⟨r₂, hcap, h₃⟩ := bind_eq_ok.1 h₂
    obtain ⟨pf, gs, hpf, rfl, hgs⟩ := checkCaptures_spec hcap hq
    obtain ⟨rfl, rfl⟩ : _ ∧ true = b := by simpa using h₃
    refine Or.inr ⟨rfl, p, q, pf, gs, a, b', c, d, hlegal, hpf, ?_, hp, hq, rfl⟩
    refine hgs.imp_right fun ⟨h₁, h₂⟩ => ⟨h₁, fun ⟨hk, hc⟩ => h₂ ⟨?_, hc⟩⟩
    -- the stone on `q` after the move is the one that was on `p`
    have hne : q ≠ p := fun hqp => hlegal.ne (congrArg r.pf hqp.symm)
    change relocate r.pf p q q = .sKing
    rw [relocate, Function.update_of_ne hne, Function.update_self]
    exact hk

/-- A move keeps the players and swaps their turn, if it is accepted. -/
theorem processMove_players (h : r.processMove t = .ok (r', b)) :
    r'.roomId = r.roomId ∧ r'.black = r.black ∧ r'.white = r.white ∧
      (b = false ∧ r'.onTurn = r.onTurn ∧ r'.onStand = r.onStand ∧ r'.pf = r.pf ∧
          r'.gameState = r.gameState ∨
        b = true ∧ r'.onTurn = r.onStand ∧ r'.onStand = r.onTurn) := by
  rcases processMove_cases h with ⟨rfl, _, _, _, _, rfl⟩ |
    ⟨rfl, _, _, _, _, _, _, _, _, -, -, -, -, -, rfl⟩
  · exact ⟨rfl, rfl, rfl, Or.inl ⟨rfl, rfl, rfl, rfl, rfl⟩⟩
  · exact ⟨rfl, rfl, rfl, Or.inr ⟨rfl, rfl, rfl⟩⟩

/-! ### No move faults -/

theorem parseCoordinate_returns (hlen : t.length = 8) (ht : ∀ c ∈ t, c.isDigit = true) {pos : ℕ}
    (hpos : pos ≤ 6) : Returns (parseCoordinate t pos) := by
  have h₁ : pos < t.length := by omega
  have h₂ : pos + 1 < t.length := by omega
  have hsub : Text.substr t pos 2 = .ok [t[pos], t[pos + 1]] := by
    rw [Text.substr, if_pos (by omega), List.drop_eq_getElem_cons (by omega),
      List.drop_eq_getElem_cons (by omega)]
    rfl
  have hstoi := Text.stoi_two (ht _ (List.getElem_mem h₁)) (ht _ (List.getElem_mem h₂))
  simp only [parseCoordinate, hsub, hstoi]
  exact .ok _

theorem parseMove_returns (hlen : t.length = 8) (ht : ∀ c ∈ t, c.isDigit = true) :
    Returns (r.parseMove t) :=
  (parseCoordinate_returns hlen ht (by omega)).bind fun _ _ =>
    (parseCoordinate_returns hlen ht (by omega)).bind fun _ _ =>
      (parseCoordinate_returns hlen ht (by omega)).bind fun _ _ =>
        (parseCoordinate_returns hlen ht (by omega)).bind fun _ _ => .ok _

/-- The loop of `isFreePath` ends at its target if the fields before it can be read. -/
theorem freePathLoop_returns {line : ℤ → Except Fault Field} {shift target : ℤ} (n : ℕ) :
    ∀ (fuel : ℕ) (i : ℤ), n < fuel → target = i + n * shift →
      (∀ k : ℕ, k < n → Returns (line (i + k * shift))) →
      Returns (freePathLoop line shift target fuel i) := by
  induction n with
  | zero =>
    intro fuel i hfuel htarget _
    obtain ⟨fuel, rfl⟩ : ∃ m, fuel = m + 1 := ⟨fuel - 1, by omega⟩
    have hi : i = target := by simp at htarget; omega
    rw [freePathLoop, if_pos hi]
    exact .ok true
  | succ n ih =>
    intro fuel i hfuel htarget hline
    obtain ⟨fuel, rfl⟩ : ∃ m, fuel = m + 1 := ⟨fuel - 1, by omega⟩
    rw [freePathLoop]
    split_ifs with hi
    · exact .ok true
    · refine Returns.bind (by simpa using hline 0 (by omega)) fun f _ => ?_
      split_ifs
      · exact .ok false
      · refine ih fuel (i + shift) (by omega) ?_ fun k hk => ?_
        · rw [htarget]
          push_cast
          ring
        · have h := hline (k + 1) (by omega)
          rwa [show i + ((k + 1 : ℕ) : ℤ) * shift = i + shift + k * shift by push_cast; ring] at h

/-- The path between two squares of the board that differ can be read. -/
theorem freeLine_returns {line : ℤ → Except Fault Field} {start target : ℤ}
    (hline : ∀ i, 0 ≤ i → i < SIZE → Returns (line i)) (hs : 0 ≤ start ∧ start < SIZE)
    (ht : 0 ≤ target ∧ target < SIZE) (hne : start ≠ target) :
    Returns (freePathLoop line (if start < target then 1 else -1) target pathFuel
      (start + if start < target then 1 else -1)) := by
  simp only [SIZE] at hline hs ht
  simp only [pathFuel]
  split_ifs with h
  · refine freePathLoop_returns (target - start - 1).toNat _ _ (by omega) (by omega)
      fun k hk => ?_
    exact hline _ (by omega) (by omega)
  · refine freePathLoop_returns (start - target - 1).toNat _ _ (by omega) (by omega)
      fun k hk => ?_
    exact hline _ (by omega) (by omega)

/-- The coordinates of the move are on the board. -/
structure OnBoard (r : RoomHnefatafl) : Prop where
  xFrom : 0 ≤ r.xFrom ∧ r.xFrom < SIZE
  yFrom : 0 ≤ r.yFrom ∧ r.yFrom < SIZE
  xTo : 0 ≤ r.xTo ∧ r.xTo < SIZE
  yTo : 0 ≤ r.yTo ∧ r.yTo < SIZE

theorem isWithinPf_iff : r.isWithinPf = true ↔ r.OnBoard := by
  simp only [isWithinPf, Bool.and_eq_true, decide_eq_true_eq]
  exact ⟨fun ⟨⟨⟨h₁, h₂⟩, h₃⟩, h₄⟩ => ⟨h₁, h₂, h₃, h₄⟩,
    fun ⟨h₁, h₂, h₃, h₄⟩ => ⟨⟨⟨h₁, h₂⟩, h₃⟩, h₄⟩⟩

theorem isFreePath_returns (hr : r.OnBoard) (hne : r.xFrom ≠ r.xTo ∨ r.yFrom ≠ r.yTo) :
    Returns r.isFreePath := by
  unfold isFreePath
  by_cases h₁ : r.yFrom = r.yTo
  · rw [if_pos h₁]
    exact freeLine_returns (fun i h h' => Playfield.get_returns hr.yFrom ⟨h, h'⟩) hr.xFrom hr.xTo
      (hne.resolve_right (not_not.2 h₁))
  · rw [if_neg h₁]
    by_cases h₂ : r.xFrom = r.xTo
    · rw [if_pos h₂]
      exact freeLine_returns (fun i h h' => Playfield.get_returns ⟨h, h'⟩ hr.xFrom) hr.yFrom
        hr.yTo h₁
    · rw [if_neg h₂]
      exact .ok true

theorem isClearLine_returns (hr : r.OnBoard) (hne : r.xFrom ≠ r.xTo ∨ r.yFrom ≠ r.yTo) :
    Returns r.isClearLine := by
  unfold isClearLine
  split_ifs
  · exact isFreePath_returns hr hne
  · exact .ok false

theorem isValidMove_returns : Returns r.isValidMove := by
  unfold isValidMove
  split_ifs with hw
  · have hr := isWithinPf_iff.1 hw
    obtain ⟨p, hp⟩ := exists_square hr.yFrom hr.xFrom
    obtain ⟨q, hq⟩ := exists_square hr.yTo hr.xTo
    -- the fields of the two squares differ on every branch that looks at the path
    have hne : r.pf p ≠ r.pf q → r.xFrom ≠ r.xTo ∨ r.yFrom ≠ r.yTo := by
      intro hpq
      by_contra hc
      push Not at hc
      rw [hc.1, hc.2, hq] at hp
      exact hpq (congrArg r.pf (Except.ok.inj hp).symm)
    simp only [Playfield.get, hp, hq, ok_bind, pure_eq_ok]
    split_ifs with h₁ h₂ h₃ h₄ h₅ h₆
    · exact isClearLine_returns hr (hne (by simp [h₁.2, h₂]))
    · exact .ok false
    · exact isClearLine_returns hr (hne (by simp [h₃.2, h₄]))
    · exact .ok false
    · refine isClearLine_returns hr (hne ?_)
      rcases h₆ with h | h | h <;> simp [h₅.2, h]
    · exact .ok false
    · exact .ok false
  · exact .ok false

theorem captureSide_returns {surrounded : Field → Field → Bool} {inBounds : Prop}
    [Decidable inBounds] {y x y' x' : ℤ} {pf : Playfield}
    (h : inBounds → ((0 ≤ y ∧ y < SIZE) ∧ (0 ≤ x ∧ x < SIZE)) ∧
      ((0 ≤ y' ∧ y' < SIZE) ∧ (0 ≤ x' ∧ x' < SIZE))) :
    Returns (captureSide surrounded inBounds y x y' x' pf) := by
  unfold captureSide
  split_ifs with hin
  · obtain ⟨⟨hy, hx⟩, hy', hx'⟩ := h hin
    refine (Playfield.get_returns hy hx).bind fun f _ => ?_
    refine (Playfield.get_returns hy' hx').bind fun g _ => ?_
    split_ifs
    · exact Playfield.set_returns hy hx
    · exact .ok pf
  · exact .ok pf

theorem checkCaptureWarrior_returns {surrounded : Field → Field → Bool}
    (hx : 0 ≤ r.xTo ∧ r.xTo < SIZE) (hy : 0 ≤ r.yTo ∧ r.yTo < SIZE) :
    Returns (r.checkCaptureWarrior surrounded) := by
  simp only [SIZE] at hx hy
  unfold checkCaptureWarrior
  refine (captureSide_returns ?_).bind fun _ _ => (captureSide_returns ?_).bind fun _ _ =>
    (captureSide_returns ?_).bind fun _ _ => (captureSide_returns ?_).bind fun _ _ => .ok _
  all_goals simp only [SIZE]; omega

theorem closedSide_returns {inBounds : Prop} [Decidable inBounds] {y x : ℤ}
    (h : inBounds → (0 ≤ y ∧ y < SIZE) ∧ (0 ≤ x ∧ x < SIZE)) :
    Returns (r.closedSide inBounds y x b) := by
  unfold closedSide
  split_ifs with hin
  · refine (Playfield.get_returns (h hin).1 (h hin).2).bind fun f _ => ?_
    split_ifs
    · exact .ok false
    · exact .ok b
  · exact .ok b

theorem isSurroundedKing_returns {y x : ℤ} (hy : 0 ≤ y ∧ y < SIZE) (hx : 0 ≤ x ∧ x < SIZE) :
    Returns (r.isSurroundedKing y x) := by
  simp only [SIZE] at hx hy
  refine (closedSide_returns ?_).bind fun _ _ => (closedSide_returns ?_).bind fun _ _ =>
    (closedSide_returns ?_).bind fun _ _ => closedSide_returns ?_
  all_goals simp only [SIZE]; omega

theorem kingSide_returns {inBounds : Prop} [Decidable inBounds] {y x : ℤ}
    (h : inBounds → (0 ≤ y ∧ y < SIZE) ∧ (0 ≤ x ∧ x < SIZE)) :
    Returns (r.kingSide inBounds y x b) := by
  unfold kingSide
  split_ifs with hin
  · refine (Playfield.get_returns (h hin).1 (h hin).2).bind fun f _ => ?_
    split_ifs
    · exact isSurroundedKing_returns (h hin).1 (h hin).2
    · exact .ok b
  · exact .ok b

theorem isCapturedKing_returns (hx : 0 ≤ r.xTo ∧ r.xTo < SIZE)
    (hy : 0 ≤ r.yTo ∧ r.yTo < SIZE) : Returns r.isCapturedKing := by
  simp only [SIZE] at hx hy
  refine (kingSide_returns ?_).bind fun _ _ => (kingSide_returns ?_).bind fun _ _ =>
    (kingSide_returns ?_).bind fun _ _ => kingSide_returns ?_
  all_goals simp only [SIZE]; omega

theorem checkCaptures_returns (hx : 0 ≤ r.xTo ∧ r.xTo < SIZE)
    (hy : 0 ≤ r.yTo ∧ r.yTo < SIZE) : Returns r.checkCaptures := by
  unfold checkCaptures
  refine (Playfield.get_returns hy hx).bind fun stone _ => ?_
  split_ifs
  · exact .ok _
  · exact .ok _
  · exact checkCaptureWarrior_returns hx hy
  · refine (checkCaptureWarrior_returns hx hy).bind fun r₁ h₁ => ?_
    obtain ⟨pf, -, rfl⟩ := checkCaptureWarrior_spec isSurroundedWhite_adjacent h₁
    refine Returns.bind (isCapturedKing_returns hx hy) fun captured _ => ?_
    split_ifs <;> exact .ok _
  · exact .ok _

/-- **No move faults**: on every board, eight digits are parsed, the loops of `isFreePath` end,
and no field outside the board is read or written. -/
theorem processMove_returns (hlen : t.length = 8) (ht : ∀ c ∈ t, c.isDigit = true) :
    Returns (r.processMove t) := by
  refine (parseMove_returns hlen ht).bind fun r₁ _ => isValidMove_returns.bind fun valid hv => ?_
  cases valid with
  | false => exact .ok _
  | true =>
    obtain ⟨p, q, hp, hq, -⟩ := isValidMove_spec hv
    obtain ⟨hy, hx⟩ := square_eq_ok.1 hq
    have hy' := q.1.isLt
    have hx' := q.2.isLt
    simp only [if_true, move_eq hp hq, ok_bind]
    refine Returns.bind (checkCaptures_returns ?_ ?_) fun _ _ => .ok _
    all_goals simp only [SIZE]; omega

end RoomHnefatafl

end HnefServer
