import HnefServer.Game.Move
import HnefServer.Network.Protocol

/-!
# Legal moves

The rules of a move, on the squares of the board: `Legal pf side p q` says that `side` may move the
stone on `p` to `q`.  `RoomHnefatafl.isValidMove` decides it (`isValidMove_iff`), on the squares
the eight digits spell.
-/

namespace HnefServer

/-- The two sides of the game. -/
inductive Side
  | black
  | white
  deriving DecidableEq

/-- The stones of a side. -/
def Side.Owns : Side → Field → Prop
  | .black, f => f = .sBlack
  | .white, f => f = .sWhite ∨ f = .sKing

/-- The fields a stone may pass. -/
def Field.Passable (f : Field) : Prop := f = .fEmpty ∨ f = .fThrone

/-- The square `x` lies strictly between `p` and `q`, in their row or in their column. -/
def Between (p x q : Square) : Prop :=
  (x.1 = p.1 ∧ x.1 = q.1 ∧ (p.2 < x.2 ∧ x.2 < q.2 ∨ q.2 < x.2 ∧ x.2 < p.2)) ∨
    (x.2 = p.2 ∧ x.2 = q.2 ∧ (p.1 < x.1 ∧ x.1 < q.1 ∨ q.1 < x.1 ∧ x.1 < p.1))

/-- The way from `p` to `q` is a part of a row or of a column, and no stone stands on it. -/
structure ClearWay (pf : Playfield) (p q : Square) : Prop where
  ne : p ≠ q
  line : p.1 = q.1 ∨ p.2 = q.2
  free : ∀ x, Between p x q → (pf x).Passable

/-- The side may move the stone on `p` to `q`: only the King may enter the throne and the
escapes. -/
structure Legal (pf : Playfield) (side : Side) (p q : Square) : Prop where
  own : side.Owns (pf p)
  target : pf q = .fEmpty ∨ pf p = .sKing ∧ (pf q = .fThrone ∨ pf q = .fEscape)
  way : ClearWay pf p q

/-- The number the digits at `pos` and `pos + 1` spell. -/
def Coordinates.number (t : Coordinates) (pos : ℕ) : ℤ :=
  10 * Text.digitValue (t.text.getD pos '0') + Text.digitValue (t.text.getD (pos + 1) '0')

/-- The coordinates spell the squares `p` and `q`, column before row. -/
def Coordinates.Spells (t : Coordinates) (p q : Square) : Prop :=
  t.number 0 = p.2.val ∧ t.number 2 = p.1.val ∧ t.number 4 = q.2.val ∧ t.number 6 = q.1.val

namespace RoomHnefatafl

variable {r r' : RoomHnefatafl} {b : Bool} {p q : Square}

/-- The player of a side. -/
def player (r : RoomHnefatafl) : Side → Text
  | .black => r.black
  | .white => r.white

/-! ### The coordinates -/

theorem parseCoordinate_eq (t : Coordinates) {pos : ℕ} (hpos : pos ≤ 6) :
    parseCoordinate t.text pos = .ok (t.number pos) := by
  have hlen : t.text.length = 8 := le_antisymm t.upper t.lower
  have h₁ : pos < t.text.length := by omega
  have h₂ : pos + 1 < t.text.length := by omega
  have hsub : Text.substr t.text pos 2 = .ok [t.text[pos], t.text[pos + 1]] := by
    rw [Text.substr, if_pos (by omega), List.drop_eq_getElem_cons (by omega),
      List.drop_eq_getElem_cons (by omega)]
    rfl
  have hstoi := Text.stoi_two (t.chars _ (List.getElem_mem h₁)) (t.chars _ (List.getElem_mem h₂))
  simp [parseCoordinate, hsub, hstoi, Coordinates.number, h₁, h₂]

theorem parseMove_eq (t : Coordinates) : r.parseMove t.text =
    .ok (r.setCoordinates (t.number 0) (t.number 2) (t.number 4) (t.number 6)) := by
  simp only [parseMove, parseCoordinate_eq t (Nat.zero_le 6), parseCoordinate_eq t (by decide :
    2 ≤ 6), parseCoordinate_eq t (by decide : 4 ≤ 6), parseCoordinate_eq t (le_refl 6), ok_bind,
    pure_eq_ok]

theorem spells_iff {t : Coordinates} : t.Spells p q ↔
    square (t.number 2) (t.number 0) = .ok p ∧ square (t.number 6) (t.number 4) = .ok q := by
  rw [square_eq_ok, square_eq_ok, Coordinates.Spells]
  constructor
  · rintro ⟨h₀, h₂, h₄, h₆⟩
    exact ⟨⟨h₂.symm, h₀.symm⟩, h₆.symm, h₄.symm⟩
  · rintro ⟨⟨h₂, h₀⟩, h₆, h₄⟩
    exact ⟨h₀.symm, h₂.symm, h₄.symm, h₆.symm⟩

/-! ### The path -/

/-- What the loop of `isFreePath` finds out, if it ends. -/
theorem freePathLoop_iff {line : ℤ → Except Fault Field} {shift target : ℤ} (hshift : shift ≠ 0)
    {fuel : ℕ} (n : ℕ) {i : ℤ} (htarget : target = i + n * shift)
    (h : freePathLoop line shift target fuel i = .ok b) :
    b = true ↔ ∀ k : ℕ, k < n → ∃ f, line (i + k * shift) = .ok f ∧ f.Passable := by
  induction fuel generalizing n i with
  | zero => cases h
  | succ fuel ih =>
    rw [freePathLoop] at h
    cases n with
    | zero =>
      rw [if_pos (by simpa using htarget.symm)] at h
      cases h
      simp
    | succ n =>
      have hne : i ≠ target := by
        intro hi
        have hzero : ((n + 1 : ℕ) : ℤ) * shift = 0 := by omega
        rcases mul_eq_zero.1 hzero with hn | hs
        · omega
        · exact hshift hs
      rw [if_neg hne] at h
      obtain ⟨f, hf, h₁⟩ := bind_eq_ok.1 h
      have hfirst : line (i + (0 : ℕ) * shift) = .ok f := by simpa using hf
      have hnext : ∀ k : ℕ, i + ((k + 1 : ℕ) : ℤ) * shift = i + shift + k * shift := by
        intro k
        push_cast
        ring
      split_ifs at h₁ with hblocked
      · cases h₁
        simp only [Bool.false_eq_true, false_iff]
        intro hall
        obtain ⟨g, hg, hpass⟩ := hall 0 n.succ_pos
        obtain rfl : f = g := Except.ok.inj (hfirst.symm.trans hg)
        rcases hpass with rfl | rfl
        · exact hblocked.1 rfl
        · exact hblocked.2 rfl
      · have hpass : f.Passable := by
          by_contra hp
          exact hblocked ⟨fun he => hp (Or.inl he), fun ht => hp (Or.inr ht)⟩
        rw [ih n (by rw [htarget]; push_cast; ring) h₁]
        constructor
        · intro hall k hk
          cases k with
          | zero => exact ⟨f, hfirst, hpass⟩
          | succ k =>
            rw [hnext]
            exact hall k (by omega)
        · intro hall k hk
          rw [← hnext]
          exact hall (k + 1) (by omega)

/-- The same for a line of the board: the loop looks at the squares between its ends. -/
theorem freeLine_iff {line : ℤ → Except Fault Field} {start target : Fin 11} {fuel : ℕ}
    (cell : Fin 11 → Field) (hcell : ∀ i : Fin 11, line i.val = .ok (cell i)) (hne : start ≠ target)
    (h : freePathLoop line (if (start.val : ℤ) < target.val then 1 else -1) target.val fuel
      (start.val + if (start.val : ℤ) < target.val then 1 else -1) = .ok b) :
    b = true ↔ ∀ i, (start < i ∧ i < target ∨ target < i ∧ i < start) → (cell i).Passable := by
  have hval : start.val ≠ target.val := fun hv => hne (Fin.ext hv)
  have hread : ∀ {i : Fin 11} {j : ℤ}, (i.val : ℤ) = j →
      ((∃ f, line j = .ok f ∧ f.Passable) ↔ (cell i).Passable) := by
    rintro i _ rfl
    rw [hcell]
    simp
  split_ifs at h with hlt
  · rw [freePathLoop_iff (by decide) (target.val - start.val - 1) (by omega) h]
    constructor
    · rintro hall i (⟨h₁, h₂⟩ | ⟨h₁, h₂⟩)
      · rw [Fin.lt_def] at h₁ h₂
        exact (hread (by omega)).1 (hall (i.val - start.val - 1) (by omega))
      · rw [Fin.lt_def] at h₁ h₂
        omega
    · intro hall k hk
      refine (hread (i := ⟨start.val + 1 + k, by omega⟩) (by push_cast; ring)).2
        (hall _ (Or.inl ?_))
      simp only [Fin.lt_def]
      omega
  · rw [freePathLoop_iff (by decide) (start.val - target.val - 1) (by omega) h]
    constructor
    · rintro hall i (⟨h₁, h₂⟩ | ⟨h₁, h₂⟩)
      · rw [Fin.lt_def] at h₁ h₂
        omega
      · rw [Fin.lt_def] at h₁ h₂
        exact (hread (by omega)).1 (hall (start.val - i.val - 1) (by omega))
    · intro hall k hk
      refine (hread (i := ⟨start.val - 1 - k, by omega⟩) (by simp only; omega)).2
        (hall _ (Or.inr ?_))
      simp only [Fin.lt_def]
      omega

theorem get_square (pf : Playfield) (q : Square) : pf.get q.1.val q.2.val = .ok (pf q) :=
  Playfield.get_eq_ok.2 ⟨q, square_eq_ok.2 ⟨rfl, rfl⟩, rfl⟩

/-- **The path is free iff no stone stands between the two squares.** -/
theorem isFreePath_iff (hp : square r.yFrom r.xFrom = .ok p) (hq : square r.yTo r.xTo = .ok q)
    (hne : p ≠ q) (hline : p.1 = q.1 ∨ p.2 = q.2) (h : r.isFreePath = .ok b) :
    b = true ↔ ∀ x, Between p x q → (r.pf x).Passable := by
  obtain ⟨hp₁, hp₂⟩ := square_eq_ok.1 hp
  obtain ⟨hq₁, hq₂⟩ := square_eq_ok.1 hq
  rw [isFreePath, ← hp₁, ← hp₂, ← hq₁, ← hq₂] at h
  by_cases hrow : p.1 = q.1
  · have hcol : p.2 ≠ q.2 := fun hcol => hne (Prod.ext hrow hcol)
    rw [if_pos (by rw [hrow])] at h
    rw [freeLine_iff (fun i => r.pf (p.1, i)) (fun i => get_square r.pf (p.1, i)) hcol h]
    constructor
    · rintro hall ⟨y, x⟩ (⟨rfl, -, hx⟩ | ⟨rfl, hx, -⟩)
      · exact hall x hx
      · exact absurd hx hcol
    · intro hall i hi
      exact hall (p.1, i) (Or.inl ⟨rfl, hrow, hi⟩)
  · have hcol : p.2 = q.2 := hline.resolve_left hrow
    have hval : ((p.1.val : ℤ) ≠ q.1.val) := fun hv => hrow (Fin.ext (by exact_mod_cast hv))
    rw [if_neg hval, if_pos (by rw [hcol])] at h
    rw [freeLine_iff (fun i => r.pf (i, p.2)) (fun i => get_square r.pf (i, p.2)) hrow h]
    constructor
    · rintro hall ⟨y, x⟩ (⟨rfl, hy, -⟩ | ⟨rfl, -, hy⟩)
      · exact absurd hy hrow
      · exact hall y hy
    · intro hall i hi
      exact hall (i, p.2) (Or.inr ⟨rfl, hcol, hi⟩)

theorem isClearLine_iff (hp : square r.yFrom r.xFrom = .ok p) (hq : square r.yTo r.xTo = .ok q)
    (hne : p ≠ q) (h : r.isClearLine = .ok b) : b = true ↔ ClearWay r.pf p q := by
  obtain ⟨hp₁, hp₂⟩ := square_eq_ok.1 hp
  obtain ⟨hq₁, hq₂⟩ := square_eq_ok.1 hq
  have horth : r.isOrthogonal = true ↔ p.1 = q.1 ∨ p.2 = q.2 := by
    rw [isOrthogonal, Bool.or_eq_true, beq_iff_eq, beq_iff_eq, ← hp₁, ← hp₂, ← hq₁, ← hq₂,
      Fin.ext_iff, Fin.ext_iff]
    omega
  unfold isClearLine at h
  split_ifs at h with ho
  · rw [isFreePath_iff hp hq hne (horth.1 ho) h]
    exact ⟨fun hfree => ⟨hne, horth.1 ho, hfree⟩, fun hway => hway.free⟩
  · cases h
    simp only [Bool.false_eq_true, false_iff]
    exact fun hway => ho (horth.2 hway.line)

/-! ### The two squares -/

theorem isWithinPf_squares : r.isWithinPf = true ↔
    ∃ p q, square r.yFrom r.xFrom = .ok p ∧ square r.yTo r.xTo = .ok q := by
  rw [isWithinPf_iff]
  constructor
  · intro h
    obtain ⟨p, hp⟩ := exists_square h.yFrom h.xFrom
    obtain ⟨q, hq⟩ := exists_square h.yTo h.xTo
    exact ⟨p, q, hp, hq⟩
  · rintro ⟨p, q, hp, hq⟩
    obtain ⟨hp₁, hp₂⟩ := square_eq_ok.1 hp
    obtain ⟨hq₁, hq₂⟩ := square_eq_ok.1 hq
    refine ⟨?_, ?_, ?_, ?_⟩
    all_goals simp only [SIZE]; omega

/-- The branches of `isValidMove` are the cases of `LegalFields`, which exclude each other. -/
theorem isValidMove_eq (hp : square r.yFrom r.xFrom = .ok p) (hq : square r.yTo r.xTo = .ok q) :
    (r.LegalFields (r.pf p) (r.pf q) → r.isValidMove = r.isClearLine) ∧
      (¬ r.LegalFields (r.pf p) (r.pf q) → r.isValidMove = .ok false) := by
  have hw : r.isWithinPf = true := isWithinPf_squares.2 ⟨p, q, hp, hq⟩
  have hvalid : r.isValidMove = _ := if_pos hw
  simp only [Playfield.get, hp, hq, ok_bind, pure_eq_ok] at hvalid
  rw [hvalid]
  constructor
  · rintro (⟨hturn, hown, htarget⟩ | ⟨hturn, hown, htarget⟩ | ⟨hturn, hown, htarget⟩)
    all_goals simp [hturn, hown, htarget]
  · intro hnot
    split_ifs with h₁ h₂ h₃ h₄ h₅ h₆
    · exact absurd (Or.inl ⟨h₁.1, h₁.2, h₂⟩) hnot
    · rfl
    · exact absurd (Or.inr (Or.inl ⟨h₃.1, h₃.2, h₄⟩)) hnot
    · rfl
    · exact absurd (Or.inr (Or.inr ⟨h₅.1, h₅.2, h₆⟩)) hnot
    · rfl
    · rfl

/-- **What a valid move has checked.** -/
theorem isValidMove_iff (h : r.isValidMove = .ok b) :
    b = true ↔ ∃ p q, square r.yFrom r.xFrom = .ok p ∧ square r.yTo r.xTo = .ok q ∧
      r.LegalFields (r.pf p) (r.pf q) ∧ ClearWay r.pf p q := by
  by_cases hw : r.isWithinPf = true
  · obtain ⟨p, q, hp, hq⟩ := isWithinPf_squares.1 hw
    obtain ⟨hlegal, hillegal⟩ := isValidMove_eq hp hq
    simp only [hp, hq, Except.ok.injEq, exists_and_left, exists_eq_left']
    by_cases hfields : r.LegalFields (r.pf p) (r.pf q)
    · have hne : p ≠ q := fun hpq => hfields.ne (congrArg r.pf hpq)
      rw [hlegal hfields] at h
      rw [isClearLine_iff hp hq hne h, and_iff_right hfields]
    · rw [hillegal hfields] at h
      cases h
      simp [hfields]
  · have hinvalid : r.isValidMove = _ := if_neg hw
    rw [hinvalid] at h
    cases h
    simp only [Bool.false_eq_true, false_iff]
    rintro ⟨p, q, hp, hq, -⟩
    exact hw (isWithinPf_squares.2 ⟨p, q, hp, hq⟩)

/-- The stones of the player on turn, and the fields they may enter. -/
theorem legalFields_iff {side : Side} {f g : Field} (hbw : r.black ≠ r.white)
    (hturn : r.onTurn = r.player side) : r.LegalFields f g ↔
      side.Owns f ∧ (g = .fEmpty ∨ f = .sKing ∧ (g = .fThrone ∨ g = .fEscape)) := by
  cases side with
  | black =>
    have hblack : r.onTurn = r.black := hturn
    simp only [LegalFields, hblack, hbw, true_and, false_and, or_false, Side.Owns]
    constructor
    · rintro ⟨hf, hg⟩
      exact ⟨hf, Or.inl hg⟩
    · rintro ⟨rfl, hg | ⟨hf, -⟩⟩
      · exact ⟨rfl, hg⟩
      · cases hf
  | white =>
    have hwhite : r.onTurn = r.white := hturn
    simp only [LegalFields, hwhite, hbw.symm, true_and, false_and, false_or, Side.Owns]
    constructor
    · rintro (⟨hf, hg⟩ | ⟨hf, hg⟩)
      · exact ⟨Or.inl hf, Or.inl hg⟩
      · exact ⟨Or.inr hf, hg.imp_right fun hg => ⟨hf, hg⟩⟩
    · rintro ⟨rfl | rfl, hg | ⟨hf, hg⟩⟩
      · exact Or.inl ⟨rfl, hg⟩
      · cases hf
      · exact Or.inr ⟨rfl, Or.inl hg⟩
      · exact Or.inr ⟨rfl, Or.inr hg⟩

/-! ### Processing a move -/

/-- What `processMove` does with eight digits: the move is made iff it is valid. -/
theorem processMove_coordinates (t : Coordinates) (h : r.processMove t.text = .ok (r', b)) :
    (b = true ↔ ∃ p q, t.Spells p q ∧ r.LegalFields (r.pf p) (r.pf q) ∧ ClearWay r.pf p q) := by
  obtain ⟨r₁, hparse, h₁⟩ := bind_eq_ok.1 h
  obtain ⟨valid, hvalid, h₂⟩ := bind_eq_ok.1 h₁
  rw [parseMove_eq] at hparse
  cases hparse
  have hb : b = valid := by
    cases valid with
    | false =>
      cases h₂
      rfl
    | true =>
      obtain ⟨r₂, -, h₃⟩ := bind_eq_ok.1 h₂
      obtain ⟨r₃, -, h₄⟩ := bind_eq_ok.1 h₃
      cases h₄
      rfl
  rw [hb, isValidMove_iff hvalid]
  simp only [spells_iff, and_assoc]
  rfl

end RoomHnefatafl

end HnefServer
