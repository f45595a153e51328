import HnefServer.Game.Legal
import Mathlib.Data.Fintype.Prod
import Mathlib.Data.Finset.Card

/-!
# Captures

`checkCaptureWarrior` looks in the four directions one after the other and writes the board while
it looks.  A stone that is taken in one direction is not looked at in another one, so that the
stones taken are those of the board before (`captures_eq`), and the side from which the stone has
come takes nothing (`card_captured_le`).
-/

namespace HnefServer

inductive Direction
  | right
  | left
  | down
  | up
  deriving DecidableEq

namespace Direction

/-- The change of the row in one step. -/
def dy : Direction → ℤ
  | right | left => 0
  | down => 1
  | up => -1

/-- The change of the column in one step. -/
def dx : Direction → ℤ
  | right => 1
  | left => -1
  | down | up => 0

/-- The directions in the order in which the source looks at them. -/
def all : List Direction := [right, left, down, up]

theorem nodup_all : all.Nodup := by decide

theorem mem_all (d : Direction) : d ∈ all := by cases d <;> decide

instance : Fintype Direction := ⟨⟨all, nodup_all⟩, mem_all⟩

end Direction

/-- The square `n` steps from `q`, if it is on the board. -/
def beyond (q : Square) (d : Direction) (n : ℤ) : Option Square :=
  (square (q.1.val + n * d.dy) (q.2.val + n * d.dx)).toOption

section Beyond

variable {q x y : Square} {d d' : Direction} {n n' : ℤ}

theorem beyond_eq_some : beyond q d n = some x ↔
    (x.1.val : ℤ) = q.1.val + n * d.dy ∧ (x.2.val : ℤ) = q.2.val + n * d.dx := by
  rw [← square_eq_ok, beyond]
  cases square (q.1.val + n * d.dy) (q.2.val + n * d.dx) <;> simp [Except.toOption]

/-- A square lies in one direction only, in one distance. -/
theorem eq_of_beyond (h : beyond q d n = some x) (h' : beyond q d' n' = some x) (hn : 0 < n)
    (hn' : 0 < n') : d = d' ∧ n = n' := by
  obtain ⟨h₁, h₂⟩ := beyond_eq_some.1 h
  obtain ⟨h₁', h₂'⟩ := beyond_eq_some.1 h'
  cases d <;> cases d' <;> simp [Direction.dy, Direction.dx] at * <;> omega

/-- Before a square on the board there is one. -/
theorem exists_beyond_one (h : beyond q d 2 = some y) : ∃ x, beyond q d 1 = some x := by
  obtain ⟨h₁, h₂⟩ := beyond_eq_some.1 h
  have hq₁ := q.1.isLt
  have hq₂ := q.2.isLt
  have hy₁ := y.1.isLt
  have hy₂ := y.2.isLt
  obtain ⟨x, hx⟩ := exists_square (y := q.1.val + 1 * d.dy) (x := q.2.val + 1 * d.dx)
    (by cases d <;> simp only [Direction.dy, SIZE] at * <;> omega)
    (by cases d <;> simp only [Direction.dx, SIZE] at * <;> omega)
  exact ⟨x, beyond_eq_some.2 (square_eq_ok.1 hx)⟩

end Beyond

/-! ### Warriors -/

/-- A stone that was moved takes the warrior `adj` of the enemy if the field behind it is a warrior
of its own, the throne or an escape. -/
def Takes (mover adj ally : Field) : Prop :=
  (mover = .sWhite ∧ adj = .sBlack ∨ mover = .sBlack ∧ adj = .sWhite) ∧
    (ally = mover ∨ ally = .fThrone ∨ ally = .fEscape)

instance (mover adj ally : Field) : Decidable (Takes mover adj ally) :=
  inferInstanceAs (Decidable (_ ∧ _))

/-- The stone on `x` is taken by the stone that has moved to `q`. -/
def Captured (pf : Playfield) (q x : Square) : Prop :=
  ∃ d y, beyond q d 1 = some x ∧ beyond q d 2 = some y ∧ Takes (pf q) (pf x) (pf y)

instance (pf : Playfield) (q x : Square) : Decidable (Captured pf q x) :=
  inferInstanceAs (Decidable (∃ _ _, _))

/-- The capture in one direction. -/
def captureIn (surrounded : Field → Field → Bool) (q : Square) (pf : Playfield) (d : Direction) :
    Playfield :=
  match beyond q d 1, beyond q d 2 with
  | some x, some y =>
    if surrounded (pf x) (pf y) = true then Function.update pf x .fEmpty else pf
  | _, _ => pf

section Fold

variable {surrounded : Field → Field → Bool} {q x y : Square} {pf : Playfield} {d : Direction}

/-- A capture in one direction writes the adjacent square only. -/
theorem captureIn_of_ne (h : beyond q d 1 ≠ some x) : captureIn surrounded q pf d x = pf x := by
  unfold captureIn
  cases hz : beyond q d 1 with
  | none => rfl
  | some z =>
    have hne : x ≠ z := by
      rintro rfl
      exact h hz
    cases beyond q d 2 with
    | none => rfl
    | some y =>
      dsimp only
      split_ifs
      · exact Function.update_of_ne hne _ _
      · rfl

theorem captureIn_adjacent (hx : beyond q d 1 = some x) : captureIn surrounded q pf d x =
    if ∃ y, beyond q d 2 = some y ∧ surrounded (pf x) (pf y) = true then .fEmpty else pf x := by
  unfold captureIn
  cases hy : beyond q d 2 with
  | none => simp
  | some y =>
    simp only [hx, Option.some.injEq, exists_eq_left']
    split_ifs
    · exact Function.update_self _ _ _
    · rfl

/-- **Taking the stones in one direction after the other takes those of the board before.** -/
theorem foldl_captureIn (ds : List Direction) (hds : ds.Nodup) :
    ds.foldl (captureIn surrounded q) pf x =
      if ∃ d ∈ ds, ∃ y, beyond q d 1 = some x ∧ beyond q d 2 = some y ∧
        surrounded (pf x) (pf y) = true then .fEmpty else pf x := by
  induction ds generalizing pf with
  | nil => simp
  | cons d ds ih =>
    obtain ⟨hd, hds⟩ := List.nodup_cons.1 hds
    rw [List.foldl_cons, ih hds]
    -- the squares looked at in the other directions are as they were
    have hsame : ∀ e ∈ ds, ∀ n > 0, ∀ z, beyond q e n = some z →
        captureIn surrounded q pf d z = pf z := by
      intro e he n hn z hz
      refine captureIn_of_ne fun hz' => ?_
      obtain ⟨rfl, -⟩ := eq_of_beyond hz hz' hn (by decide)
      exact hd he
    have hrest : (∃ e ∈ ds, ∃ y, beyond q e 1 = some x ∧ beyond q e 2 = some y ∧
        surrounded (captureIn surrounded q pf d x) (captureIn surrounded q pf d y) = true) ↔
        ∃ e ∈ ds, ∃ y, beyond q e 1 = some x ∧ beyond q e 2 = some y ∧
          surrounded (pf x) (pf y) = true := by
      constructor
      · rintro ⟨e, he, y, hx, hy, h⟩
        rw [hsame e he 1 (by decide) x hx, hsame e he 2 (by decide) y hy] at h
        exact ⟨e, he, y, hx, hy, h⟩
      · rintro ⟨e, he, y, hx, hy, h⟩
        refine ⟨e, he, y, hx, hy, ?_⟩
        rwa [hsame e he 1 (by decide) x hx, hsame e he 2 (by decide) y hy]
    simp only [hrest, List.exists_mem_cons_iff]
    by_cases hlater : ∃ e ∈ ds, ∃ y, beyond q e 1 = some x ∧ beyond q e 2 = some y ∧
        surrounded (pf x) (pf y) = true
    · rw [if_pos hlater, if_pos (Or.inr hlater)]
    · rw [if_neg hlater]
      refine Eq.trans ?_ (if_congr (or_iff_left hlater).symm rfl rfl)
      by_cases hx : beyond q d 1 = some x
      · simp only [captureIn_adjacent hx, hx, true_and]
      · simp only [captureIn_of_ne hx, hx, false_and, exists_false, if_false]

end Fold

namespace RoomHnefatafl

variable {surrounded : Field → Field → Bool} {r r' : RoomHnefatafl} {pf pf' : Playfield}
  {q : Square} {d : Direction}

/-- The bounds test of a direction and the square so many steps behind it. -/
theorem beyond_of_bounds {inBounds : Prop} {n y x : ℤ}
    (hsq : y = q.1.val + n * d.dy ∧ x = q.2.val + n * d.dx)
    (hin : inBounds ↔ (0 ≤ y ∧ y < SIZE) ∧ (0 ≤ x ∧ x < SIZE)) :
    inBounds ∧ (∃ z, square y x = .ok z ∧ beyond q d n = some z) ∨
      ¬ inBounds ∧ beyond q d n = none := by
  obtain ⟨rfl, rfl⟩ := hsq
  by_cases hb : inBounds
  · obtain ⟨z, hz⟩ := exists_square (hin.1 hb).1 (hin.1 hb).2
    exact Or.inl ⟨hb, z, hz, beyond_eq_some.2 (square_eq_ok.1 hz)⟩
  · refine Or.inr ⟨hb, ?_⟩
    cases hz : beyond q d n with
    | none => rfl
    | some z =>
      obtain ⟨h₁, h₂⟩ := beyond_eq_some.1 hz
      have hz₁ := z.1.isLt
      have hz₂ := z.2.isLt
      refine absurd (hin.2 ⟨?_, ?_⟩) hb
      all_goals simp only [SIZE]; omega

/-- One side of `checkCaptureWarrior`, with the bounds test of its direction. -/
theorem captureSide_eq (d : Direction) {inBounds : Prop} [Decidable inBounds] {y x y' x' : ℤ}
    (hadj : y = q.1.val + 1 * d.dy ∧ x = q.2.val + 1 * d.dx)
    (hally : y' = q.1.val + 2 * d.dy ∧ x' = q.2.val + 2 * d.dx)
    (hin : inBounds ↔ (0 ≤ y' ∧ y' < SIZE) ∧ (0 ≤ x' ∧ x' < SIZE)) :
    captureSide surrounded inBounds y x y' x' pf = .ok (captureIn surrounded q pf d) := by
  obtain ⟨rfl, rfl⟩ := hadj
  unfold captureSide captureIn
  rcases beyond_of_bounds hally hin with ⟨hb, b, hb₂, hy⟩ | ⟨hb, hy⟩
  · obtain ⟨a, hx⟩ := exists_beyond_one hy
    have ha := square_eq_ok.2 (beyond_eq_some.1 hx)
    rw [if_pos hb]
    simp only [Playfield.get, Playfield.set, ha, hb₂, hx, hy, ok_bind, pure_eq_ok]
    split_ifs <;> rfl
  · rw [if_neg hb, hy]
    cases beyond q d 1 <;> rfl

/-- `checkCaptureWarrior` takes the stones in one direction after the other. -/
theorem checkCaptureWarrior_eq (hq : square r.yTo r.xTo = .ok q) :
    r.checkCaptureWarrior surrounded =
      .ok { r with pf := Direction.all.foldl (captureIn surrounded q) r.pf } := by
  obtain ⟨h₁, h₂⟩ := square_eq_ok.1 hq
  have hq₁ := q.1.isLt
  have hq₂ := q.2.isLt
  unfold checkCaptureWarrior
  dsimp only
  rw [← h₁, ← h₂, captureSide_eq (q := q) .right, ok_bind, captureSide_eq (q := q) .left, ok_bind,
    captureSide_eq (q := q) .down, ok_bind, captureSide_eq (q := q) .up, ok_bind]
  · rfl
  all_goals simp only [Direction.dy, Direction.dx, SIZE]; omega

end RoomHnefatafl

/-- The board after the stone that was moved to `q` has taken the stones of the enemy. -/
def capture (pf : Playfield) (q : Square) : Playfield := fun x =>
  if Captured pf q x then .fEmpty else pf x

section Capture

variable {pf : Playfield} {q x : Square}

/-- Only a warrior takes stones. -/
theorem capture_of_ne (hw : pf q ≠ .sWhite) (hb : pf q ≠ .sBlack) : capture pf q = pf := by
  funext x
  refine if_neg ?_
  rintro ⟨d, y, -, -, ⟨h, -⟩ | ⟨h, -⟩, -⟩
  · exact hw h
  · exact hb h

/-- The stones of the enemy only are taken. -/
theorem Captured.stone (h : Captured pf q x) :
    pf q = .sWhite ∧ pf x = .sBlack ∨ pf q = .sBlack ∧ pf x = .sWhite := by
  obtain ⟨d, y, -, -, h, -⟩ := h
  exact h

/-- The tests of the source are those of the two warriors. -/
theorem surrounded_iff {mover adj ally : Field} {surrounded : Field → Field → Bool}
    (h : mover = .sWhite ∧ surrounded = RoomHnefatafl.isSurroundedBlack ∨
      mover = .sBlack ∧ surrounded = RoomHnefatafl.isSurroundedWhite) :
    surrounded adj ally = true ↔ Takes mover adj ally := by
  rcases h with ⟨rfl, rfl⟩ | ⟨rfl, rfl⟩
  · simp [RoomHnefatafl.isSurroundedBlack, Takes, or_assoc]
  · simp [RoomHnefatafl.isSurroundedWhite, Takes, or_assoc]

/-- **The captures, one direction after the other, are those of the board before.** -/
theorem captures_eq {surrounded : Field → Field → Bool}
    (h : pf q = .sWhite ∧ surrounded = RoomHnefatafl.isSurroundedBlack ∨
      pf q = .sBlack ∧ surrounded = RoomHnefatafl.isSurroundedWhite) :
    Direction.all.foldl (captureIn surrounded q) pf = capture pf q := by
  funext x
  rw [foldl_captureIn _ Direction.nodup_all]
  refine if_congr ?_ rfl rfl
  simp only [surrounded_iff h, Direction.mem_all, true_and]
  rfl

end Capture

/-! ### The King -/

/-- The squares `q` and `x` are neighbours in a row or in a column. -/
def Adjacent (q x : Square) : Prop := ∃ d, beyond q d 1 = some x

instance (q x : Square) : Decidable (Adjacent q x) := inferInstanceAs (Decidable (∃ _, _))

/-- The King on `k` has no way out in a direction. -/
def ClosedIn (pf : Playfield) (k : Square) (d : Direction) : Prop :=
  ∀ y, beyond k d 1 = some y → pf y ≠ .fEmpty ∧ pf y ≠ .sWhite

instance (pf : Playfield) (k : Square) (d : Direction) : Decidable (ClosedIn pf k d) :=
  inferInstanceAs (Decidable (∀ _, _))

/-- No neighbour of `k` on the board is empty or a white warrior. -/
def Enclosed (pf : Playfield) (k : Square) : Prop :=
  ∀ y, Adjacent k y → pf y ≠ .fEmpty ∧ pf y ≠ .sWhite

theorem enclosed_iff {pf : Playfield} {k : Square} : Enclosed pf k ↔ ∀ d, ClosedIn pf k d := by
  constructor
  · intro h d y hy
    exact h y ⟨d, hy⟩
  · rintro h y ⟨d, hy⟩
    exact h d y hy

instance (pf : Playfield) (k : Square) : Decidable (Enclosed pf k) :=
  decidable_of_iff _ enclosed_iff.symm

namespace RoomHnefatafl

variable {r r' : RoomHnefatafl} {pf : Playfield} {q k x : Square} {d : Direction} {b : Bool}

theorem closedSide_eq (d : Direction) {inBounds : Prop} [Decidable inBounds] {y x : ℤ}
    (hadj : y = k.1.val + 1 * d.dy ∧ x = k.2.val + 1 * d.dx)
    (hin : inBounds ↔ (0 ≤ y ∧ y < SIZE) ∧ (0 ≤ x ∧ x < SIZE)) :
    r.closedSide inBounds y x b = .ok (b && decide (ClosedIn r.pf k d)) := by
  unfold closedSide ClosedIn
  rcases beyond_of_bounds hadj hin with ⟨hb, z, hz, hbeyond⟩ | ⟨hb, hbeyond⟩
  · simp only [if_pos hb, Playfield.get, hz, ok_bind, pure_eq_ok, hbeyond, Option.some.injEq,
      forall_eq']
    split_ifs with hopen
    · rcases hopen with ho | ho <;> simp [ho]
    · rw [not_or] at hopen
      simp [hopen]
  · simp [if_neg hb, hbeyond]

theorem isSurroundedKing_eq {y x : ℤ} (hk : square y x = .ok k) :
    r.isSurroundedKing y x = .ok (decide (Enclosed r.pf k)) := by
  obtain ⟨h₁, h₂⟩ := square_eq_ok.1 hk
  have hk₁ := k.1.isLt
  have hk₂ := k.2.isLt
  unfold isSurroundedKing
  rw [← h₁, ← h₂, closedSide_eq (k := k) .right, ok_bind, closedSide_eq (k := k) .left, ok_bind,
    closedSide_eq (k := k) .down, ok_bind, closedSide_eq (k := k) .up]
  · have hall : Enclosed r.pf k ↔ ((ClosedIn r.pf k .right ∧ ClosedIn r.pf k .left) ∧
        ClosedIn r.pf k .down) ∧ ClosedIn r.pf k .up := by
      rw [enclosed_iff]
      constructor
      · intro h
        exact ⟨⟨⟨h _, h _⟩, h _⟩, h _⟩
      · rintro ⟨⟨⟨hr, hl⟩, hd⟩, hu⟩ (_ | _ | _ | _)
        · exact hr
        · exact hl
        · exact hd
        · exact hu
    simp [hall]
  all_goals simp only [Direction.dy, Direction.dx, SIZE]; omega

/-- One side of `isCapturedKing`, when no square but `k` may hold the King. -/
theorem kingSide_eq (hking : ∀ z, r.pf z = .sKing → z = k) (d : Direction) {inBounds : Prop}
    [Decidable inBounds] {y x : ℤ}
    (hadj : y = q.1.val + 1 * d.dy ∧ x = q.2.val + 1 * d.dx)
    (hin : inBounds ↔ (0 ≤ y ∧ y < SIZE) ∧ (0 ≤ x ∧ x < SIZE)) :
    r.kingSide inBounds y x b =
      .ok (if beyond q d 1 = some k ∧ r.pf k = .sKing then decide (Enclosed r.pf k) else b) := by
  unfold kingSide
  rcases beyond_of_bounds hadj hin with ⟨hb, z, hz, hbeyond⟩ | ⟨hb, hbeyond⟩
  · simp only [if_pos hb, Playfield.get, hz, ok_bind, pure_eq_ok, hbeyond, Option.some.injEq]
    by_cases hzk : r.pf z = .sKing
    · obtain rfl := hking z hzk
      rw [if_pos hzk, if_pos ⟨rfl, hzk⟩, isSurroundedKing_eq hz]
    · rw [if_neg hzk, if_neg (by rintro ⟨rfl, h⟩; exact hzk h)]
  · simp [if_neg hb, hbeyond]

/-- **The King is captured iff it stands next to the black stone and is enclosed**, if there is
one King at most. -/
theorem isCapturedKing_eq (hq : square r.yTo r.xTo = .ok q)
    (hking : ∀ z, r.pf z = .sKing → z = k) :
    r.isCapturedKing = .ok (decide (Adjacent q k ∧ r.pf k = .sKing ∧ Enclosed r.pf k)) := by
  obtain ⟨h₁, h₂⟩ := square_eq_ok.1 hq
  have hq₁ := q.1.isLt
  have hq₂ := q.2.isLt
  unfold isCapturedKing
  rw [← h₁, ← h₂, kingSide_eq (q := q) hking .right, ok_bind, kingSide_eq (q := q) hking .left,
    ok_bind, kingSide_eq (q := q) hking .down, ok_bind, kingSide_eq (q := q) hking .up]
  · congr 1
    by_cases hat : r.pf k = .sKing
    · have hadj : Adjacent q k ↔ beyond q .right 1 = some k ∨ beyond q .left 1 = some k ∨
          beyond q .down 1 = some k ∨ beyond q .up 1 = some k := by
        constructor
        · rintro ⟨_ | _ | _ | _, h⟩ <;> simp [h]
        · rintro (h | h | h | h)
          · exact ⟨_, h⟩
          · exact ⟨_, h⟩
          · exact ⟨_, h⟩
          · exact ⟨_, h⟩
      simp only [hat, and_true, true_and, hadj, Bool.decide_and]
      split_ifs <;> simp [*]
    · simp [hat]
  all_goals simp only [Direction.dy, Direction.dx, SIZE]; omega

/-! ### The captures of a move -/

/-- What a move leads to: the King on a corner, or the King enclosed by a black stone that was
moved next to it. -/
def Wins (pf : Playfield) (q k : Square) : Prop :=
  pf q = .sKing ∧ IsCorner q ∨
    pf q = .sBlack ∧ Adjacent q k ∧ capture pf q k = .sKing ∧ Enclosed (capture pf q) k

instance (pf : Playfield) (q k : Square) : Decidable (Wins pf q k) :=
  inferInstanceAs (Decidable (_ ∨ _))

theorem isCorner_iff (hq : square r.yTo r.xTo = .ok q) :
    ((r.xTo = 0 ∨ r.xTo = SIZE - 1) ∧ (r.yTo = 0 ∨ r.yTo = SIZE - 1)) ↔ IsCorner q := by
  obtain ⟨h₁, h₂⟩ := square_eq_ok.1 hq
  simp only [SIZE, IsCorner, Fin.ext_iff, ← h₁, ← h₂]
  simp only [Fin.val_zero, show ((10 : Fin 11) : ℕ) = 10 from rfl]
  omega

/-- **The captures of a move**, on every board. -/
theorem checkCaptures_pf (hq : square r.yTo r.xTo = .ok q) (h : r.checkCaptures = .ok r') :
    r'.pf = capture r.pf q := by
  simp only [checkCaptures, Playfield.get, hq, ok_bind, pure_eq_ok] at h
  by_cases hk : r.pf q = .sKing
  · rw [capture_of_ne (by simp [hk]) (by simp [hk])]
    rw [if_pos hk] at h
    split_ifs at h
    · cases h
      rfl
    · cases h
      rfl
  rw [if_neg hk] at h
  by_cases hw : r.pf q = .sWhite
  · rw [if_pos hw, checkCaptureWarrior_eq hq] at h
    cases h
    exact captures_eq (Or.inl ⟨hw, rfl⟩)
  rw [if_neg hw] at h
  by_cases hb : r.pf q = .sBlack
  · rw [if_pos hb, checkCaptureWarrior_eq hq, ok_bind] at h
    obtain ⟨captured, -, h₁⟩ := bind_eq_ok.1 h
    have hpf := captures_eq (Or.inr ⟨hb, rfl⟩)
    split_ifs at h₁
    · cases h₁
      exact hpf
    · cases h₁
      exact hpf
  · rw [if_neg hb] at h
    cases h
    exact (capture_of_ne hw hb).symm

/-- **When the game is over**, if no square but `k` may hold the King. -/
theorem checkCaptures_gameState (hq : square r.yTo r.xTo = .ok q)
    (hking : ∀ z, r.pf z = .sKing → z = k) (h : r.checkCaptures = .ok r') :
    r'.gameState = if Wins r.pf q k then .gameover else r.gameState := by
  simp only [checkCaptures, Playfield.get, hq, ok_bind, pure_eq_ok, isCorner_iff hq] at h
  by_cases hk : r.pf q = .sKing
  · have hwins : Wins r.pf q k ↔ IsCorner q := by simp [Wins, hk]
    rw [if_pos hk] at h
    rw [if_congr hwins rfl rfl]
    split_ifs at h ⊢
    · cases h
      rfl
    · cases h
      rfl
  rw [if_neg hk] at h
  by_cases hw : r.pf q = .sWhite
  · have hwins : ¬ Wins r.pf q k := by simp [Wins, hw]
    rw [if_pos hw, checkCaptureWarrior_eq hq] at h
    rw [if_neg hwins]
    cases h
    rfl
  rw [if_neg hw] at h
  by_cases hb : r.pf q = .sBlack
  · have hpf := captures_eq (Or.inr ⟨hb, rfl⟩)
    rw [if_pos hb, checkCaptureWarrior_eq hq, ok_bind, hpf] at h
    have hking' : ∀ z, capture r.pf q z = .sKing → z = k := by
      intro z hz
      unfold capture at hz
      split_ifs at hz
      exact hking z hz
    have hcaptured := isCapturedKing_eq (r := { r with pf := capture r.pf q }) (q := q) hq hking'
    have hwins : Wins r.pf q k ↔
        Adjacent q k ∧ capture r.pf q k = .sKing ∧ Enclosed (capture r.pf q) k := by
      simp [Wins, hb]
    rw [hcaptured, ok_bind] at h
    rw [if_congr hwins rfl rfl]
    simp only [decide_eq_true_eq] at h
    split_ifs at h ⊢
    · cases h
      rfl
    · cases h
      rfl
  · have hwins : ¬ Wins r.pf q k := by simp [Wins, hk, hb]
    rw [if_neg hb] at h
    rw [if_neg hwins]
    cases h
    rfl

/-- **What an accepted move does**: `p` and `q` are the squares it spells. -/
theorem processMove_accepted {t : Coordinates} (h : r.processMove t.text = .ok (r', true)) :
    ∃ p q, t.Spells p q ∧ r.LegalFields (r.pf p) (r.pf q) ∧ ClearWay r.pf p q ∧
      r'.pf = capture (relocate r.pf p q) q ∧
      ∀ k, (∀ z, relocate r.pf p q z = .sKing → z = k) →
        r'.gameState = if Wins (relocate r.pf p q) q k then .gameover else r.gameState := by
  obtain ⟨p, q, hspells, hfields, hway⟩ := (processMove_coordinates t h).1 rfl
  refine ⟨p, q, hspells, hfields, hway, ?_⟩
  obtain ⟨r₁, hparse, h₁⟩ := bind_eq_ok.1 h
  obtain ⟨valid, hvalid, h₂⟩ := bind_eq_ok.1 h₁
  obtain ⟨hp, hq⟩ := spells_iff.1 hspells
  rw [parseMove_eq] at hparse
  cases hparse
  cases valid with
  | false => cases h₂
  | true =>
    rw [if_pos rfl, move_eq hp hq, ok_bind] at h₂
    obtain ⟨r₂, hcap, h₃⟩ := bind_eq_ok.1 h₂
    cases h₃
    exact ⟨checkCaptures_pf hq hcap, fun k hk => checkCaptures_gameState hq hk hcap⟩

end RoomHnefatafl

/-! ### How many stones are taken -/

section Bound

variable {pf : Playfield} {p q x : Square}

theorem relocate_target (pf : Playfield) (hne : p ≠ q) :
    RoomHnefatafl.relocate pf p q q = pf p := by
  rw [RoomHnefatafl.relocate, Function.update_of_ne hne.symm, Function.update_self]

/-- The stone has come to `q` from, or over, one of the squares next to `q`. -/
theorem ClearWay.back (h : ClearWay pf p q) :
    ∃ d x, beyond q d 1 = some x ∧ (x = p ∨ Between p x q) := by
  obtain ⟨⟨py, hpy⟩, ⟨px, hpx⟩⟩ := p
  obtain ⟨⟨qy, hqy⟩, ⟨qx, hqx⟩⟩ := q
  have hne := h.ne
  have hline := h.line
  simp only [ne_eq, Prod.mk.injEq, Fin.mk.injEq, not_and] at hne hline
  have hnext : ∀ (d : Direction) (x : Square), (x.1.val : ℤ) = qy + 1 * d.dy ∧
      (x.2.val : ℤ) = qx + 1 * d.dx → beyond (⟨qy, hqy⟩, ⟨qx, hqx⟩) d 1 = some x :=
    fun d x hx => beyond_eq_some.2 hx
  rcases hline with rfl | rfl
  · have hx : px ≠ qx := hne rfl
    rcases Nat.lt_or_gt_of_ne hx with hlt | hlt
    · refine ⟨.left, (⟨py, hpy⟩, ⟨qx - 1, by omega⟩), hnext _ _ ?_, ?_⟩
      · simp only [Direction.dy, Direction.dx]
        omega
      · simp only [Between, Prod.mk.injEq, Fin.mk.injEq, Fin.mk_lt_mk, true_and]
        omega
    · refine ⟨.right, (⟨py, hpy⟩, ⟨qx + 1, by omega⟩), hnext _ _ ?_, ?_⟩
      · simp only [Direction.dy, Direction.dx]
        omega
      · simp only [Between, Prod.mk.injEq, Fin.mk.injEq, Fin.mk_lt_mk, true_and]
        omega
  · have hy : py ≠ qy := fun hy => hne hy rfl
    rcases Nat.lt_or_gt_of_ne hy with hlt | hlt
    · refine ⟨.up, (⟨qy - 1, by omega⟩, ⟨px, hpx⟩), hnext _ _ ?_, ?_⟩
      · simp only [Direction.dy, Direction.dx]
        omega
      · simp only [Between, Prod.mk.injEq, Fin.mk.injEq, Fin.mk_lt_mk, true_and, and_true]
        omega
    · refine ⟨.down, (⟨qy + 1, by omega⟩, ⟨px, hpx⟩), hnext _ _ ?_, ?_⟩
      · simp only [Direction.dy, Direction.dx]
        omega
      · simp only [Between, Prod.mk.injEq, Fin.mk.injEq, Fin.mk_lt_mk, true_and, and_true]
        omega

/-- Behind the stone, on the side from which it has come, there is no stone. -/
theorem ClearWay.passable (h : ClearWay pf p q) (hx : x = p ∨ Between p x q) :
    (RoomHnefatafl.relocate pf p q x).Passable := by
  by_cases hxp : x = p
  · rw [RoomHnefatafl.relocate, hxp, Function.update_self]
    split_ifs
    · exact Or.inr rfl
    · exact Or.inl rfl
  · have hbetween := hx.resolve_left hxp
    have hxq : x ≠ q := by
      rintro rfl
      rcases hbetween with ⟨-, -, hlt | hlt⟩ | ⟨-, -, hlt | hlt⟩
      · exact lt_irrefl _ hlt.2
      · exact lt_irrefl _ hlt.1
      · exact lt_irrefl _ hlt.2
      · exact lt_irrefl _ hlt.1
    rw [RoomHnefatafl.relocate, Function.update_of_ne hxp, Function.update_of_ne hxq]
    exact h.free x hbetween

/-- **A move takes three stones at most**: nothing stands on the side from which the stone has
come. -/
theorem card_captured_le (h : ClearWay pf p q) :
    (Finset.univ.filter (Captured (RoomHnefatafl.relocate pf p q) q)).card ≤ 3 := by
  obtain ⟨d, x, hd, hx⟩ := h.back
  have hsub : Finset.univ.filter (Captured (RoomHnefatafl.relocate pf p q) q) ⊆
      (Finset.univ.erase d).image fun e => (beyond q e 1).getD q := by
    intro z hz
    rw [Finset.mem_filter] at hz
    obtain ⟨e, y, hz₁, hz₂, htakes⟩ := hz.2
    refine Finset.mem_image.2 ⟨e, Finset.mem_erase.2 ⟨?_, Finset.mem_univ e⟩, by rw [hz₁]; rfl⟩
    rintro rfl
    obtain rfl : x = z := Option.some.inj (hd.symm.trans hz₁)
    have hpass := h.passable hx
    rcases htakes.1 with ⟨-, hstone⟩ | ⟨-, hstone⟩
    · rcases hpass with hp | hp <;> simp [hp] at hstone
    · rcases hpass with hp | hp <;> simp [hp] at hstone
  have hcard : (Finset.univ.erase d).card = 3 := by
    rw [Finset.card_erase_of_mem (Finset.mem_univ d)]
    rfl
  calc (Finset.univ.filter (Captured (RoomHnefatafl.relocate pf p q) q)).card
      ≤ ((Finset.univ.erase d).image fun e => (beyond q e 1).getD q).card :=
        Finset.card_le_card hsub
    _ ≤ (Finset.univ.erase d).card := Finset.card_image_le
    _ = 3 := hcard

end Bound

end HnefServer
