import HnefServer.Game.Rules
import Mathlib.Algebra.Group.End
import Mathlib.Algebra.Group.Subgroup.Lattice
import Mathlib.Data.Fin.Rev
import Mathlib.Logic.Equiv.Prod

/-!
# The symmetries of the board

The source spells out every rule once for each of the four directions.  Here they are compared: a
`Symmetry` is a permutation of the squares that carries steps in one direction to steps in another
one, and keeps the middle, the corners and the opening.  All rules are invariant under it, so that
a game can be played upside down or turned (`game_trace_symm`).
-/

namespace HnefServer

open RoomHnefatafl

/-! ### Lines -/

section Lines

variable {pf : Playfield} {p q x : Square}

/-- Different squares of a row or a column are those that steps in one direction connect. -/
theorem line_iff : p ≠ q ∧ (p.1 = q.1 ∨ p.2 = q.2) ↔
    ∃ (d : Direction) (n : ℤ), 0 < n ∧ beyond p d n = some q := by
  simp only [beyond_eq_some, ne_eq, Prod.ext_iff, Fin.ext_iff]
  constructor
  · rintro ⟨hne, h | h⟩
    · rcases Nat.lt_or_gt_of_ne (fun h' => hne ⟨h, h'⟩) with hlt | hlt
      · exact ⟨.right, q.2.val - p.2.val, by omega, by simp [Direction.dy, h],
          by simp [Direction.dx]⟩
      · exact ⟨.left, p.2.val - q.2.val, by omega, by simp [Direction.dy, h],
          by simp [Direction.dx]⟩
    · rcases Nat.lt_or_gt_of_ne (fun h' => hne ⟨h', h⟩) with hlt | hlt
      · exact ⟨.down, q.1.val - p.1.val, by omega, by simp [Direction.dy],
          by simp [Direction.dx, h]⟩
      · exact ⟨.up, p.1.val - q.1.val, by omega, by simp [Direction.dy],
          by simp [Direction.dx, h]⟩
  · rintro ⟨d, n, hn, h₁, h₂⟩
    cases d <;> simp only [Direction.dy, Direction.dx] at h₁ h₂ <;> omega

/-- The squares between two squares are the ones passed on the way. -/
theorem between_iff : Between p x q ↔ ∃ (d : Direction) (m n : ℤ), 0 < m ∧ m < n ∧
    beyond p d m = some x ∧ beyond p d n = some q := by
  simp only [beyond_eq_some, Between, Fin.ext_iff, Fin.lt_def]
  constructor
  · rintro (⟨h₁, h₂, h | h⟩ | ⟨h₁, h₂, h | h⟩)
    · exact ⟨.right, x.2.val - p.2.val, q.2.val - p.2.val, by omega, by omega,
        ⟨by simp [Direction.dy, h₁], by simp [Direction.dx]⟩,
        ⟨by simp [Direction.dy, ← h₁, h₂], by simp [Direction.dx]⟩⟩
    · exact ⟨.left, p.2.val - x.2.val, p.2.val - q.2.val, by omega, by omega,
        ⟨by simp [Direction.dy, h₁], by simp [Direction.dx]⟩,
        ⟨by simp [Direction.dy, ← h₁, h₂], by simp [Direction.dx]⟩⟩
    · exact ⟨.down, x.1.val - p.1.val, q.1.val - p.1.val, by omega, by omega,
        ⟨by simp [Direction.dy], by simp [Direction.dx, h₁]⟩,
        ⟨by simp [Direction.dy], by simp [Direction.dx, ← h₁, h₂]⟩⟩
    · exact ⟨.up, p.1.val - x.1.val, p.1.val - q.1.val, by omega, by omega,
        ⟨by simp [Direction.dy], by simp [Direction.dx, h₁]⟩,
        ⟨by simp [Direction.dy], by simp [Direction.dx, ← h₁, h₂]⟩⟩
  · rintro ⟨d, m, n, hm, hn, ⟨h₁, h₂⟩, h₃, h₄⟩
    cases d <;> simp only [Direction.dy, Direction.dx] at h₁ h₂ h₃ h₄ <;> omega

end Lines

/-! ### Symmetries -/

/-- A symmetry of the board: `turned` is what it does to the directions. -/
structure Symmetry (σ : Equiv.Perm Square) : Prop where
  turned : ∃ δ : Equiv.Perm Direction, ∀ (q : Square) (d : Direction) (n : ℤ) (x : Square),
    beyond (σ q) (δ d) n = some (σ x) ↔ beyond q d n = some x
  centre : σ centre = centre
  corner : ∀ q, IsCorner (σ q) ↔ IsCorner q
  start : Playfield.start ∘ σ = Playfield.start

namespace Symmetry

variable {σ τ : Equiv.Perm Square}

theorem one : Symmetry 1 where
  turned := ⟨1, fun _ _ _ _ => Iff.rfl⟩
  centre := rfl
  corner _ := Iff.rfl
  start := rfl

theorem mul (hσ : Symmetry σ) (hτ : Symmetry τ) : Symmetry (σ * τ) where
  turned := by
    obtain ⟨δ, hδ⟩ := hσ.turned
    obtain ⟨ε, hε⟩ := hτ.turned
    exact ⟨δ * ε, fun q d n x => (hδ (τ q) (ε d) n (τ x)).trans (hε q d n x)⟩
  centre := by rw [Equiv.Perm.mul_apply, hτ.centre, hσ.centre]
  corner q := (hσ.corner (τ q)).trans (hτ.corner q)
  start := by rw [Equiv.Perm.coe_mul, ← Function.comp_assoc, hσ.start, hτ.start]

theorem inv (hσ : Symmetry σ) : Symmetry σ⁻¹ where
  turned := by
    obtain ⟨δ, hδ⟩ := hσ.turned
    refine ⟨δ⁻¹, fun q d n x => ?_⟩
    rw [← hδ]
    simp only [Equiv.Perm.inv_def, Equiv.apply_symm_apply]
  centre := by rw [Equiv.Perm.inv_eq_iff_eq, hσ.centre]
  corner q := by rw [← hσ.corner, Equiv.Perm.inv_def, Equiv.apply_symm_apply]
  start := by
    funext q
    have h := congrFun hσ.start (σ⁻¹ q)
    rw [Function.comp_apply, Equiv.Perm.inv_def, Equiv.apply_symm_apply] at h
    exact h.symm

/-- Steps are carried to steps, and back. -/
theorem exists_turned (hσ : Symmetry σ) : ∃ δ ε : Direction → Direction,
    (∀ {q d n x}, beyond q d n = some x → beyond (σ q) (δ d) n = some (σ x)) ∧
      ∀ {q d n x}, beyond (σ q) d n = some (σ x) → beyond q (ε d) n = some x := by
  obtain ⟨δ, hδ⟩ := hσ.turned
  refine ⟨δ, δ.symm, fun h => (hδ _ _ _ _).2 h, fun h => (hδ _ _ _ _).1 ?_⟩
  rwa [Equiv.apply_symm_apply]

end Symmetry

/-- The board upside down. -/
def upsideDown : Equiv.Perm Square := Fin.revPerm.prodCongr (Equiv.refl _)

/-- Rows for columns. -/
def transposed : Equiv.Perm Square := Equiv.prodComm _ _

namespace Direction

/-- The directions on the board upside down. -/
def upsideDown : Equiv.Perm Direction := Equiv.swap down up

/-- The directions after rows are exchanged for columns. -/
def transposed : Equiv.Perm Direction := (Equiv.swap right down).trans (Equiv.swap left up)

variable (d : Direction)

theorem dy_upsideDown : (upsideDown d).dy = -d.dy := by cases d <;> decide

theorem dx_upsideDown : (upsideDown d).dx = d.dx := by cases d <;> decide

theorem dy_transposed : (transposed d).dy = d.dx := by cases d <;> decide

theorem dx_transposed : (transposed d).dx = d.dy := by cases d <;> decide

end Direction

theorem startRows_rev :
    ∀ i j : Fin 11, Playfield.startRows i.rev j = Playfield.startRows i j := by
  decide +kernel

theorem startRows_swap :
    ∀ i j : Fin 11, Playfield.startRows j i = Playfield.startRows i j := by
  decide +kernel

theorem edge_rev : ∀ i : Fin 11, i.rev = 0 ∨ i.rev = 10 ↔ i = 0 ∨ i = 10 := by decide

theorem symmetry_upsideDown : Symmetry upsideDown where
  turned := by
    refine ⟨Direction.upsideDown, fun q d n x => ?_⟩
    simp only [beyond_eq_some, upsideDown, Equiv.prodCongr_apply, Prod.map_fst, Prod.map_snd,
      Fin.revPerm_apply, Fin.val_rev, Equiv.refl_apply, Direction.dy_upsideDown,
      Direction.dx_upsideDown, mul_neg]
    have hq := q.1.isLt
    have hx := x.1.isLt
    omega
  centre := by decide
  corner q := and_congr_left' (edge_rev q.1)
  start := by
    funext q
    exact startRows_rev q.1 q.2

theorem symmetry_transposed : Symmetry transposed where
  turned := by
    refine ⟨Direction.transposed, fun q d n x => ?_⟩
    simp only [beyond_eq_some, transposed, Equiv.prodComm_apply, Prod.fst_swap, Prod.snd_swap,
      Direction.dy_transposed, Direction.dx_transposed]
    exact and_comm
  centre := by decide
  corner _ := and_comm
  start := by
    funext q
    exact startRows_swap q.1 q.2

/-- The eight symmetries of the board. -/
def boardSymmetries : Subgroup (Equiv.Perm Square) :=
  Subgroup.closure {upsideDown, transposed}

theorem symmetry_of_mem {σ : Equiv.Perm Square} (hσ : σ ∈ boardSymmetries) : Symmetry σ := by
  induction hσ using Subgroup.closure_induction with
  | mem τ hτ =>
    rcases hτ with rfl | rfl
    · exact symmetry_upsideDown
    · exact symmetry_transposed
  | one => exact .one
  | mul _ _ _ _ h h' => exact h.mul h'
  | inv _ _ h => exact h.inv

/-! ### The rules -/

namespace Symmetry

variable {σ : Equiv.Perm Square} {pf pf' : Playfield} {side : Side} {p q k x : Square}

theorem adjacent_iff (hσ : Symmetry σ) : Adjacent (σ q) (σ x) ↔ Adjacent q x := by
  obtain ⟨δ, ε, hδ, hε⟩ := hσ.exists_turned
  constructor
  · rintro ⟨d, h⟩
    exact ⟨ε d, hε h⟩
  · rintro ⟨d, h⟩
    exact ⟨δ d, hδ h⟩

theorem captured_iff (hσ : Symmetry σ) : Captured (pf ∘ σ) q x ↔ Captured pf (σ q) (σ x) := by
  obtain ⟨δ, ε, hδ, hε⟩ := hσ.exists_turned
  constructor
  · rintro ⟨d, y, h₁, h₂, htakes⟩
    exact ⟨δ d, σ y, hδ h₁, hδ h₂, htakes⟩
  · rintro ⟨d, y, h₁, h₂, htakes⟩
    obtain ⟨y, rfl⟩ := σ.surjective y
    exact ⟨ε d, y, hε h₁, hε h₂, htakes⟩

theorem enclosed_iff (hσ : Symmetry σ) : Enclosed (pf ∘ σ) k ↔ Enclosed pf (σ k) := by
  constructor
  · intro h y hy
    obtain ⟨y, rfl⟩ := σ.surjective y
    exact h y (hσ.adjacent_iff.1 hy)
  · intro h y hy
    exact h (σ y) (hσ.adjacent_iff.2 hy)

theorem between_iff (hσ : Symmetry σ) : Between (σ p) (σ x) (σ q) ↔ Between p x q := by
  obtain ⟨δ, ε, hδ, hε⟩ := hσ.exists_turned
  rw [HnefServer.between_iff, HnefServer.between_iff]
  constructor
  · rintro ⟨d, m, n, hm, hn, h₁, h₂⟩
    exact ⟨ε d, m, n, hm, hn, hε h₁, hε h₂⟩
  · rintro ⟨d, m, n, hm, hn, h₁, h₂⟩
    exact ⟨δ d, m, n, hm, hn, hδ h₁, hδ h₂⟩

theorem aligned_iff (hσ : Symmetry σ) :
    (σ p ≠ σ q ∧ ((σ p).1 = (σ q).1 ∨ (σ p).2 = (σ q).2)) ↔
      p ≠ q ∧ (p.1 = q.1 ∨ p.2 = q.2) := by
  obtain ⟨δ, ε, hδ, hε⟩ := hσ.exists_turned
  rw [line_iff, line_iff]
  constructor
  · rintro ⟨d, n, hn, h⟩
    exact ⟨ε d, n, hn, hε h⟩
  · rintro ⟨d, n, hn, h⟩
    exact ⟨δ d, n, hn, hδ h⟩

theorem clearWay_iff (hσ : Symmetry σ) :
    ClearWay (pf ∘ σ) p q ↔ ClearWay pf (σ p) (σ q) := by
  constructor
  · intro h
    obtain ⟨hne, hline⟩ := hσ.aligned_iff.2 ⟨h.ne, h.line⟩
    refine ⟨hne, hline, fun x hx => ?_⟩
    obtain ⟨x, rfl⟩ := σ.surjective x
    exact h.free x (hσ.between_iff.1 hx)
  · intro h
    obtain ⟨hne, hline⟩ := hσ.aligned_iff.1 ⟨h.ne, h.line⟩
    exact ⟨hne, hline, fun x hx => h.free (σ x) (hσ.between_iff.2 hx)⟩

theorem legal_iff (hσ : Symmetry σ) : Legal (pf ∘ σ) side p q ↔ Legal pf side (σ p) (σ q) := by
  constructor
  · intro h
    exact ⟨h.own, h.target, hσ.clearWay_iff.1 h.way⟩
  · intro h
    exact ⟨h.own, h.target, hσ.clearWay_iff.2 h.way⟩

theorem relocate_comp (hσ : Symmetry σ) :
    relocate (pf ∘ σ) p q = relocate pf (σ p) (σ q) ∘ σ := by
  have hcentre : σ p = RoomHnefatafl.centre ↔ p = RoomHnefatafl.centre := by
    rw [← σ.injective.eq_iff (a := p), hσ.centre]
  funext x
  simp only [relocate, Function.update_apply, Function.comp_apply, σ.injective.eq_iff, hcentre]

theorem capture_comp (hσ : Symmetry σ) : capture (pf ∘ σ) q = capture pf (σ q) ∘ σ := by
  funext x
  simp only [capture, Function.comp_apply, hσ.captured_iff]

theorem after_comp (hσ : Symmetry σ) :
    Playfield.after (pf ∘ σ) p q = pf.after (σ p) (σ q) ∘ σ := by
  rw [Playfield.after, hσ.relocate_comp, hσ.capture_comp, Playfield.after]

theorem endsGame_iff (hσ : Symmetry σ) :
    EndsGame (pf ∘ σ) p q (pf' ∘ σ) ↔ EndsGame pf (σ p) (σ q) pf' := by
  refine or_congr (and_congr_right' (hσ.corner q).symm) (and_congr_right' ?_)
  constructor
  · rintro ⟨k, hk, hadj, henc⟩
    exact ⟨σ k, hk, hσ.adjacent_iff.2 hadj, hσ.enclosed_iff.1 henc⟩
  · rintro ⟨k, hk, hadj, henc⟩
    obtain ⟨k, rfl⟩ := σ.surjective k
    exact ⟨k, hk, hσ.adjacent_iff.1 hadj, hσ.enclosed_iff.2 henc⟩

end Symmetry

/-! ### Games -/

/-- The position on the turned board. -/
def Position.comp (P : Position) (σ : Equiv.Perm Square) : Position :=
  { P with board := P.board ∘ σ }

section Games

variable {σ : Equiv.Perm Square} {P P' : Position} {p q : Square} {ls : List (Square × Square)}

theorem Symmetry.move_comp (hσ : Symmetry σ) :
    (P.comp σ).move p q = (P.move (σ p) (σ q)).comp σ := by
  simp only [Position.move, Position.comp, hσ.after_comp, hσ.endsGame_iff]

theorem Symmetry.guard_iff (hσ : Symmetry σ) :
    game.guard (P.comp σ) (p, q) ↔ game.guard P (σ p, σ q) :=
  and_congr_right' hσ.legal_iff

theorem Symmetry.step (hσ : Symmetry σ) {l : Square × Square} (h : game.Step P l P') :
    game.Step (P.comp σ⁻¹) (Prod.map σ σ l) (P'.comp σ⁻¹) := by
  obtain ⟨p, q⟩ := l
  have hback : ∀ x, σ⁻¹ (σ x) = x := fun x => σ.symm_apply_apply x
  obtain ⟨hguard, hexec⟩ := h
  cases Except.ok.inj hexec
  refine ⟨hσ.inv.guard_iff.2 ?_, congrArg Except.ok ?_⟩
  · rw [hback, hback]
    exact hguard
  · refine hσ.inv.move_comp.trans ?_
    simp only [Prod.map_fst, Prod.map_snd, hback]

/-- **Games on the turned board**: the moves of a game, turned, lead from the opening to the turned
position. -/
theorem Symmetry.trace (hσ : Symmetry σ) (h : game.Trace Position.start ls P) :
    game.Trace Position.start (ls.map (Prod.map σ σ)) (P.comp σ⁻¹) := by
  have hstart : Position.start.comp σ⁻¹ = Position.start := by
    rw [Position.comp, Position.start, hσ.inv.start]
  have htrace := h.map (fun P => P.comp σ⁻¹) (Prod.map σ σ) fun _ _ _ => hσ.step
  rwa [hstart] at htrace

end Games

end HnefServer
