import HnefServer.Game.Move
import Mathlib.Data.Fintype.Prod
import Mathlib.Data.Finset.Card

/-!
# The board invariant

`BoardInv` says how the special fields and the King stand while a game goes on: the corners are
escapes, the middle is the throne or holds the King, no other square is special, and there is
exactly one King.  `RoomHnefatafl.processMove_board` carries it over a move that leaves the game
open, and `RoomHnefatafl.processMove_stones` says that no move adds a warrior.
-/

namespace HnefServer

open RoomHnefatafl

/-- The state of the special fields while a game goes on. -/
structure BoardInv (pf : Playfield) : Prop where
  corners : ∀ q, IsCorner q → pf q = .fEscape
  middle : pf centre = .fThrone ∨ pf centre = .sKing
  throne : ∀ q, pf q = .fThrone → q = centre
  escape : ∀ q, pf q = .fEscape → IsCorner q
  king : ∃! q, pf q = .sKing

/-- How many squares hold `f`. -/
def Playfield.stones (pf : Playfield) (f : Field) : ℕ :=
  (Finset.univ.filter fun q => pf q = f).card

namespace BoardInv

variable {pf pf' : Playfield} {p q : Square}

theorem start : BoardInv Playfield.start where
  corners := by decide +kernel
  middle := by decide +kernel
  throne := by decide +kernel
  escape := by decide +kernel
  king := ⟨centre, by decide +kernel, by decide +kernel⟩

/-- Taking a warrior off the board keeps the invariant. -/
theorem clear (h : BoardInv pf) (hq : pf q = .sBlack ∨ pf q = .sWhite) :
    BoardInv (Function.update pf q .fEmpty) := by
  have hcorner : ¬ IsCorner q := fun hc => by simp [h.corners q hc] at hq
  have hcentre : q ≠ centre := by
    rintro rfl
    rcases h.middle with hm | hm <;> simp [hm] at hq
  have hother : ∀ x f, Function.update pf q .fEmpty x = f → f ≠ .fEmpty → pf x = f := by
    intro x f hx hf
    by_cases hxq : x = q
    · subst hxq
      rw [Function.update_self] at hx
      exact absurd hx.symm hf
    · rwa [Function.update_of_ne hxq] at hx
  refine ⟨fun x hx => ?_, ?_, fun x hx => h.throne x (hother x _ hx (by decide)),
    fun x hx => h.escape x (hother x _ hx (by decide)), ?_⟩
  · have hxq : x ≠ q := by
      rintro rfl
      exact hcorner hx
    rw [Function.update_of_ne hxq]
    exact h.corners x hx
  · rw [Function.update_of_ne hcentre.symm]
    exact h.middle
  · obtain ⟨k, hk, huniq⟩ := h.king
    have hkq : k ≠ q := by
      rintro rfl
      simp [hk] at hq
    exact ⟨k, (Function.update_of_ne hkq _ _).trans hk,
      fun x hx => huniq x (hother x _ hx (by decide))⟩

theorem captures (h : BoardInv pf) (hpf : pf.Captures pf') : BoardInv pf' := by
  induction hpf with
  | refl => exact h
  | tail _ hst ih =>
    obtain ⟨q, hq, rfl⟩ := hst
    exact ih.clear hq

/-- Moving a stone to a free square keeps the invariant, unless it is the King that enters a
corner. -/
theorem relocate (h : BoardInv pf) (hne : p ≠ q)
    (hp : (pf p = .sBlack ∨ pf p = .sWhite) ∧ pf q = .fEmpty ∨
      pf p = .sKing ∧ (pf q = .fEmpty ∨ pf q = .fThrone ∨ pf q = .fEscape))
    (hcorner : ¬ (pf p = .sKing ∧ IsCorner q)) : BoardInv (relocate pf p q) := by
  have hq : ¬ IsCorner q := by
    intro hc
    rcases hp with ⟨-, hq⟩ | ⟨hk, -⟩
    · simp [h.corners q hc] at hq
    · exact hcorner ⟨hk, hc⟩
  have hpc : ¬ IsCorner p := by
    intro hc
    rcases hp with ⟨hp | hp, -⟩ | ⟨hp, -⟩ <;> simp [h.corners p hc] at hp
  have hat : ∀ x, RoomHnefatafl.relocate pf p q x =
      if x = p then (if p = centre then .fThrone else .fEmpty) else
        if x = q then pf p else pf x := by
    intro x
    simp only [RoomHnefatafl.relocate, Function.update_apply]
  -- the stone that leaves the middle is the King
  have hking : p = centre → pf p = .sKing := by
    rintro rfl
    rcases hp with ⟨hp | hp, -⟩ | ⟨hp, -⟩
    · rcases h.middle with hm | hm <;> simp [hm] at hp
    · rcases h.middle with hm | hm <;> simp [hm] at hp
    · exact hp
  refine ⟨fun x hx => ?_, ?_, fun x hx => ?_, fun x hx => ?_, ?_⟩
  · have hxp : x ≠ p := by
      rintro rfl
      exact hpc hx
    have hxq : x ≠ q := by
      rintro rfl
      exact hq hx
    rw [hat, if_neg hxp, if_neg hxq]
    exact h.corners x hx
  · rw [hat]
    split_ifs with h₁ h₂ h₃
    · exact Or.inl rfl
    · exact absurd h₁.symm h₂
    · rcases hp with ⟨-, hq'⟩ | ⟨hk, -⟩
      · rcases h.middle with hm | hm <;> simp [← h₃, hm] at hq'
      · exact Or.inr hk
    · exact h.middle
  · rw [hat] at hx
    split_ifs at hx with h₁ h₂ h₃
    · exact h₁.trans h₂
    · rcases hp with ⟨hp | hp, -⟩ | ⟨hp, -⟩ <;> simp [hp] at hx
    · exact h.throne x hx
  · rw [hat] at hx
    split_ifs at hx with h₁ h₂ h₃
    · rcases hp with ⟨hp | hp, -⟩ | ⟨hp, -⟩ <;> simp [hp] at hx
    · exact h.escape x hx
  · obtain ⟨k, hk, huniq⟩ := h.king
    simp only at hk huniq
    by_cases hpk : pf p = .sKing
    · refine ⟨q, ?_, fun x hx => ?_⟩
      · simp only [hat, if_neg hne.symm, if_true, hpk]
      · simp only [hat] at hx
        split_ifs at hx with h₁ h₂ h₃
        · exact h₃
        · rw [huniq x hx, huniq p hpk] at h₁
          exact absurd rfl h₁
    · have hkp : k ≠ p := fun h' => hpk (h' ▸ hk)
      have hkq : k ≠ q := by
        rintro rfl
        rcases hp with ⟨-, hq'⟩ | ⟨hp, -⟩
        · simp [hk] at hq'
        · exact hpk hp
      refine ⟨k, ?_, fun x hx => ?_⟩
      · simp only [hat, if_neg hkp, if_neg hkq, hk]
      · simp only [hat] at hx
        split_ifs at hx with h₁ h₂ h₃
        · exact absurd hx hpk
        · exact huniq x hx

end BoardInv

namespace Playfield

variable {pf pf' : Playfield} {p q : Square} {f : Field}

theorem stones_le_of_imp (h : ∀ x, pf' x = f → pf x = f) : pf'.stones f ≤ pf.stones f :=
  Finset.card_le_card fun x hx => by
    simp only [Finset.mem_filter, Finset.mem_univ, true_and] at hx ⊢
    exact h x hx

theorem stones_captures (hpf : pf.Captures pf') (hf : f ≠ .fEmpty) :
    pf'.stones f ≤ pf.stones f := by
  induction hpf with
  | refl => exact le_rfl
  | tail _ hst ih =>
    obtain ⟨q, -, rfl⟩ := hst
    refine le_trans (stones_le_of_imp fun x hx => ?_) ih
    by_cases hxq : x = q
    · subst hxq
      rw [Function.update_self] at hx
      exact absurd hx.symm hf
    · rwa [Function.update_of_ne hxq] at hx

/-- Moving a stone does not add one. -/
theorem stones_relocate (hf : f ≠ .fEmpty ∧ f ≠ .fThrone) :
    Playfield.stones (relocate pf p q) f ≤ pf.stones f := by
  have hat : ∀ x, relocate pf p q x = f → x ≠ p ∧ (x = q ∧ pf p = f ∨ pf x = f) := by
    intro x hx
    simp only [relocate, Function.update_apply] at hx
    split_ifs at hx with h₁ h₂ h₃
    · exact absurd hx.symm hf.2
    · exact absurd hx.symm hf.1
    · exact ⟨h₁, Or.inl ⟨h₃, hx⟩⟩
    · exact ⟨h₁, Or.inr hx⟩
  by_cases hp : pf p = f
  · -- the stone of `p` is counted on `q` instead
    have hsub : (Finset.univ.filter fun x => relocate pf p q x = f) ⊆
        insert q ((Finset.univ.filter fun x => pf x = f).erase p) := by
      intro x hx
      simp only [Finset.mem_filter, Finset.mem_univ, true_and] at hx
      obtain ⟨hxp, ⟨rfl, -⟩ | hxf⟩ := hat x hx
      · exact Finset.mem_insert_self _ _
      · exact Finset.mem_insert_of_mem (Finset.mem_erase.2 ⟨hxp, by simpa using hxf⟩)
    have hmem : p ∈ Finset.univ.filter fun x => pf x = f := by simpa using hp
    calc Playfield.stones (relocate pf p q) f
        ≤ (insert q ((Finset.univ.filter fun x => pf x = f).erase p)).card :=
          Finset.card_le_card hsub
      _ ≤ ((Finset.univ.filter fun x => pf x = f).erase p).card + 1 := Finset.card_insert_le _ _
      _ = pf.stones f := Finset.card_erase_add_one hmem
  · refine stones_le_of_imp fun x hx => ?_
    obtain ⟨-, ⟨-, h⟩ | h⟩ := hat x hx
    · exact absurd h hp
    · exact h

end Playfield

namespace RoomHnefatafl

variable {r r' : RoomHnefatafl} {t : Text} {b : Bool}

/-- What a legal move finds on its two squares. -/
theorem LegalFields.stone {f g : Field} (h : r.LegalFields f g) :
    (f = .sBlack ∨ f = .sWhite) ∧ g = .fEmpty ∨
      f = .sKing ∧ (g = .fEmpty ∨ g = .fThrone ∨ g = .fEscape) := by
  rcases h with ⟨-, hf, hg⟩ | ⟨-, hf, hg⟩ | ⟨-, hf, hg⟩
  · exact Or.inl ⟨Or.inl hf, hg⟩
  · exact Or.inl ⟨Or.inr hf, hg⟩
  · exact Or.inr ⟨hf, hg⟩

/-- **A move that leaves the game open keeps the board invariant.** -/
theorem processMove_board (h : r.processMove t = .ok (r', b)) (hpf : BoardInv r.pf) :
    r'.gameState = .gameover ∨ r'.gameState = r.gameState ∧ BoardInv r'.pf := by
  rcases processMove_cases h with ⟨-, _, _, _, _, rfl⟩ |
    ⟨-, p, q, pf, gs, _, _, _, _, hlegal, hcap, hgs, -, -, rfl⟩
  · exact Or.inr ⟨rfl, hpf⟩
  · rcases hgs with rfl | ⟨rfl, hcorner⟩
    · exact Or.inl rfl
    · have hne : p ≠ q := fun hpq => hlegal.ne (congrArg r.pf hpq)
      exact Or.inr ⟨rfl, (hpf.relocate hne hlegal.stone hcorner).captures hcap⟩

/-- **No move adds a warrior**, nor a King. -/
theorem processMove_stones (h : r.processMove t = .ok (r', b)) {f : Field}
    (hf : f ≠ .fEmpty ∧ f ≠ .fThrone) : r'.pf.stones f ≤ r.pf.stones f := by
  rcases processMove_cases h with ⟨-, _, _, _, _, rfl⟩ |
    ⟨-, p, q, pf, gs, _, _, _, _, -, hcap, -, -, -, rfl⟩
  · exact le_rfl
  · exact (Playfield.stones_captures hcap hf.1).trans (Playfield.stones_relocate hf)

end RoomHnefatafl

theorem stones_start :
    Playfield.start.stones .sBlack = 24 ∧ Playfield.start.stones .sWhite = 12 := by
  decide +kernel

end HnefServer
