import Mathlib.Data.List.Forall2
import Mathlib.Tactic.SplitIfs

/-!
# Lists related position by position

`List.Forall₂ R xs ys` under the operations of a vector: changing, erasing and appending an
element, and under composition of relations.  The two lists are read through `[i]?`
(`forall₂_iff_getElem?`), as iterators read a vector.
-/

namespace HnefServer

variable {α β γ : Type*} {R : α → β → Prop} {xs : List α} {ys : List β}

theorem forall₂_iff_getElem? : List.Forall₂ R xs ys ↔ xs.length = ys.length ∧
    ∀ (i : ℕ) (a : α) (b : β), xs[i]? = some a → ys[i]? = some b → R a b := by
  rw [List.forall₂_iff_get]
  refine and_congr_right fun _ => ⟨fun h i a b ha hb => ?_, fun h i hx hy => ?_⟩
  · obtain ⟨hx, rfl⟩ := List.getElem?_eq_some_iff.1 ha
    obtain ⟨hy, rfl⟩ := List.getElem?_eq_some_iff.1 hb
    exact h i hx hy
  · exact h i _ _ (List.getElem?_eq_getElem hx) (List.getElem?_eq_getElem hy)

/-- The element of the second list at the position of one of the first. -/
theorem forall₂_exists_right (h : List.Forall₂ R xs ys) {i : ℕ} {a : α} (ha : xs[i]? = some a) :
    ∃ b, ys[i]? = some b ∧ R a b := by
  rw [forall₂_iff_getElem?] at h
  have hlt : i < ys.length := h.1 ▸ (List.getElem?_eq_some_iff.1 ha).1
  exact ⟨ys[i], List.getElem?_eq_getElem hlt, h.2 i a _ ha (List.getElem?_eq_getElem hlt)⟩

/-- The element of the first list at the position of one of the second. -/
theorem forall₂_exists_left (h : List.Forall₂ R xs ys) {i : ℕ} {b : β} (hb : ys[i]? = some b) :
    ∃ a, xs[i]? = some a ∧ R a b := by
  rw [forall₂_iff_getElem?] at h
  have hlt : i < xs.length := h.1 ▸ (List.getElem?_eq_some_iff.1 hb).1
  exact ⟨xs[i], List.getElem?_eq_getElem hlt, h.2 i _ b (List.getElem?_eq_getElem hlt) hb⟩

/-- One element of the second list changes. -/
theorem forall₂_modify_right (h : List.Forall₂ R xs ys) {i : ℕ} {f : β → β}
    (hf : ∀ a b, xs[i]? = some a → ys[i]? = some b → R a b → R a (f b)) :
    List.Forall₂ R xs (ys.modify i f) := by
  rw [forall₂_iff_getElem?] at h ⊢
  refine ⟨h.1.trans (List.length_modify ..).symm, fun j a b ha hb => ?_⟩
  rw [List.getElem?_modify] at hb
  obtain ⟨b', hb', rfl⟩ := Option.map_eq_some_iff.1 hb
  by_cases hij : i = j
  · subst hij
    rw [if_pos rfl]
    exact hf a b' ha hb' (h.2 i a b' ha hb')
  · rw [if_neg hij]
    exact h.2 j a b' ha hb'

/-- The elements of one position change in both lists. -/
theorem forall₂_modify_both (h : List.Forall₂ R xs ys) {i : ℕ} {f : α → α} {g : β → β}
    (hfg : ∀ a b, xs[i]? = some a → ys[i]? = some b → R a b → R (f a) (g b)) :
    List.Forall₂ R (xs.modify i f) (ys.modify i g) := by
  rw [forall₂_iff_getElem?] at h ⊢
  refine ⟨by simpa using h.1, fun j a b ha hb => ?_⟩
  rw [List.getElem?_modify] at ha hb
  obtain ⟨a', ha', rfl⟩ := Option.map_eq_some_iff.1 ha
  obtain ⟨b', hb', rfl⟩ := Option.map_eq_some_iff.1 hb
  by_cases hij : i = j
  · subst hij
    rw [if_pos rfl, if_pos rfl]
    exact hfg a' b' ha' hb' (h.2 i a' b' ha' hb')
  · rw [if_neg hij, if_neg hij]
    exact h.2 j a' b' ha' hb'

/-- The elements of one position are erased. -/
theorem forall₂_eraseIdx (h : List.Forall₂ R xs ys) (i : ℕ) :
    List.Forall₂ R (xs.eraseIdx i) (ys.eraseIdx i) := by
  rw [forall₂_iff_getElem?] at h ⊢
  refine ⟨by rw [List.length_eraseIdx, List.length_eraseIdx, h.1], fun j a b ha hb => ?_⟩
  rw [List.getElem?_eraseIdx] at ha hb
  split_ifs at ha hb
  · exact h.2 j a b ha hb
  · exact h.2 (j + 1) a b ha hb

theorem forall₂_append (h : List.Forall₂ R xs ys) {xs' : List α} {ys' : List β}
    (h' : List.Forall₂ R xs' ys') : List.Forall₂ R (xs ++ xs') (ys ++ ys') :=
  List.rel_append h h'

theorem forall₂_trans {S : β → γ → Prop} {T : α → γ → Prop} {zs : List γ}
    (hR : List.Forall₂ R xs ys) (hS : List.Forall₂ S ys zs)
    (hT : ∀ a b c, R a b → S b c → T a c) : List.Forall₂ T xs zs := by
  induction hR generalizing zs with
  | nil =>
    cases hS
    exact .nil
  | cons hab _ ih =>
    cases hS with
    | cons hbc hrest => exact .cons (hT _ _ _ hab hbc) (ih hrest)

/-- One element of a list changes. -/
theorem forall₂_modify {R : α → α → Prop} (hR : ∀ a, R a a) {i : ℕ} {f : α → α}
    (hf : ∀ a, xs[i]? = some a → R a (f a)) : List.Forall₂ R xs (xs.modify i f) := by
  refine forall₂_modify_right (List.forall₂_same.2 fun a _ => hR a) fun a b ha hb _ => ?_
  obtain rfl : a = b := Option.some.inj (ha.symm.trans hb)
  exact hf a ha

end HnefServer
