import Mathlib.Data.List.Basic

/-!
# Lists with distinct keys

`DistinctKeys key l` says that no two positions of `l` carry the same key, for a key function
that may give an element no key at all.  It is kept by erasing an element, by changes that keep
keys or drop them, and by appending an element with a key not in use; the first element with a
given key is then the only one (`DistinctKeys.findIdx_eq`).
-/

namespace HnefServer

variable {α β κ : Type*}

/-- No two positions of `l` carry the same key. -/
def DistinctKeys (key : α → Option κ) (l : List α) : Prop :=
  ∀ (i j : ℕ) (a b : α) (k : κ), l[i]? = some a → l[j]? = some b → key a = some k →
    key b = some k → i = j

variable {key : α → Option κ} {l : List α}

theorem distinctKeys_nil : DistinctKeys key [] := fun i j a b k h => by simp at h

namespace DistinctKeys

theorem eq_of_mem (h : DistinctKeys key l) {a b : α} {k : κ} (ha : a ∈ l) (hb : b ∈ l)
    (hka : key a = some k) (hkb : key b = some k) : a = b := by
  obtain ⟨i, hi⟩ := List.mem_iff_getElem?.1 ha
  obtain ⟨j, hj⟩ := List.mem_iff_getElem?.1 hb
  obtain rfl := h i j a b k hi hj hka hkb
  exact Option.some.inj (hi.symm.trans hj)

theorem eraseIdx (h : DistinctKeys key l) (n : ℕ) : DistinctKeys key (l.eraseIdx n) := by
  intro i j a b k hi hj ha hb
  rw [List.getElem?_eraseIdx] at hi hj
  split_ifs at hi hj with h₁ h₂ h₂
  · exact h i j a b k hi hj ha hb
  · have := h i (j + 1) a b k hi hj ha hb
    omega
  · have := h (i + 1) j a b k hi hj ha hb
    omega
  · have := h (i + 1) (j + 1) a b k hi hj ha hb
    omega

/-- The keys in use, position by position. -/
theorem nodup_filterMap (h : DistinctKeys key l) : (l.filterMap key).Nodup := by
  induction l with
  | nil => exact List.nodup_nil
  | cons a l ih =>
    have htail : (l.filterMap key).Nodup := ih (h.eraseIdx 0)
    cases ha : key a with
    | none =>
      rw [List.filterMap_cons_none ha]
      exact htail
    | some k =>
      rw [List.filterMap_cons_some ha, List.nodup_cons]
      refine ⟨fun hmem => ?_, htail⟩
      obtain ⟨b, hb, hkb⟩ := List.mem_filterMap.1 hmem
      obtain ⟨j, hj⟩ := List.mem_iff_getElem?.1 hb
      have hzero : 0 = j + 1 := h 0 (j + 1) a b k rfl hj ha hkb
      omega

theorem concat (h : DistinctKeys key l) {c : α}
    (hc : ∀ b ∈ l, ∀ k, key c = some k → key b ≠ some k) : DistinctKeys key (l ++ [c]) := by
  intro i j a b k hi hj ha hb
  rw [List.getElem?_append] at hi hj
  split_ifs at hi hj with h₁ h₂ h₂
  · exact h i j a b k hi hj ha hb
  · obtain ⟨-, rfl⟩ : j - l.length = 0 ∧ c = b := by
      simpa [List.getElem?_singleton] using hj
    exact absurd ha (hc a (List.mem_of_getElem? hi) k hb)
  · obtain ⟨-, rfl⟩ : i - l.length = 0 ∧ c = a := by
      simpa [List.getElem?_singleton] using hi
    exact absurd hb (hc b (List.mem_of_getElem? hj) k ha)
  · have hi : i - l.length = 0 ∧ c = a := by simpa [List.getElem?_singleton] using hi
    have hj : j - l.length = 0 ∧ c = b := by simpa [List.getElem?_singleton] using hj
    omega

/-- Changing one element keeps the keys distinct if its new key, when it differs from the old
one, is not in use. -/
theorem modify (h : DistinctKeys key l) {n : ℕ} {f : α → α}
    (hf : ∀ a, l[n]? = some a → ∀ k, key (f a) = some k →
      key a = some k ∨ ∀ (j : ℕ) (b : α), j ≠ n → l[j]? = some b → key b ≠ some k) :
    DistinctKeys key (l.modify n f) := by
  intro i j a b k hi hj ha hb
  rw [List.getElem?_modify] at hi hj
  by_cases hij : i = j
  · exact hij
  · simp only [Option.map_eq_map, Option.map_eq_some_iff] at hi hj
    obtain ⟨a', hi, rfl⟩ := hi
    obtain ⟨b', hj, rfl⟩ := hj
    split_ifs at ha hb with h₁ h₂ h₂
    · omega
    · subst h₁
      rcases hf a' hi k ha with hk | hk
      · exact h n j a' b' k hi hj hk hb
      · exact absurd hb (hk j b' (Ne.symm hij) hj)
    · subst h₂
      rcases hf b' hj k hb with hk | hk
      · exact h i n a' b' k hi hj ha hk
      · exact absurd ha (hk i a' hij hi)
    · exact h i j a' b' k hi hj ha hb

theorem modify_of_key_eq (h : DistinctKeys key l) {n : ℕ} {f : α → α}
    (hf : ∀ a, key (f a) = key a) : DistinctKeys key (l.modify n f) :=
  h.modify fun a _ _ hk => Or.inl ((hf a).symm.trans hk)

/-- Replacing an element by one with the same key. -/
theorem set_of_key_eq (h : DistinctKeys key l) {n : ℕ} {a b : α} (ha : l[n]? = some a)
    (hb : key b = key a) : DistinctKeys key (l.set n b) := by
  have hkey : ∀ (i : ℕ) (c : α), (l.set n b)[i]? = some c →
      ∃ c', l[i]? = some c' ∧ key c' = key c := by
    intro i c hc
    rw [List.getElem?_set] at hc
    split_ifs at hc with h₁ h₂
    · subst h₁
      exact ⟨a, ha, hb.symm.trans (congrArg key (Option.some.inj hc))⟩
    · exact ⟨c, hc, rfl⟩
  intro i j c d k hi hj hc hd
  obtain ⟨c', hc', hkc⟩ := hkey i c hi
  obtain ⟨d', hd', hkd⟩ := hkey j d hj
  exact h i j c' d' k hc' hd' (hkc.trans hc) (hkd.trans hd)

/-- An element takes the key of another, which loses it. -/
theorem steal (h : DistinctKeys key l) {i j : ℕ} {f g : α → α} {d : α} (hd : l[j]? = some d)
    (hf : ∀ a, l[i]? = some a → key (f a) = key d)
    (hg : ∀ a, (l.modify i f)[j]? = some a → key (g a) = none) :
    DistinctKeys key ((l.modify i f).modify j g) := by
  intro a b x y k ha hb hx hy
  rw [List.getElem?_modify] at ha hb
  obtain ⟨x', ha₁, rfl⟩ := Option.map_eq_some_iff.1 ha
  obtain ⟨y', hb₁, rfl⟩ := Option.map_eq_some_iff.1 hb
  -- neither of the two is the element that has lost its key
  have haj : j ≠ a := by
    rintro rfl
    simp [hg x' ha₁] at hx
  have hbj : j ≠ b := by
    rintro rfl
    simp [hg y' hb₁] at hy
  rw [if_neg haj] at hx
  rw [if_neg hbj] at hy
  rw [List.getElem?_modify] at ha₁ hb₁
  obtain ⟨x, ha₂, rfl⟩ := Option.map_eq_some_iff.1 ha₁
  obtain ⟨y, hb₂, rfl⟩ := Option.map_eq_some_iff.1 hb₁
  by_cases hia : i = a
  · by_cases hib : i = b
    · exact hia.symm.trans hib
    · rw [if_pos hia, hf x (hia ▸ ha₂)] at hx
      rw [if_neg hib] at hy
      exact absurd (h j b d y k hd hb₂ hx hy) hbj
  · by_cases hib : i = b
    · rw [if_neg hia] at hx
      rw [if_pos hib, hf y (hib ▸ hb₂)] at hy
      exact absurd (h j a d x k hd ha₂ hy hx) haj
    · rw [if_neg hia] at hx
      rw [if_neg hib] at hy
      exact h a b x y k ha₂ hb₂ hx hy

end DistinctKeys

/-- Changes of two different elements commute. -/
theorem modify_comm {l : List α} {i j : ℕ} (f g : α → α) (hij : i ≠ j) :
    (l.modify i f).modify j g = (l.modify j g).modify i f := by
  refine List.ext_getElem? fun k => ?_
  simp only [List.getElem?_modify, Option.map_eq_map, Option.map_map]
  refine congrArg (fun h => Option.map h l[k]?) (funext fun a => ?_)
  by_cases hik : i = k
  · have hjk : j ≠ k := fun hjk => hij (hik.trans hjk.symm)
    simp [hik, hjk]
  · simp [hik]

/-- The four changes of two elements, two by two. -/
theorem modify₄ {l : List α} {i j : ℕ} (a b a' b' : α → α) (hij : i ≠ j) :
    (((l.modify i a).modify j b).modify i a').modify j b' =
      (l.modify i fun x => a' (a x)).modify j fun x => b' (b x) := by
  rw [modify_comm b a' hij.symm, List.modify_modify_eq, List.modify_modify_eq]
  rfl

/-- The elements of a list after one of them was changed. -/
theorem mem_modify {l : List α} {i : ℕ} {f : α → α} {b : α} (h : b ∈ l.modify i f) :
    (∃ j, j ≠ i ∧ l[j]? = some b) ∨ ∃ a, l[i]? = some a ∧ b = f a := by
  obtain ⟨j, hj⟩ := List.mem_iff_getElem?.1 h
  rw [List.getElem?_modify] at hj
  obtain ⟨a, ha, rfl⟩ := Option.map_eq_some_iff.1 hj
  by_cases hij : i = j
  · subst hij
    exact Or.inr ⟨a, ha, if_pos rfl⟩
  · rw [if_neg hij]
    exact Or.inl ⟨j, fun h => hij h.symm, ha⟩

/-- What holds of all elements, and of the one that is changed. -/
theorem forall_modify {P : α → Prop} {l : List α} {i : ℕ} {f : α → α} {c : α} (hl : ∀ a ∈ l, P a)
    (hc : l[i]? = some c) (hf : P (f c)) : ∀ a ∈ l.modify i f, P a := by
  intro e he
  rcases mem_modify he with ⟨_, _, hj⟩ | ⟨a, ha, rfl⟩
  · exact hl e (List.mem_of_getElem? hj)
  · obtain rfl : c = a := Option.some.inj (hc.symm.trans ha)
    exact hf

theorem forall_modify₂ {P : α → Prop} {l : List α} {i j : ℕ} {f g : α → α} {c d : α}
    (hl : ∀ a ∈ l, P a) (hc : l[i]? = some c) (hd : l[j]? = some d) (hij : i ≠ j) (hf : P (f c))
    (hg : P (g d)) : ∀ a ∈ (l.modify i f).modify j g, P a :=
  forall_modify (forall_modify hl hc hf) ((List.getElem?_modify_ne _ _ hij).trans hd) hg

/-- The elements of a list after two of them were changed. -/
theorem mem_modify₂ {l : List α} {i j : ℕ} {f g : α → α} {c d e : α} (hc : l[i]? = some c)
    (hd : l[j]? = some d) (hij : i ≠ j) (he : e ∈ (l.modify i f).modify j g) :
    (∃ k, k ≠ i ∧ k ≠ j ∧ l[k]? = some e) ∨ e = f c ∨ e = g d := by
  rcases mem_modify he with ⟨k, hkj, hk⟩ | ⟨d', hd', rfl⟩
  · rw [List.getElem?_modify] at hk
    obtain ⟨e', he', rfl⟩ := Option.map_eq_some_iff.1 hk
    by_cases hik : i = k
    · subst hik
      obtain rfl : c = e' := Option.some.inj (hc.symm.trans he')
      exact Or.inr (Or.inl (if_pos rfl))
    · rw [if_neg hik]
      exact Or.inl ⟨k, Ne.symm hik, hkj, he'⟩
  · rw [List.getElem?_modify_ne _ _ hij] at hd'
    obtain rfl : d = d' := Option.some.inj (hd.symm.trans hd')
    exact Or.inr (Or.inr rfl)

/-- The elements of a list after one of them was replaced. -/
theorem mem_set {l : List α} {i : ℕ} {a b : α} (hi : i < l.length) :
    b ∈ l.set i a ↔ b = a ∨ ∃ j, j ≠ i ∧ l[j]? = some b := by
  simp only [List.mem_iff_getElem?, List.getElem?_set]
  constructor
  · rintro ⟨j, hj⟩
    split_ifs at hj with h₁
    · exact Or.inl (Option.some.inj hj).symm
    · exact Or.inr ⟨j, fun h => h₁ h.symm, hj⟩
  · rintro (rfl | ⟨j, hji, hj⟩)
    · exact ⟨i, by simp [hi]⟩
    · exact ⟨j, by rw [if_neg (Ne.symm hji), hj]⟩

/-- The first element that passes a test is the only one that does. -/
theorem findIdx_eq_of_unique {p : α → Bool} {i : ℕ} {a : α} (hi : l[i]? = some a)
    (ha : p a = true) (huniq : ∀ (j : ℕ) (b : α), l[j]? = some b → p b = true → j = i) :
    l.findIdx p = i := by
  have hlt : l.findIdx p < l.length :=
    List.findIdx_lt_length_of_exists ⟨a, List.mem_of_getElem? hi, ha⟩
  exact huniq _ _ (List.getElem?_eq_getElem hlt) (List.findIdx_getElem (w := hlt))

/-- What the first element that passes a test satisfies, or none does. -/
theorem findIdx_cases (p : α → Bool) (l : List α) :
    (∃ a, l[l.findIdx p]? = some a ∧ p a = true) ∨
      (l.findIdx p = l.length ∧ ∀ a ∈ l, p a = false) := by
  rcases Nat.lt_or_ge (l.findIdx p) l.length with hlt | hge
  · exact Or.inl ⟨_, List.getElem?_eq_getElem hlt, List.findIdx_getElem (w := hlt)⟩
  · have heq : l.findIdx p = l.length := Nat.le_antisymm List.findIdx_le_length hge
    exact Or.inr ⟨heq, by simpa using List.findIdx_eq_length.1 heq⟩

/-- The elements that pass a test are the first one and those behind it. -/
theorem countP_of_findIdx {p : α → Bool} (h : l.findIdx p < l.length) :
    l.countP p = (l.drop (l.findIdx p + 1)).countP p + 1 := by
  induction l with
  | nil => exact absurd h (Nat.lt_irrefl _)
  | cons a l ih =>
    cases hp : p a with
    | true => simp [List.findIdx_cons, hp]
    | false =>
      rw [List.findIdx_cons, hp, cond_false] at h ⊢
      rw [List.countP_cons_of_neg (by simp [hp]), List.drop_succ_cons]
      exact ih (Nat.lt_of_succ_lt_succ h)

/-- Replacing an element by one that a test treats alike moves no result of a search. -/
theorem findIdx_set {p : α → Bool} {n : ℕ} {a b : α} (ha : l[n]? = some a) (hp : p b = p a) :
    (l.set n b).findIdx p = l.findIdx p := by
  have hmap : (l.set n b).map p = l.map p := by
    refine List.ext_getElem? fun j => ?_
    simp only [List.getElem?_map, List.getElem?_set]
    split_ifs with h₁ h₂
    · subst h₁
      simp [ha, hp]
    · subst h₁
      simp [List.getElem?_eq_none (Nat.le_of_not_lt h₂)]
    · rfl
  have hfind : ∀ l : List α, l.findIdx p = (l.map p).findIdx id := fun l => by
    rw [List.findIdx_map]
    rfl
  rw [hfind, hmap, ← hfind]

/-- Changing an element replaces it by its image. -/
theorem modify_eq_set {n : ℕ} {f : α → α} {a : α} (ha : l[n]? = some a) :
    l.modify n f = l.set n (f a) := by
  rw [List.modify_eq_set_getElem?, ha]
  rfl

theorem modify₂_eq_set {i j : ℕ} {f g : α → α} {a b : α} (ha : l[i]? = some a)
    (hb : l[j]? = some b) (hij : i ≠ j) :
    (l.modify i f).modify j g = (l.set i (f a)).set j (g b) := by
  rw [modify_eq_set ha]
  exact modify_eq_set ((List.getElem?_set_ne hij).trans hb)

/-- Replacing two elements twice. -/
theorem set₄ {i j : ℕ} {a b a' b' : α} (hij : i ≠ j) :
    (((l.set i a).set j b).set i a').set j b' = (l.set i a').set j b' := by
  rw [List.set_comm a b hij, List.set_set, List.set_comm b a' hij.symm, List.set_set]

theorem findIdx_modify {p : α → Bool} {n : ℕ} {f : α → α} (hp : ∀ a, p (f a) = p a) :
    (l.modify n f).findIdx p = l.findIdx p := by
  cases ha : l[n]? with
  | none => rw [List.modify_eq_self (List.getElem?_eq_none_iff.1 ha)]
  | some a => rw [modify_eq_set ha, findIdx_set ha (hp a)]

end HnefServer
