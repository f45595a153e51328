import Mathlib.Data.Nat.Notation
import Mathlib.Logic.Relation
import Mathlib.Tactic.SplitIfs
import Mathlib.Tactic.Push

/-!
# Seats and tables for two

An abstract seating plan: who sits at which table (`0` is no table), and which two people, in
which order, a table lists.  `Seating.Arranged` says that the two sides agree.  `Seating.Step`
has the changes of a plan: a newcomer, somebody who leaves from no table, two people who sit down
at a new table, a table whose people change their order, and a table whose people get up.  They
keep a plan arranged (`Seating.Arranged.step`).
-/

namespace HnefServer

/-- A seating plan. -/
@[ext] structure Seating (α : Type*) where
  /-- The person `a` sits at the table with a number, or at none (`0`). -/
  sits : α → ℕ → Prop
  /-- The table with a number lists the first person before the second. -/
  pair : ℕ → α → α → Prop

namespace Seating

variable {α : Type*}

/-- The two sides of a plan agree. -/
structure Arranged (S : Seating α) : Prop where
  sits_unique : ∀ {a x y}, S.sits a x → S.sits a y → x = y
  pair_unique : ∀ {id a b a' b'}, S.pair id a b → S.pair id a' b' → a = a' ∧ b = b'
  zero : ∀ {a b}, ¬ S.pair 0 a b
  ne : ∀ {id a b}, S.pair id a b → a ≠ b
  seated : ∀ {id a b}, S.pair id a b → S.sits a id ∧ S.sits b id
  known : ∀ {a id}, S.sits a id → id ≠ 0 → ∃ b, S.pair id a b ∨ S.pair id b a

/-- Nobody sits anywhere. -/
def empty : Seating α := ⟨fun _ _ => False, fun _ _ _ => False⟩

/-- A newcomer, at no table. -/
def enter (S : Seating α) (a : α) : Seating α :=
  ⟨fun n x => n = a ∧ x = 0 ∨ S.sits n x, S.pair⟩

/-- Somebody leaves. -/
def leave (S : Seating α) (a : α) : Seating α := ⟨fun n x => n ≠ a ∧ S.sits n x, S.pair⟩

/-- Two people sit down at a new table. -/
def sitDown (S : Seating α) (id : ℕ) (a b : α) : Seating α :=
  ⟨fun n x => (n = a ∨ n = b) ∧ x = id ∨ n ≠ a ∧ n ≠ b ∧ S.sits n x,
    fun i x y => i = id ∧ x = a ∧ y = b ∨ S.pair i x y⟩

/-- The people at a table change their order. -/
def swap (S : Seating α) (id : ℕ) : Seating α :=
  ⟨S.sits, fun i x y => i = id ∧ S.pair i y x ∨ i ≠ id ∧ S.pair i x y⟩

/-- The people at a table get up, and the table is gone. -/
def getUp (S : Seating α) (id : ℕ) (a b : α) : Seating α :=
  ⟨fun n x => (n = a ∨ n = b) ∧ x = 0 ∨ n ≠ a ∧ n ≠ b ∧ S.sits n x,
    fun i x y => i ≠ id ∧ S.pair i x y⟩

/-- The changes of a plan. -/
inductive Step : Seating α → Seating α → Prop
  | enter (S : Seating α) (a : α) (h : ∀ x, ¬ S.sits a x) : Step S (S.enter a)
  | leave (S : Seating α) (a : α) (h : S.sits a 0) : Step S (S.leave a)
  | sitDown (S : Seating α) (id : ℕ) (a b : α) (hid : id ≠ 0) (hnew : ∀ x y, ¬ S.pair id x y)
      (hab : a ≠ b) (ha : S.sits a 0) (hb : S.sits b 0) : Step S (S.sitDown id a b)
  | swap (S : Seating α) (id : ℕ) : Step S (S.swap id)
  | getUp (S : Seating α) (id : ℕ) (a b : α) (h : S.pair id a b ∨ S.pair id b a) :
      Step S (S.getUp id a b)

/-- Sequences of changes. -/
def Steps : Seating α → Seating α → Prop := Relation.ReflTransGen Step

namespace Arranged

variable {S S' : Seating α} {a b : α} {id x : ℕ}

theorem empty : (Seating.empty : Seating α).Arranged :=
  ⟨nofun, nofun, nofun, nofun, nofun, nofun⟩

/-- The people a table lists are those who sit there. -/
theorem mem_pair_iff (h : S.Arranged) (hp : S.pair id a b) {n : α} :
    S.sits n id ↔ n = a ∨ n = b := by
  constructor
  · intro hn
    have hid : id ≠ 0 := by
      rintro rfl
      exact h.zero hp
    obtain ⟨c, hc | hc⟩ := h.known hn hid
    · exact Or.inl (h.pair_unique hc hp).1
    · exact Or.inr (h.pair_unique hc hp).2
  · rintro (rfl | rfl)
    · exact (h.seated hp).1
    · exact (h.seated hp).2

/-- Somebody at no table is not listed. -/
theorem not_pair (h : S.Arranged) (ha : S.sits a 0) (hp : S.pair id a b ∨ S.pair id b a) :
    False := by
  rcases hp with hp | hp
  · exact h.zero (h.sits_unique ha (h.seated hp).1 ▸ hp)
  · exact h.zero (h.sits_unique ha (h.seated hp).2 ▸ hp)

theorem enter (h : S.Arranged) (ha : ∀ x, ¬ S.sits a x) : (S.enter a).Arranged where
  sits_unique := by
    rintro n x y (⟨rfl, rfl⟩ | hx) (⟨hn, rfl⟩ | hy)
    · rfl
    · exact absurd hy (ha y)
    · subst hn
      exact absurd hx (ha x)
    · exact h.sits_unique hx hy
  pair_unique := h.pair_unique
  zero := h.zero
  ne := h.ne
  seated := fun hp => ⟨Or.inr (h.seated hp).1, Or.inr (h.seated hp).2⟩
  known := by
    rintro n x (⟨rfl, rfl⟩ | hn) hx
    · exact absurd rfl hx
    · exact h.known hn hx

theorem leave (h : S.Arranged) (ha : S.sits a 0) : (S.leave a).Arranged where
  sits_unique := fun hx hy => h.sits_unique hx.2 hy.2
  pair_unique := h.pair_unique
  zero := h.zero
  ne := h.ne
  seated := by
    intro id x y hp
    refine ⟨⟨?_, (h.seated hp).1⟩, ?_, (h.seated hp).2⟩
    · rintro rfl
      exact h.not_pair ha (Or.inl hp)
    · rintro rfl
      exact h.not_pair ha (Or.inr hp)
  known := fun hn hx => h.known hn.2 hx

theorem sitDown (h : S.Arranged) (hid : id ≠ 0) (hnew : ∀ x y, ¬ S.pair id x y) (hab : a ≠ b)
    (ha : S.sits a 0) (hb : S.sits b 0) : (S.sitDown id a b).Arranged where
  sits_unique := by
    rintro n x y (⟨hn, rfl⟩ | ⟨hna, hnb, hx⟩) (⟨hn', rfl⟩ | ⟨hna', hnb', hy⟩)
    · rfl
    · exact absurd hn (not_or.2 ⟨hna', hnb'⟩)
    · exact absurd hn' (not_or.2 ⟨hna, hnb⟩)
    · exact h.sits_unique hx hy
  pair_unique := by
    rintro i x y x' y' (⟨rfl, rfl, rfl⟩ | hp) (⟨hi, rfl, rfl⟩ | hp')
    · exact ⟨rfl, rfl⟩
    · exact absurd hp' (hnew x' y')
    · subst hi
      exact absurd hp (hnew x y)
    · exact h.pair_unique hp hp'
  zero := by
    rintro x y (⟨rfl, -⟩ | hp)
    · exact hid rfl
    · exact h.zero hp
  ne := by
    rintro i x y (⟨-, rfl, rfl⟩ | hp)
    · exact hab
    · exact h.ne hp
  seated := by
    rintro i x y (⟨rfl, rfl, rfl⟩ | hp)
    · exact ⟨Or.inl ⟨Or.inl rfl, rfl⟩, Or.inl ⟨Or.inr rfl, rfl⟩⟩
    · -- the people of another table are not the two who sit down
      have hother : ∀ n, (n = x ∨ n = y) → n ≠ a ∧ n ≠ b := by
        intro n hn
        have hn' : ∃ m, S.pair i n m ∨ S.pair i m n := by
          rcases hn with rfl | rfl
          · exact ⟨y, Or.inl hp⟩
          · exact ⟨x, Or.inr hp⟩
        obtain ⟨m, hm⟩ := hn'
        constructor
        · rintro rfl
          exact h.not_pair ha hm
        · rintro rfl
          exact h.not_pair hb hm
      have hx := hother x (Or.inl rfl)
      have hy := hother y (Or.inr rfl)
      exact ⟨Or.inr ⟨hx.1, hx.2, (h.seated hp).1⟩, Or.inr ⟨hy.1, hy.2, (h.seated hp).2⟩⟩
  known := by
    rintro n x (⟨rfl | rfl, rfl⟩ | ⟨-, -, hn⟩) hx
    · exact ⟨b, Or.inl (Or.inl ⟨rfl, rfl, rfl⟩)⟩
    · exact ⟨a, Or.inr (Or.inl ⟨rfl, rfl, rfl⟩)⟩
    · obtain ⟨m, hm | hm⟩ := h.known hn hx
      · exact ⟨m, Or.inl (Or.inr hm)⟩
      · exact ⟨m, Or.inr (Or.inr hm)⟩

/-- Whom a table lists after its people have changed their order. -/
theorem pair_of_swap {i : ℕ} (hp : (S.swap id).pair i a b) : S.pair i a b ∨ S.pair i b a := by
  rcases hp with ⟨-, hp⟩ | ⟨-, hp⟩
  · exact Or.inr hp
  · exact Or.inl hp

theorem swap (h : S.Arranged) (id : ℕ) : (S.swap id).Arranged where
  sits_unique := h.sits_unique
  pair_unique := by
    rintro i x y x' y' (⟨hi, hp⟩ | ⟨hi, hp⟩) (⟨hi', hp'⟩ | ⟨hi', hp'⟩)
    · exact (h.pair_unique hp hp').symm
    · exact absurd hi hi'
    · exact absurd hi' hi
    · exact h.pair_unique hp hp'
  zero := fun hp => (pair_of_swap hp).elim h.zero h.zero
  ne := by
    intro i x y hp
    rcases pair_of_swap hp with hp | hp
    · exact h.ne hp
    · exact (h.ne hp).symm
  seated := by
    intro i x y hp
    rcases pair_of_swap hp with hp | hp
    · exact h.seated hp
    · exact (h.seated hp).symm
  known := by
    intro n x hn hx
    obtain ⟨m, hm⟩ := h.known hn hx
    by_cases hxid : x = id
    · rcases hm with hm | hm
      · exact ⟨m, Or.inr (Or.inl ⟨hxid, hm⟩)⟩
      · exact ⟨m, Or.inl (Or.inl ⟨hxid, hm⟩)⟩
    · rcases hm with hm | hm
      · exact ⟨m, Or.inl (Or.inr ⟨hxid, hm⟩)⟩
      · exact ⟨m, Or.inr (Or.inr ⟨hxid, hm⟩)⟩

theorem getUp (h : S.Arranged) (hp : S.pair id a b ∨ S.pair id b a) :
    (S.getUp id a b).Arranged where
  sits_unique := by
    rintro n x y (⟨hn, rfl⟩ | ⟨hna, hnb, hx⟩) (⟨hn', rfl⟩ | ⟨hna', hnb', hy⟩)
    · rfl
    · exact absurd hn (not_or.2 ⟨hna', hnb'⟩)
    · exact absurd hn' (not_or.2 ⟨hna, hnb⟩)
    · exact h.sits_unique hx hy
  pair_unique := fun hx hy => h.pair_unique hx.2 hy.2
  zero := fun hx => h.zero hx.2
  ne := fun hx => h.ne hx.2
  seated := by
    rintro i x y ⟨hi, hxy⟩
    -- the people of another table stay
    have hstay : ∀ n, S.sits n i → n ≠ a ∧ n ≠ b := by
      intro n hn
      have hab : S.sits a id ∧ S.sits b id := hp.elim h.seated fun hp => (h.seated hp).symm
      constructor
      · rintro rfl
        exact hi (h.sits_unique hn hab.1)
      · rintro rfl
        exact hi (h.sits_unique hn hab.2)
    obtain ⟨hx, hy⟩ := h.seated hxy
    exact ⟨Or.inr ⟨(hstay x hx).1, (hstay x hx).2, hx⟩, Or.inr ⟨(hstay y hy).1, (hstay y hy).2, hy⟩⟩
  known := by
    rintro n x (⟨-, rfl⟩ | ⟨hna, hnb, hn⟩) hx
    · exact absurd rfl hx
    · obtain ⟨m, hm⟩ := h.known hn hx
      have hxid : x ≠ id := by
        rintro rfl
        have hmem : n = a ∨ n = b := by
          rcases hp with hp | hp
          · exact (h.mem_pair_iff hp).1 hn
          · exact ((h.mem_pair_iff hp).1 hn).symm
        exact absurd hmem (not_or.2 ⟨hna, hnb⟩)
      exact ⟨m, hm.imp (fun hm => ⟨hxid, hm⟩) fun hm => ⟨hxid, hm⟩⟩

/-- **Every change keeps a plan arranged.** -/
theorem step (h : S.Arranged) (hst : Step S S') : S'.Arranged := by
  cases hst with
  | enter a ha => exact h.enter ha
  | leave a ha => exact h.leave ha
  | sitDown id a b hid hnew hab ha hb => exact h.sitDown hid hnew hab ha hb
  | swap id => exact h.swap id
  | getUp id a b hp => exact h.getUp hp

theorem steps (h : S.Arranged) (hst : Steps S S') : S'.Arranged := by
  induction hst with
  | refl => exact h
  | tail _ hst ih => exact ih.step hst

end Arranged

end Seating

end HnefServer
