import Mathlib.Logic.Relation
import Mathlib.Tactic.SplitIfs

/-!
# Transition systems of programs that may fault

A `System` is a labelled transition system whose steps are runs of a program: the label is the
input of the step, `guard` says which inputs the surroundings may offer in a state, and `exec`
runs the program, which either returns the next state or faults (an invalid access, an uncaught
exception).  A fault has no successor state.

* `bind_eq_ok`, `Returns.bind`, `Ends.bind`, `Avoids.bind` : how the parts of a sequence of
  computations succeed, what holds of the results, and which faults they do not end in.
* `System.Step`, `System.Faults` : the two outcomes of offering an input.
* `System.ReachableIf P s₀ s` : `s` is reached from `s₀` by steps that all satisfy `P`;
  `System.Reachable` is the case of no restriction.
* `System.ReachableIf.invariant` : the rule of inductive invariants for restricted runs.
* `System.replay` : executes a list of inputs, to exhibit reachable states by computation.
* `System.observe` : the product with an observer, which may refuse a step; its runs are the
  runs of the system with a history.
* `System.Recorded` : runs with a record of the steps; every run has one.
-/

namespace HnefServer

universe u v

/-- A sequence of two computations succeeds iff both do. -/
theorem bind_eq_ok {F : Type v} {A B : Type u} {x : Except F A} {f : A → Except F B} {b : B} :
    x >>= f = .ok b ↔ ∃ a, x = .ok a ∧ f a = .ok b := by
  cases x with
  | error e => exact ⟨nofun, nofun⟩
  | ok a =>
    constructor
    · intro h
      exact ⟨a, rfl, h⟩
    · rintro ⟨a', h, h'⟩
      cases h
      exact h'

/-- A computation whose result satisfies a test has a result. -/
theorem of_toOption_any {F : Type v} {A : Type u} {x : Except F A} {test : A → Bool}
    (h : x.toOption.any test = true) : ∃ a, x = .ok a ∧ test a = true := by
  cases x with
  | error f => cases h
  | ok a => exact ⟨a, rfl, h⟩

@[simp] theorem ok_bind {F : Type v} {A B : Type u} (a : A) (f : A → Except F B) :
    (Except.ok a >>= f) = f a := rfl

@[simp] theorem error_bind {F : Type v} {A B : Type u} (e : F) (f : A → Except F B) :
    ((Except.error e : Except F A) >>= f) = .error e := rfl

@[simp] theorem pure_eq_ok {F : Type v} {A : Type u} (a : A) : (pure a : Except F A) = .ok a := rfl

/-- The computation does not fault. -/
def Returns {F : Type v} {A : Type u} (x : Except F A) : Prop := ∃ a, x = .ok a

namespace Returns

variable {F : Type v} {A B : Type u}

theorem ok (a : A) : Returns (.ok a : Except F A) := ⟨a, rfl⟩

theorem bind {x : Except F A} {f : A → Except F B} (hx : Returns x)
    (hf : ∀ a, x = .ok a → Returns (f a)) : Returns (x >>= f) := by
  obtain ⟨a, rfl⟩ := hx
  exact hf a rfl

end Returns

/-- The computation returns a value that satisfies `P`. -/
def Ends {F : Type v} {A : Type u} (P : A → Prop) (x : Except F A) : Prop := ∃ a, x = .ok a ∧ P a

namespace Ends

variable {F : Type v} {A B : Type u} {P : A → Prop} {Q : B → Prop}

theorem ok {a : A} (h : P a) : Ends P (.ok a : Except F A) := ⟨a, rfl, h⟩

theorem of_returns {x : Except F A} (hx : Returns x) (h : ∀ a, x = .ok a → P a) : Ends P x := by
  obtain ⟨a, ha⟩ := hx
  exact ⟨a, ha, h a ha⟩

theorem bind {x : Except F A} {f : A → Except F B} (hx : Ends P x)
    (hf : ∀ a, x = .ok a → P a → Ends Q (f a)) : Ends Q (x >>= f) := by
  obtain ⟨a, rfl, ha⟩ := hx
  exact hf a rfl ha

end Ends

/-- The computation does not end in the fault `e`. -/
def Avoids {F : Type v} {A : Type u} (e : F) (x : Except F A) : Prop := x ≠ .error e

namespace Avoids

variable {F : Type v} {A B : Type u} {e : F}

theorem ok (a : A) : Avoids e (.ok a : Except F A) := nofun

theorem of_returns {x : Except F A} (h : Returns x) : Avoids e x := by
  obtain ⟨a, rfl⟩ := h
  exact ok a

theorem bind {x : Except F A} {f : A → Except F B} (hx : Avoids e x)
    (hf : ∀ a, x = .ok a → Avoids e (f a)) : Avoids e (x >>= f) := by
  cases x with
  | error e' => exact fun h => hx (congrArg Except.error (Except.error.inj h))
  | ok a => exact hf a rfl

end Avoids

/-- A transition system given by a program that may fault. -/
structure System (S L F : Type*) where
  /-- The inputs that may be offered in a state. -/
  guard : S → L → Prop
  /-- One run of the program. -/
  exec : S → L → Except F S

namespace System

variable {S L F M : Type*} (A : System S L F)

/-- Offering `l` in `s` leads to `s'`. -/
def Step (s : S) (l : L) (s' : S) : Prop := A.guard s l ∧ A.exec s l = .ok s'

/-- Offering `l` in `s` makes the program fault. -/
def Faults (s : S) (l : L) : Prop := A.guard s l ∧ ∃ f, A.exec s l = .error f

/-- `s` is reached from `s₀` by steps that all satisfy `P`. -/
def ReachableIf (P : S → L → Prop) (s₀ s : S) : Prop :=
  Relation.ReflTransGen (fun s s' => ∃ l, P s l ∧ A.Step s l s') s₀ s

/-- `s` is reached from `s₀`. -/
def Reachable (s₀ s : S) : Prop := A.ReachableIf (fun _ _ => True) s₀ s

variable {A} {P : S → L → Prop} {s₀ s s' : S} {l : L}

theorem not_faults_iff : ¬ A.Faults s l ↔ (A.guard s l → ∃ s', A.Step s l s') := by
  simp only [Faults, Step]
  cases A.exec s l <;> simp

namespace ReachableIf

theorem refl (s : S) : A.ReachableIf P s s := Relation.ReflTransGen.refl

theorem tail (h : A.ReachableIf P s₀ s) (hP : P s l) (hst : A.Step s l s') :
    A.ReachableIf P s₀ s' :=
  Relation.ReflTransGen.tail h ⟨l, hP, hst⟩

theorem head (hP : P s₀ l) (hst : A.Step s₀ l s) (h : A.ReachableIf P s s') :
    A.ReachableIf P s₀ s' :=
  Relation.ReflTransGen.head ⟨l, hP, hst⟩ h

/-- A predicate that holds initially and is preserved by every step satisfying `P` holds in
every state such steps reach. -/
theorem invariant {I : S → Prop} (h : A.ReachableIf P s₀ s) (h₀ : I s₀)
    (hstep : ∀ s l s', I s → P s l → A.Step s l s' → I s') : I s := by
  induction h with
  | refl => exact h₀
  | tail _ hst ih =>
    obtain ⟨l, hP, hst⟩ := hst
    exact hstep _ _ _ ih hP hst

theorem mono {Q : S → L → Prop} (h : A.ReachableIf P s₀ s) (hPQ : ∀ s l, P s l → Q s l) :
    A.ReachableIf Q s₀ s := by
  induction h with
  | refl => exact refl _
  | tail _ hst ih =>
    obtain ⟨l, hP, hst⟩ := hst
    exact ih.tail (hPQ _ _ hP) hst

theorem reachable (h : A.ReachableIf P s₀ s) : A.Reachable s₀ s := h.mono fun _ _ _ => trivial

end ReachableIf

/-- A predicate that holds initially and is preserved by every step holds in every reachable
state. -/
theorem Reachable.invariant {I : S → Prop} (h : A.Reachable s₀ s) (h₀ : I s₀)
    (hstep : ∀ s l s', I s → A.Step s l s' → I s') : I s :=
  ReachableIf.invariant h h₀ fun s l s' hI _ hst => hstep s l s' hI hst

/-! ### Computing runs -/

variable (A) in
/-- Offer the inputs of a list one after the other; `none` if one of them may not be offered,
does not satisfy `P`, or makes the program fault. -/
def replay (P : S → L → Prop) [∀ s l, Decidable (A.guard s l)] [∀ s l, Decidable (P s l)] :
    S → List L → Option S
  | s, [] => some s
  | s, l :: ls =>
    if A.guard s l ∧ P s l then
      match A.exec s l with
      | .ok s' => replay P s' ls
      | .error _ => none
    else none

/-- A replayed run reaches the state it computes. -/
theorem reachableIf_of_replay [∀ s l, Decidable (A.guard s l)] [∀ s l, Decidable (P s l)]
    {ls : List L} (h : A.replay P s ls = some s') : A.ReachableIf P s s' := by
  induction ls generalizing s with
  | nil =>
    obtain rfl : s = s' := by simpa [replay] using h
    exact .refl s
  | cons l ls ih =>
    simp only [replay] at h
    split_ifs at h with hg
    cases hx : A.exec s l with
    | error f => simp [hx] at h
    | ok t =>
      rw [hx] at h
      exact .head hg.2 ⟨hg.1, hx⟩ (ih h)

/-- A run whose computed end satisfies a test reaches a state that satisfies it. -/
theorem exists_reachableIf [∀ s l, Decidable (A.guard s l)] [∀ s l, Decidable (P s l)]
    {ls : List L} {test : S → Bool} (h : (A.replay P s ls).any test = true) :
    ∃ s', A.ReachableIf P s s' ∧ test s' = true := by
  obtain ⟨s', hs', ht⟩ := (Option.any_eq_true _ _).1 h
  exact ⟨s', reachableIf_of_replay hs', ht⟩

/-- A replayed run whose end satisfies a test together with the state a further input leads
to. -/
theorem exists_step [∀ s l, Decidable (A.guard s l)] [∀ s l, Decidable (P s l)]
    {ls : List L} {test : S → S → Bool}
    (h : (A.replay P s ls).any (fun s => decide (A.guard s l) &&
      (A.exec s l).toOption.any (test s)) = true) :
    ∃ s₁ s₂, A.ReachableIf P s s₁ ∧ A.Step s₁ l s₂ ∧ test s₁ s₂ = true := by
  obtain ⟨s₁, hs₁, ht⟩ := exists_reachableIf h
  rw [Bool.and_eq_true, decide_eq_true_eq] at ht
  obtain ⟨s₂, hs₂, htest⟩ := of_toOption_any ht.2
  exact ⟨s₁, s₂, hs₁, ⟨ht.1, hs₂⟩, htest⟩

/-! ### Observers -/

variable (A) in
/-- The product with an observer of state `M`: a step is offered when the observer accepts it,
and moves the observer to the state it answers. -/
def observe (next : S → L → M → Option M) : System (S × M) L F where
  guard p l := A.guard p.1 l ∧ (next p.1 l p.2).isSome
  exec p l := (A.exec p.1 l).map fun s' => (s', (next p.1 l p.2).getD p.2)

theorem observe_step {next : S → L → M → Option M} {p p' : S × M} :
    (A.observe next).Step p l p' ↔ A.Step p.1 l p'.1 ∧ next p.1 l p.2 = some p'.2 := by
  obtain ⟨s, m⟩ := p
  obtain ⟨s', m'⟩ := p'
  simp only [Step, observe]
  cases A.exec s l with
  | error f => simp [Except.map]
  | ok t =>
    cases hn : next s l m with
    | none => simp
    | some m'' => simp [Except.map, and_assoc]

/-- A run of the product is a run of the system. -/
theorem reachable_of_observe {next : S → L → M → Option M} {P : S × M → L → Prop} {p q : S × M}
    (h : (A.observe next).ReachableIf P p q) : A.Reachable p.1 q.1 := by
  induction h with
  | refl => exact .refl _
  | tail _ hst ih =>
    obtain ⟨l, -, hst⟩ := hst
    exact ih.tail trivial (observe_step.1 hst).1

instance {next : S → L → M → Option M} [∀ s l, Decidable (A.guard s l)] (p : S × M) (l : L) :
    Decidable ((A.observe next).guard p l) :=
  inferInstanceAs (Decidable (A.guard p.1 l ∧ _))

/-! ### Records -/

variable (A) in
/-- Runs with a record: `record s l s' m` is the record after the step from `s` by `l` to `s'`. -/
inductive Recorded (record : S → L → S → M → M) (s₀ : S) (m₀ : M) : S → M → Prop
  | nil : Recorded record s₀ m₀ s₀ m₀
  | snoc {s : S} {m : M} {l : L} {s' : S} (h : Recorded record s₀ m₀ s m)
      (hst : A.Step s l s') : Recorded record s₀ m₀ s' (record s l s' m)

namespace Recorded

variable {record : S → L → S → M → M} {m₀ m : M}

/-- Every run has a record. -/
theorem exists_of_reachable (record : S → L → S → M → M) (m₀ : M) (h : A.Reachable s₀ s) :
    ∃ m, A.Recorded record s₀ m₀ s m := by
  induction h with
  | refl => exact ⟨m₀, .nil⟩
  | tail _ hst ih =>
    obtain ⟨l, -, hst⟩ := hst
    obtain ⟨m, hm⟩ := ih
    exact ⟨_, hm.snoc hst⟩

end Recorded

end System

end HnefServer
