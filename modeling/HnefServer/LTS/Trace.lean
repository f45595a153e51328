import HnefServer.LTS.Basic
import Mathlib.Data.List.Basic

/-!
# Traces, potentials and simulations

* `System.restrict` : the system that offers only the inputs satisfying a condition.
* `System.Recorded.invariant` : invariants of a state together with its record.
* `System.Trace` : runs with the list of their inputs.
* `System.Trace.countP_le` : the rule of potentials.  If a natural number never grows along a run
  and drops whenever an input of some kind is handled, then there are at most as many inputs of
  the kind as the number was at the beginning.
* `System.Reachable.simulate` : forward simulation, where one step may correspond to any number of
  steps of the other system.
-/

namespace HnefServer

namespace System

variable {S L F M T K G : Type*} {A : System S L F} {B : System T K G} {P : S → L → Prop}
  {s₀ s s' : S} {l : L}

theorem Reachable.trans (h : A.Reachable s₀ s) (h' : A.Reachable s s') : A.Reachable s₀ s' :=
  Relation.ReflTransGen.trans h h'

theorem Reachable.single (h : A.Step s l s') : A.Reachable s s' :=
  (ReachableIf.refl s).tail trivial h

/-! ### Restriction -/

variable (A) in
/-- The system that offers only the inputs satisfying `P`. -/
def restrict (P : S → L → Prop) : System S L F where
  guard s l := A.guard s l ∧ P s l
  exec := A.exec

theorem restrict_step : (A.restrict P).Step s l s' ↔ P s l ∧ A.Step s l s' := by
  simp only [Step, restrict]
  tauto

theorem Reachable.reachableIf (h : (A.restrict P).Reachable s₀ s) : A.ReachableIf P s₀ s := by
  induction h with
  | refl => exact .refl _
  | tail _ hst ih =>
    obtain ⟨l, -, hst⟩ := hst
    obtain ⟨hP, hst⟩ := restrict_step.1 hst
    exact ih.tail hP hst

instance [∀ s l, Decidable (A.guard s l)] [∀ s l, Decidable (P s l)] (s : S) (l : L) :
    Decidable ((A.restrict P).guard s l) :=
  inferInstanceAs (Decidable (A.guard s l ∧ P s l))

/-! ### Records -/

namespace Recorded

variable {record : S → L → S → M → M} {m₀ m : M}

theorem reachable (h : A.Recorded record s₀ m₀ s m) : A.Reachable s₀ s := by
  induction h with
  | nil => exact .refl _
  | snoc _ hst ih => exact ih.tail trivial hst

/-- What holds initially of the state and the record, and is preserved by every step, holds in
every run. -/
theorem invariant {I : S → M → Prop} (h : A.Recorded record s₀ m₀ s m) (h₀ : I s₀ m₀)
    (hstep : ∀ s m l s', I s m → A.Step s l s' → I s' (record s l s' m)) : I s m := by
  induction h with
  | nil => exact h₀
  | snoc _ hst ih => exact hstep _ _ _ _ ih hst

end Recorded

variable (A) in
/-- `replay` with a record. -/
def replayRecorded (record : S → L → S → M → M) [∀ s l, Decidable (A.guard s l)] :
    S → M → List L → Option (S × M)
  | s, m, [] => some (s, m)
  | s, m, l :: ls =>
    if A.guard s l then
      match A.exec s l with
      | .ok s' => replayRecorded record s' (record s l s' m) ls
      | .error _ => none
    else none

theorem exists_recorded {record : S → L → S → M → M} [∀ s l, Decidable (A.guard s l)] {ls : List L}
    {m₀ m : M} {test : S × M → Bool} (h : A.Recorded record s₀ m₀ s m)
    (ht : (A.replayRecorded record s m ls).any test = true) :
    ∃ s' m', A.Recorded record s₀ m₀ s' m' ∧ test (s', m') = true := by
  induction ls generalizing s m with
  | nil => exact ⟨s, m, h, by simpa [replayRecorded] using ht⟩
  | cons l ls ih =>
    unfold replayRecorded at ht
    split at ht
    case isTrue hguard =>
      split at ht
      case h_1 s' hexec => exact ih (h.snoc ⟨hguard, hexec⟩) ht
      case h_2 => exact absurd ht Bool.false_ne_true
    case isFalse => exact absurd ht Bool.false_ne_true

/-! ### Traces -/

variable (A) in
/-- The inputs of `ls`, one after the other, lead from `s₀` to `s`. -/
def Trace (s₀ : S) (ls : List L) (s : S) : Prop :=
  A.Recorded (fun _ l _ ls => ls ++ [l]) s₀ [] s ls

namespace Trace

variable {ls ls' : List L}

theorem nil : A.Trace s₀ [] s₀ := Recorded.nil

theorem snoc (h : A.Trace s₀ ls s) (hst : A.Step s l s') : A.Trace s₀ (ls ++ [l]) s' :=
  Recorded.snoc h hst

/-- A replayed run, from where a run has led. -/
theorem exists_of_replay [∀ s l, Decidable (A.guard s l)] [∀ s l, Decidable (P s l)]
    {test : S → Bool} (h : A.Trace s₀ ls s) (ht : (A.replay P s ls').any test = true) :
    ∃ s', A.Trace s₀ (ls ++ ls') s' ∧ test s' = true := by
  induction ls' generalizing s ls with
  | nil => exact ⟨s, by rwa [List.append_nil], by simpa [replay] using ht⟩
  | cons l ls' ih =>
    unfold replay at ht
    split at ht
    case isTrue hguard =>
      split at ht
      case h_1 s' hexec =>
        rw [List.append_cons]
        exact ih (h.snoc ⟨hguard.1, hexec⟩) ht
      case h_2 => exact absurd ht Bool.false_ne_true
    case isFalse => exact absurd ht Bool.false_ne_true

/-- The rule of potentials. -/
theorem countP_le {I : S → Prop} {φ : S → ℕ} {p : L → Bool} (h : A.Trace s₀ ls s) (h₀ : I s₀)
    (hstep : ∀ s l s', I s → A.Step s l s' →
      I s' ∧ φ s' + (if p l = true then 1 else 0) ≤ φ s) :
    I s ∧ ls.countP p + φ s ≤ φ s₀ := by
  refine Recorded.invariant (I := fun s ls => I s ∧ ls.countP p + φ s ≤ φ s₀) h ⟨h₀, by simp⟩ ?_
  intro s ls l s' ih hst
  obtain ⟨hI, hle⟩ := ih
  obtain ⟨hI', hdrop⟩ := hstep s l s' hI hst
  refine ⟨hI', ?_⟩
  rw [List.countP_append, List.countP_singleton]
  omega

/-- A map that carries steps to steps carries runs to runs. -/
theorem map (f : S → T) (g : L → K) (h : A.Trace s₀ ls s)
    (hstep : ∀ s l s', A.Step s l s' → B.Step (f s) (g l) (f s')) :
    B.Trace (f s₀) (ls.map g) (f s) := by
  induction h with
  | nil => exact nil
  | snoc _ hst ih =>
    rw [List.map_append]
    exact ih.snoc (hstep _ _ _ hst)

/-- The inputs decide where a run leads. -/
theorem unique (h : A.Trace s₀ ls s) (h' : A.Trace s₀ ls s') : s = s' := by
  induction h generalizing s' with
  | nil =>
    generalize hk : ([] : List L) = k at h'
    cases h' with
    | nil => rfl
    | snoc _ _ => exact absurd hk.symm (List.append_ne_nil_of_right_ne_nil _ (List.cons_ne_nil _ _))
  | @snoc s₁ m l s₂ _ hst ih =>
    generalize hk : m ++ [l] = k at h'
    cases h' with
    | nil => exact absurd hk (List.append_ne_nil_of_right_ne_nil _ (List.cons_ne_nil _ _))
    | snoc h' hst' =>
      obtain ⟨rfl, hl⟩ := List.append_inj' hk rfl
      obtain rfl := List.singleton_inj.1 hl
      obtain rfl := ih h'
      exact Except.ok.inj (hst.2.symm.trans hst'.2)

end Trace

/-! ### Simulations -/

/-- **Forward simulation**: what every step of `A` does can be done by steps of `B`. -/
theorem Reachable.simulate {R : S → T → Prop} {t₀ : T} (h : A.Reachable s₀ s) (h₀ : R s₀ t₀)
    (hstep : ∀ s t l s', R s t → A.Step s l s' → ∃ t', B.Reachable t t' ∧ R s' t') :
    ∃ t, B.Reachable t₀ t ∧ R s t := by
  induction h with
  | refl => exact ⟨t₀, .refl _, h₀⟩
  | tail _ hst ih =>
    obtain ⟨l, -, hst⟩ := hst
    obtain ⟨t, ht, hR⟩ := ih
    obtain ⟨t', ht', hR'⟩ := hstep _ t l _ hR hst
    exact ⟨t', ht.trans ht', hR'⟩

end System

end HnefServer
