import Mathlib.Data.Nat.Notation
import Mathlib.Tactic.SplitIfs

/-!
# Regular expressions with backtracking

Matching follows the backtracking rules of ECMAScript: the left alternative is tried first,
repetitions are greedy, and an optional round of a repetition must consume something.  The
matcher answers everything that may be left of the input, the preferred match first
(`Regex.rests`).

* `Regex.Lang` : the words an expression denotes, without priorities.
* `Regex.mem_rests_iff` : the matcher finds a word of the language, and every such word.
* `Regex.isMatch` : the whole input matches; `Regex.search` : the leftmost match, and what
  follows it; `Regex.searchAll` : the matches found by searching again in what follows.
* `Regex.head?_rests_rep`, `Regex.head?_rests_plus` : a greedy repetition of a class stops where
  the class does.
-/

namespace HnefServer

/-- Regular expressions over an alphabet. -/
inductive Regex (α : Type*)
  /-- One letter of a class. -/
  | cls (p : α → Bool)
  | eps
  | seq (a b : Regex α)
  | alt (a b : Regex α)
  /-- At least `lo` and at most `hi` times. -/
  | rep (a : Regex α) (lo hi : ℕ)
  /-- At least once. -/
  | plus (a : Regex α)

namespace Regex

variable {α : Type*}

/-- At most so many rounds of a matcher, as many as possible first. -/
def optional (f : List α → List (List α)) : ℕ → List α → List (List α)
  | 0, s => [s]
  | n + 1, s => ((f s).filter fun t => t.length < s.length).flatMap (optional f n) ++ [s]

/-- A number of rounds of a matcher, and then at most `extra` more. -/
def rounds (f : List α → List (List α)) (extra : ℕ) : ℕ → List α → List (List α)
  | 0, s => optional f extra s
  | lo + 1, s => (f s).flatMap (rounds f extra lo)

/-- What may be left of the input after a match at its beginning, in the order of preference.
Every round of `plus` but the first consumes something, so that the length of the input bounds
their number. -/
def rests : Regex α → List α → List (List α)
  | cls _, [] => []
  | cls p, c :: s => if p c then [s] else []
  | eps, s => [s]
  | seq a b, s => (a.rests s).flatMap b.rests
  | alt a b, s => a.rests s ++ b.rests s
  | rep a lo hi, s => rounds a.rests (hi - lo) lo s
  | plus a, s => rounds a.rests s.length 1 s

/-- The whole input matches. -/
def isMatch (r : Regex α) (s : List α) : Bool := (r.rests s).any List.isEmpty

/-- The leftmost match, and what follows it. -/
def search (r : Regex α) : List α → Option (List α × List α)
  | [] => (r.rests []).head?.map fun t => ([], t)
  | c :: s =>
    match (r.rests (c :: s)).head? with
    | some t => some ((c :: s).take ((c :: s).length - t.length), t)
    | none => search r s

/-- The word `w`. -/
def lit [BEq α] : List α → Regex α
  | [] => eps
  | c :: w => seq (cls (· == c)) (lit w)

/-! ### The language of an expression -/

/-- The words of a regular expression. -/
def Lang : Regex α → List α → Prop
  | cls p, u => ∃ c, p c = true ∧ u = [c]
  | eps, u => u = []
  | seq a b, u => ∃ v w, u = v ++ w ∧ a.Lang v ∧ b.Lang w
  | alt a b, u => a.Lang u ∨ b.Lang u
  | rep a lo hi, u => ∃ vs : List (List α),
      lo ≤ vs.length ∧ vs.length ≤ lo + (hi - lo) ∧ (∀ v ∈ vs, a.Lang v) ∧ u = vs.flatten
  | plus a, u => ∃ vs : List (List α), vs ≠ [] ∧ (∀ v ∈ vs, a.Lang v) ∧ u = vs.flatten

/-- The matcher `f` finds the words of `P`. -/
def Finds (f : List α → List (List α)) (P : List α → Prop) : Prop :=
  ∀ s t, t ∈ f s ↔ ∃ u, s = u ++ t ∧ P u

section Rounds

variable {f : List α → List (List α)} {P : List α → Prop} {lo extra : ℕ} {s s' t : List α}

/-- The input begins with a number of words of `P`. -/
def Pieces (P : List α → Prop) (n : ℕ) (s t : List α) : Prop :=
  ∃ vs : List (List α), vs.length = n ∧ (∀ v ∈ vs, P v) ∧ s = vs.flatten ++ t

theorem Pieces.nil (P : List α → Prop) (t : List α) : Pieces P 0 t t := ⟨[], rfl, nofun, rfl⟩

theorem Pieces.cons {n : ℕ} (hf : Finds f P) (hs : s' ∈ f s) (h : Pieces P n s' t) :
    Pieces P (n + 1) s t := by
  obtain ⟨u, rfl, hu⟩ := (hf _ _).1 hs
  obtain ⟨vs, rfl, hvs, rfl⟩ := h
  refine ⟨u :: vs, rfl, ?_, by simp⟩
  rintro v (_ | ⟨_, hv⟩)
  · exact hu
  · exact hvs v hv

theorem pieces_of_mem_optional (hf : Finds f P) (h : t ∈ optional f extra s) :
    ∃ n, n ≤ extra ∧ Pieces P n s t := by
  induction extra generalizing s with
  | zero =>
    obtain rfl := List.mem_singleton.1 h
    exact ⟨0, Nat.le_refl _, .nil P t⟩
  | succ extra ih =>
    rw [optional, List.mem_append, List.mem_singleton] at h
    rcases h with h | rfl
    · obtain ⟨s', hs', h'⟩ := List.mem_flatMap.1 h
      obtain ⟨n, hn, hpieces⟩ := ih h'
      exact ⟨n + 1, by omega, .cons hf (List.mem_filter.1 hs').1 hpieces⟩
    · exact ⟨0, Nat.zero_le _, .nil P t⟩

theorem pieces_of_mem_rounds (hf : Finds f P) (h : t ∈ rounds f extra lo s) :
    ∃ n, lo ≤ n ∧ n ≤ lo + extra ∧ Pieces P n s t := by
  induction lo generalizing s with
  | zero =>
    obtain ⟨n, hn, hpieces⟩ := pieces_of_mem_optional hf h
    exact ⟨n, Nat.zero_le _, by omega, hpieces⟩
  | succ lo ih =>
    obtain ⟨s', hs', h'⟩ := List.mem_flatMap.1 h
    obtain ⟨n, hlo, hn, hpieces⟩ := ih h'
    exact ⟨n + 1, by omega, by omega, .cons hf hs' hpieces⟩

/-- Every division of the beginning of the input into words is found, if their number is allowed
or there is a round for every letter; the rounds that consume nothing are left out. -/
theorem mem_optional_of_pieces (hf : Finds f P) {vs : List (List α)} (hvs : ∀ v ∈ vs, P v)
    (hextra : vs.length ≤ extra ∨ s.length ≤ extra) (hs : s = vs.flatten ++ t) :
    t ∈ optional f extra s := by
  induction vs generalizing extra s with
  | nil =>
    obtain rfl : s = t := by simpa using hs
    cases extra with
    | zero => simp [optional]
    | succ extra => simp [optional]
  | cons v vs ih =>
    have hrest : ∀ w ∈ vs, P w := fun w hw => hvs w (List.mem_cons_of_mem v hw)
    have hs : s = v ++ (vs.flatten ++ t) := by simpa using hs
    have hlen : s.length = v.length + (vs.flatten ++ t).length := by rw [hs, List.length_append]
    rw [List.length_cons] at hextra
    by_cases hnil : v = []
    · subst hnil
      exact ih hrest (by omega) (by simpa using hs)
    · have hpos : 0 < v.length := List.length_pos_iff.2 hnil
      obtain ⟨e, rfl⟩ : ∃ e, extra = e + 1 := ⟨extra - 1, by omega⟩
      have hfound : vs.flatten ++ t ∈ f s := (hf _ _).2 ⟨v, hs, hvs v List.mem_cons_self⟩
      have hshort : (vs.flatten ++ t).length < s.length := by omega
      have hnext : t ∈ optional f e (vs.flatten ++ t) := ih hrest (by omega) rfl
      exact List.mem_append_left _ (List.mem_flatMap.2 ⟨vs.flatten ++ t,
        List.mem_filter.2 ⟨hfound, decide_eq_true hshort⟩, hnext⟩)

theorem mem_rounds_of_pieces (hf : Finds f P) {vs : List (List α)} (hvs : ∀ v ∈ vs, P v)
    (hlo : lo ≤ vs.length) (hextra : vs.length ≤ lo + extra ∨ s.length ≤ extra)
    (hs : s = vs.flatten ++ t) : t ∈ rounds f extra lo s := by
  induction lo generalizing vs s with
  | zero => exact mem_optional_of_pieces hf hvs (by omega) hs
  | succ lo ih =>
    cases vs with
    | nil => exact absurd hlo (by simp)
    | cons v vs =>
      have hrest : ∀ w ∈ vs, P w := fun w hw => hvs w (List.mem_cons_of_mem v hw)
      have hs : s = v ++ (vs.flatten ++ t) := by simpa using hs
      have hlen : s.length = v.length + (vs.flatten ++ t).length := by rw [hs, List.length_append]
      rw [List.length_cons] at hlo hextra
      have hfound : vs.flatten ++ t ∈ f s := (hf _ _).2 ⟨v, hs, hvs v List.mem_cons_self⟩
      exact List.mem_flatMap.2 ⟨_, hfound, ih hrest (by omega) (by omega) rfl⟩

end Rounds

/-- **The matcher finds the words of the language**, at the beginning of the input. -/
theorem mem_rests_iff (r : Regex α) : Finds r.rests r.Lang := by
  induction r with
  | cls p =>
    intro s t
    cases s with
    | nil =>
      simp only [rests, List.not_mem_nil, false_iff]
      rintro ⟨u, hu, c, -, rfl⟩
      simp at hu
    | cons c s =>
      simp only [rests, Lang]
      split_ifs with hp
      · rw [List.mem_singleton]
        constructor
        · rintro rfl
          exact ⟨[c], rfl, c, hp, rfl⟩
        · rintro ⟨_, hu, d, -, rfl⟩
          exact (List.cons.inj hu).2.symm
      · simp only [List.not_mem_nil, false_iff]
        rintro ⟨_, hu, d, hd, rfl⟩
        rw [← (List.cons.inj hu).1] at hd
        exact hp hd
  | eps =>
    intro s t
    simp only [rests, Lang, List.mem_singleton]
    constructor
    · rintro rfl
      exact ⟨[], rfl, rfl⟩
    · rintro ⟨_, rfl, rfl⟩
      rfl
  | seq a b iha ihb =>
    intro s t
    simp only [rests, Lang, List.mem_flatMap]
    constructor
    · rintro ⟨s', hs', ht⟩
      obtain ⟨v, rfl, hv⟩ := (iha _ _).1 hs'
      obtain ⟨w, rfl, hw⟩ := (ihb _ _).1 ht
      exact ⟨v ++ w, by simp, v, w, rfl, hv, hw⟩
    · rintro ⟨_, rfl, v, w, rfl, hv, hw⟩
      exact ⟨w ++ t, (iha _ _).2 ⟨v, by simp, hv⟩, (ihb _ _).2 ⟨w, rfl, hw⟩⟩
  | alt a b iha ihb =>
    intro s t
    simp only [rests, Lang, List.mem_append, iha s t, ihb s t]
    constructor
    · rintro (⟨u, hs, hu⟩ | ⟨u, hs, hu⟩)
      · exact ⟨u, hs, Or.inl hu⟩
      · exact ⟨u, hs, Or.inr hu⟩
    · rintro ⟨u, hs, hu | hu⟩
      · exact Or.inl ⟨u, hs, hu⟩
      · exact Or.inr ⟨u, hs, hu⟩
  | rep a lo hi ih =>
    intro s t
    simp only [rests, Lang]
    constructor
    · intro h
      obtain ⟨n, hlo, hhi, vs, rfl, hvs, rfl⟩ := pieces_of_mem_rounds ih h
      exact ⟨vs.flatten, rfl, vs, hlo, hhi, hvs, rfl⟩
    · rintro ⟨_, hs, vs, hlo, hhi, hvs, rfl⟩
      exact mem_rounds_of_pieces ih hvs hlo (Or.inl hhi) hs
  | plus a ih =>
    intro s t
    simp only [rests, Lang]
    constructor
    · intro h
      obtain ⟨n, hlo, -, vs, rfl, hvs, rfl⟩ := pieces_of_mem_rounds ih h
      exact ⟨vs.flatten, rfl, vs, List.length_pos_iff.1 hlo, hvs, rfl⟩
    · rintro ⟨_, hs, vs, hne, hvs, rfl⟩
      exact mem_rounds_of_pieces ih hvs (List.length_pos_iff.2 hne) (Or.inr (Nat.le_refl _)) hs

theorem isMatch_iff {r : Regex α} {s : List α} : r.isMatch s = true ↔ r.Lang s := by
  rw [isMatch, List.any_eq_true]
  constructor
  · rintro ⟨t, ht, hnil⟩
    obtain rfl := List.isEmpty_iff.1 hnil
    obtain ⟨u, rfl, hu⟩ := (mem_rests_iff r _ _).1 ht
    rwa [List.append_nil]
  · intro hs
    exact ⟨[], (mem_rests_iff r _ _).2 ⟨s, by simp, hs⟩, rfl⟩

/-! ### Words and classes -/

section Lang

variable {r a b : Regex α} {p : α → Bool} {lo hi : ℕ} {u t : List α}

@[simp] theorem lang_seq : (seq a b).Lang u ↔ ∃ v w, u = v ++ w ∧ a.Lang v ∧ b.Lang w := Iff.rfl

@[simp] theorem lang_alt : (alt a b).Lang u ↔ a.Lang u ∨ b.Lang u := Iff.rfl

@[simp] theorem lang_lit [BEq α] [LawfulBEq α] {w : List α} : (lit w).Lang u ↔ u = w := by
  induction w generalizing u with
  | nil => rfl
  | cons c w ih =>
    simp only [lit, lang_seq, ih]
    constructor
    · rintro ⟨_, _, rfl, ⟨d, hd, rfl⟩, rfl⟩
      obtain rfl := eq_of_beq hd
      rfl
    · rintro rfl
      exact ⟨[c], w, rfl, ⟨c, beq_self_eq_true c, rfl⟩, rfl⟩

/-- Words of single letters. -/
theorem lang_cls_pieces {n : ℕ} :
    Pieces (cls p).Lang n u [] ↔ u.length = n ∧ ∀ c ∈ u, p c = true := by
  constructor
  · rintro ⟨vs, rfl, hvs, hu⟩
    rw [List.append_nil] at hu
    induction vs generalizing u with
    | nil =>
      subst hu
      exact ⟨rfl, nofun⟩
    | cons v vs ih =>
      obtain ⟨c, hc, rfl⟩ := hvs v List.mem_cons_self
      obtain ⟨hlen, hall⟩ := ih (fun w hw => hvs w (List.mem_cons_of_mem _ hw)) rfl
      subst hu
      refine ⟨?_, ?_⟩
      · rw [List.flatten_cons, List.length_append, hlen, List.length_singleton, List.length_cons]
        omega
      · rintro d (_ | ⟨_, hd⟩)
        · exact hc
        · exact hall d hd
  · rintro ⟨rfl, hu⟩
    refine ⟨u.map fun c => [c], by simp, ?_, by simp [← List.flatMap_def]⟩
    intro v hv
    obtain ⟨c, hc, rfl⟩ := List.mem_map.1 hv
    exact ⟨c, hu c hc, rfl⟩

theorem lang_rep_cls (h : lo ≤ hi) :
    (rep (cls p) lo hi).Lang u ↔ lo ≤ u.length ∧ u.length ≤ hi ∧ ∀ c ∈ u, p c = true := by
  have hpieces : (rep (cls p) lo hi).Lang u ↔
      ∃ n, lo ≤ n ∧ n ≤ hi ∧ Pieces (cls p).Lang n u [] := by
    constructor
    · rintro ⟨vs, hlo, hhi, hvs, rfl⟩
      exact ⟨vs.length, hlo, by omega, vs, rfl, hvs, by simp⟩
    · rintro ⟨_, hlo, hhi, vs, rfl, hvs, hu⟩
      exact ⟨vs, hlo, by omega, hvs, by simpa using hu⟩
  rw [hpieces]
  constructor
  · rintro ⟨n, hlo, hhi, hn⟩
    obtain ⟨rfl, hu⟩ := lang_cls_pieces.1 hn
    exact ⟨hlo, hhi, hu⟩
  · rintro ⟨hlo, hhi, hu⟩
    exact ⟨u.length, hlo, hhi, lang_cls_pieces.2 ⟨rfl, hu⟩⟩

/-! ### Preferred matches -/

/-- The class does not go on in `t`. -/
def Stops (p : α → Bool) (t : List α) : Prop := ∀ c ∈ t.head?, p c = false

theorem rests_cls_of_stops (h : Stops p t) : (cls p).rests t = [] := by
  cases t with
  | nil => rfl
  | cons c t => simp [rests, h c rfl]

/-- A greedy repetition of a class takes the longest run of the class. -/
theorem head?_rounds_cls {extra : ℕ} (hu : ∀ c ∈ u, p c = true) (hlo : lo ≤ u.length)
    (hhi : u.length ≤ lo + extra) (hstop : u.length = lo + extra ∨ Stops p t) :
    (rounds (cls p).rests extra lo (u ++ t)).head? = some t := by
  induction u generalizing lo extra with
  | nil =>
    obtain rfl : lo = 0 := by simpa using hlo
    cases extra with
    | zero => rfl
    | succ extra =>
      have hstop : Stops p t := hstop.resolve_left (by simp)
      simp [rounds, optional, rests_cls_of_stops hstop]
  | cons c u ih =>
    have hc : p c = true := hu c List.mem_cons_self
    have hrest : ∀ d ∈ u, p d = true := fun d hd => hu d (List.mem_cons_of_mem c hd)
    rw [List.length_cons] at hlo hhi hstop
    have hround : (cls p).rests (c :: (u ++ t)) = [u ++ t] := if_pos hc
    rw [List.cons_append]
    cases lo with
    | succ lo =>
      rw [rounds, hround, List.flatMap_singleton]
      exact ih hrest (by omega) (by omega) (hstop.imp_left (by omega))
    | zero =>
      obtain ⟨e, rfl⟩ : ∃ e, extra = e + 1 := ⟨extra - 1, by omega⟩
      have hnext : (rounds (cls p).rests e 0 (u ++ t)).head? = some t :=
        ih hrest (Nat.zero_le _) (by omega) (hstop.imp_left (by omega))
      rw [rounds] at hnext
      simp [rounds, optional, hround, hnext]

theorem head?_rests_rep (h : lo ≤ hi) (hu : ∀ c ∈ u, p c = true) (hlo : lo ≤ u.length)
    (hhi : u.length ≤ hi) (hstop : u.length = hi ∨ Stops p t) :
    ((rep (cls p) lo hi).rests (u ++ t)).head? = some t :=
  head?_rounds_cls hu hlo (by omega) (hstop.imp_left (by omega))

theorem head?_rests_plus (hu : ∀ c ∈ u, p c = true) (hne : u ≠ []) (hstop : Stops p t) :
    ((plus (cls p)).rests (u ++ t)).head? = some t := by
  refine head?_rounds_cls hu (List.length_pos_iff.2 hne) ?_ (Or.inr hstop)
  rw [List.length_append]
  omega

theorem rests_lit_append [BEq α] [LawfulBEq α] (w : List α) : (lit w).rests (w ++ t) = [t] := by
  induction w with
  | nil => rfl
  | cons c w ih => simp [lit, rests, ih]

theorem head?_rests_seq_lit [BEq α] [LawfulBEq α] (w : List α) {s : List α} :
    ((seq (lit w) r).rests (w ++ s)).head? = (r.rests s).head? := by
  rw [rests, rests_lit_append, List.flatMap_singleton]

/-- The left alternative comes first. -/
theorem head?_rests_alt_left {s : List α} (h : (a.rests s).head? = some t) :
    ((alt a b).rests s).head? = some t := by
  simp [rests, h]

theorem head?_rests_alt_right {s : List α} (h : a.rests s = []) :
    ((alt a b).rests s).head? = (b.rests s).head? := by
  rw [rests, h, List.nil_append]

/-! ### Searching -/

theorem search_of_head? (h : (r.rests (u ++ t)).head? = some t) :
    r.search (u ++ t) = some (u, t) := by
  have htake : (u ++ t).take ((u ++ t).length - t.length) = u := by simp
  cases hs : u ++ t with
  | nil =>
    obtain ⟨rfl, rfl⟩ := List.append_eq_nil_iff.1 hs
    rw [hs] at h
    simp [search, h]
  | cons c s =>
    rw [hs] at h htake
    simp only [search, h, htake]

theorem search_cons_of_rests {c : α} {s : List α} (h : r.rests (c :: s) = []) :
    r.search (c :: s) = r.search s := by
  simp [search, h]

/-- A search finds a word of the language, somewhere in the input. -/
theorem lang_of_search {s : List α} (h : r.search s = some (u, t)) :
    r.Lang u ∧ ∃ v, s = v ++ (u ++ t) := by
  induction s with
  | nil =>
    obtain ⟨t', ht', h'⟩ := Option.map_eq_some_iff.1 h
    obtain ⟨rfl, rfl⟩ := Prod.mk.inj h'
    obtain ⟨u, hu, hlang⟩ := (mem_rests_iff r _ _).1 (List.mem_of_mem_head? ht')
    obtain ⟨rfl, rfl⟩ := List.append_eq_nil_iff.1 hu.symm
    exact ⟨hlang, [], rfl⟩
  | cons c s ih =>
    rw [search] at h
    split at h
    · rename_i t' ht'
      obtain ⟨rfl, rfl⟩ := Prod.mk.inj (Option.some.inj h)
      obtain ⟨u, hu, hlang⟩ := (mem_rests_iff r _ _).1 (List.mem_of_mem_head? ht')
      have htake : (u ++ t').take ((u ++ t').length - t'.length) = u := by simp
      rw [hu, htake]
      exact ⟨hlang, [], rfl⟩
    · obtain ⟨hlang, v, rfl⟩ := ih h
      exact ⟨hlang, c :: v, rfl⟩

/-- No match is empty. -/
def Solid (r : Regex α) : Prop := ¬ r.Lang []

theorem length_lt_of_search (hr : r.Solid) {s : List α} (h : r.search s = some (u, t)) :
    t.length < s.length := by
  obtain ⟨hlang, v, rfl⟩ := lang_of_search h
  have hpos : 0 < u.length := List.length_pos_iff.2 fun hu => hr (hu ▸ hlang)
  simp only [List.length_append]
  omega

/-- The matches found by searching, and searching again in what follows. -/
def searchAll (r : Regex α) (hr : r.Solid) (s : List α) : List (List α) :=
  match h : r.search s with
  | none => []
  | some (u, t) =>
    have : t.length < s.length := length_lt_of_search hr h
    u :: searchAll r hr t
termination_by s.length

theorem searchAll_of_none (hr : r.Solid) {s : List α} (h : r.search s = none) :
    r.searchAll hr s = [] := by
  rw [searchAll]
  split
  · rfl
  · rename_i h'
    simp [h] at h'

theorem searchAll_of_some (hr : r.Solid) {s : List α} (h : r.search s = some (u, t)) :
    r.searchAll hr s = u :: r.searchAll hr t := by
  rw [searchAll]
  split
  · rename_i h'
    simp [h] at h'
  · rename_i h'
    obtain ⟨rfl, rfl⟩ := Prod.mk.inj (Option.some.inj (h.symm.trans h'))
    rfl

theorem searchAll_cons_of_rests (hr : r.Solid) {c : α} {s : List α} (h : r.rests (c :: s) = []) :
    r.searchAll hr (c :: s) = r.searchAll hr s := by
  cases hs : r.search s with
  | none => rw [searchAll_of_none hr hs, searchAll_of_none hr ((search_cons_of_rests h).trans hs)]
  | some p =>
    rw [searchAll_of_some hr hs, searchAll_of_some hr ((search_cons_of_rests h).trans hs)]

end Lang

end Regex

end HnefServer
