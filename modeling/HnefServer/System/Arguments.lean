import HnefServer.Data.Decimal
import HnefServer.Regex.Basic
import Mathlib.Data.List.Basic

/-!
# Arguments given on startup

`parse_arguments` reads the arguments in pairs of a flag and a value, and stops at the first pair
that is not accepted.  An argument is a text; the name of the program is left out.  Assertions of
the address expression look at what is left of the input, so that they are matchers of their own
beside `Regex.rests`.
-/

namespace HnefServer

/-- Default server parameters.  The address is the C string in its field. -/
structure Defaults where
  def_addr : Text
  def_port : ℤ
  def_clients : ℤ
  def_rooms : ℤ
  deriving DecidableEq

namespace Defaults

/-- The size of the address field. -/
def SIZE_ADDR : ℕ := 16

/-- The parameters `main` starts with. -/
def main : Defaults := ⟨"0.0.0.0".toList, 4567, 10, 5⟩

end Defaults

namespace Arguments

/-! ### Addresses -/

/-- A range of a class: the digits up to `d`. -/
def digitTo (d : Char) (c : Char) : Bool := '0' ≤ c && c ≤ d

/-- `25[0-5]|2[0-4][0-9]|[01]?[0-9][0-9]?` -/
def rgx_octet : Regex Char :=
  .alt (.seq (.lit "25".toList) (.cls (digitTo '5'))) <|
  .alt (.seq (.lit "2".toList) (.seq (.cls (digitTo '4')) (.cls (digitTo '9')))) <|
  .seq (.rep (.cls (digitTo '1')) 0 1) <|
  .seq (.cls (digitTo '9')) (.rep (.cls (digitTo '9')) 0 1)

/-- `$` -/
def atEnd (s : Text) : List Text := if s = [] then [s] else []

/-- `\.(?!$)` -/
def dotNotLast (s : Text) : List Text := ((Regex.lit ".".toList).rests s).filter (· ≠ [])

/-- `(?:octet)(?:\.(?!$)|$)` -/
def octetThen (s : Text) : List Text :=
  (rgx_octet.rests s).flatMap fun t => dotNotLast t ++ atEnd t

/-- `^(?:(?:octet)(?:\.(?!$)|$)){4}$` matches the whole text. -/
def isIpv4Address (str : Text) : Bool :=
  ((Regex.rounds octetThen 0 4 str).flatMap atEnd).any List.isEmpty

/-! ### Flags -/

/-- The value, or `-1` if there is an exception. -/
def parseNumber (num_str : Text) : ℤ :=
  match Text.stoi num_str with
  | .ok num => num
  | .error _ => -1

/-- The string value of a flag: the attribute and the return value. -/
def handleFlagString (str attr : Text) (rv : ℤ) : Text × ℤ :=
  if isIpv4Address str then (str, rv) else (attr, -1)

/-- The int value of a flag: the attribute and the return value. -/
def handleFlagInt (str : Text) (attr bottom top rv : ℤ) : ℤ × ℤ :=
  let num := parseNumber str
  if bottom ≤ num ∧ num ≤ top then (num, rv) else (attr, -1)

/-- One round of the loop: an argument and the one after it, if there is one. -/
def parseFlag (arg : Text) (next : Option Text) (defs : Defaults) (rv : ℤ) : ℤ × Defaults :=
  match arg with
  | ['-', flag] =>
    match next with
    | some str =>
      if flag = 'a' then
        let (def_addr, rv) := handleFlagString str defs.def_addr rv
        (rv, { defs with def_addr })
      else if flag = 'p' then
        let (def_port, rv) := handleFlagInt str defs.def_port 1024 49151 rv
        (rv, { defs with def_port })
      else if flag = 'c' then
        let (def_clients, rv) := handleFlagInt str defs.def_clients 2 20 rv
        (rv, { defs with def_clients })
      else if flag = 'r' then
        let (def_rooms, rv) := handleFlagInt str defs.def_rooms 1 10 rv
        (rv, { defs with def_rooms })
      -- invalid flag
      else (-1, defs)
    -- no value given
    | none => (-1, defs)
  -- not a flag
  | _ => (-1, defs)

/-- The loop over the arguments. -/
def parseLoop : List Text → Defaults → ℤ → ℤ × Defaults
  | [], defs, rv => (rv, defs)
  | [arg], defs, rv => parseFlag arg none defs rv
  | arg :: next :: args, defs, rv =>
    let (rv, defs) := parseFlag arg (some next) defs rv
    -- break after bad argument
    if rv = -1 then (rv, defs) else parseLoop args defs rv

/-- `parse_arguments`: the return value, and the parameters. -/
def parseArguments (args : List Text) (defs : Defaults) : ℤ × Defaults :=
  if args.head? = some "-h".toList then (1, defs) else parseLoop args defs 0

/-! ### What the address expression matches -/

/-- One to three digits that denote a number up to 255. -/
structure Octet (u : Text) : Prop where
  ne_nil : u ≠ []
  length_le : u.length ≤ 3
  digits : ∀ c ∈ u, c.isDigit = true
  value_le : Text.readDigits 0 u ≤ 255

/-- A dotted IPv4 address. -/
def Ipv4 (s : Text) : Prop :=
  ∃ o₁ o₂ o₃ o₄ : Text, Octet o₁ ∧ Octet o₂ ∧ Octet o₃ ∧ Octet o₄ ∧
    s = o₁ ++ '.' :: o₂ ++ '.' :: o₃ ++ '.' :: o₄

theorem digitTo_iff {c d : Char} : digitTo d c = true ↔ 48 ≤ c.toNat ∧ c.toNat ≤ d.toNat := by
  simp only [digitTo, Bool.and_eq_true, decide_eq_true_eq]
  exact ⟨fun ⟨h₁, h₂⟩ => ⟨h₁, h₂⟩, fun ⟨h₁, h₂⟩ => ⟨h₁, h₂⟩⟩

theorem digitTo_nine {c : Char} : digitTo '9' c = true ↔ c.isDigit = true := by
  rw [digitTo_iff, Text.isDigit_iff]
  rfl

/-- The words of the octet expression, by the digits they have. -/
theorem lang_octet_iff {u : Text} : rgx_octet.Lang u ↔
    (∃ c, digitTo '5' c = true ∧ u = ['2', '5', c]) ∨
    (∃ c d, digitTo '4' c = true ∧ d.isDigit = true ∧ u = ['2', c, d]) ∨
    ∃ v c w, (v.length ≤ 1 ∧ ∀ d ∈ v, digitTo '1' d = true) ∧ c.isDigit = true ∧
      (w.length ≤ 1 ∧ ∀ d ∈ w, d.isDigit = true) ∧ u = v ++ c :: w := by
  have hopt : ∀ p : Char → Bool, ∀ v : Text, (Regex.rep (.cls p) 0 1).Lang v ↔
      v.length ≤ 1 ∧ ∀ d ∈ v, p d = true := by
    intro p v
    rw [Regex.lang_rep_cls (Nat.zero_le 1)]
    simp
  simp only [rgx_octet, Regex.lang_alt, Regex.lang_seq, Regex.lang_lit, hopt, digitTo_nine]
  refine or_congr ?_ (or_congr ?_ ?_)
  · constructor
    · rintro ⟨_, _, hu, hv, c, hc, hw⟩
      exact ⟨c, hc, by rw [hu, hv, hw]; rfl⟩
    · rintro ⟨c, hc, hu⟩
      exact ⟨_, [c], hu, rfl, c, hc, rfl⟩
  · constructor
    · rintro ⟨_, _, hu, hv, _, _, hw, ⟨c, hc, hx⟩, d, hd, hy⟩
      exact ⟨c, d, hc, digitTo_nine.1 hd, by rw [hu, hv, hw, hx, hy]; rfl⟩
    · rintro ⟨c, d, hc, hd, hu⟩
      exact ⟨_, [c, d], hu, rfl, [c], [d], rfl, ⟨c, hc, rfl⟩, d, digitTo_nine.2 hd, rfl⟩
  · constructor
    · rintro ⟨v, _, hu, hv, _, w, hx, ⟨c, hc, hy⟩, hw⟩
      exact ⟨v, c, w, hv, digitTo_nine.1 hc, hw, by rw [hu, hx, hy]; rfl⟩
    · rintro ⟨v, c, w, hv, hc, hw, hu⟩
      exact ⟨v, c :: w, hu, hv, [c], w, rfl, ⟨c, digitTo_nine.2 hc, rfl⟩, hw⟩

theorem nil_or_singleton {v : Text} (h : v.length ≤ 1) : v = [] ∨ ∃ c, v = [c] := by
  match v, h with
  | [], _ => exact Or.inl rfl
  | [c], _ => exact Or.inr ⟨c, rfl⟩

/-- An octet has one, two or three characters. -/
theorem Octet.cases_length {u : Text} (h : Octet u) :
    (∃ a, u = [a]) ∨ (∃ a b, u = [a, b]) ∨ ∃ a b c, u = [a, b, c] := by
  have hpos := List.length_pos_iff.2 h.ne_nil
  have hle := h.length_le
  obtain hlen | hlen | hlen : u.length = 1 ∨ u.length = 2 ∨ u.length = 3 := by omega
  · exact Or.inl (List.length_eq_one_iff.1 hlen)
  · exact Or.inr (Or.inl (List.length_eq_two.1 hlen))
  · exact Or.inr (Or.inr (List.length_eq_three.1 hlen))

theorem readDigits_three (a b c : Char) :
    Text.readDigits 0 [a, b, c] =
      100 * Text.digitValue a + 10 * Text.digitValue b + Text.digitValue c := by
  simp only [Text.readDigits]
  omega

/-- Three digits. -/
theorem octet_three {a b c : Char} (ha : a.isDigit = true) (hb : b.isDigit = true)
    (hc : c.isDigit = true)
    (hval : 100 * Text.digitValue a + 10 * Text.digitValue b + Text.digitValue c ≤ 255) :
    Octet [a, b, c] :=
  ⟨by simp, by simp, by simp [ha, hb, hc], by rwa [readDigits_three]⟩

/-- One digit, perhaps with a digit up to 1 before it, and perhaps with a digit behind it. -/
theorem octet_upTo_199 {v w : Text} {c : Char} (hv : v.length ≤ 1)
    (hvd : ∀ d ∈ v, digitTo '1' d = true) (hc : c.isDigit = true) (hw : w.length ≤ 1)
    (hwd : ∀ d ∈ w, d.isDigit = true) : Octet (v ++ c :: w) := by
  have hcb := Text.isDigit_iff.1 hc
  have hvdig : ∀ d ∈ v, d.isDigit = true := by
    intro d hd
    have hdb := digitTo_iff.1 (hvd d hd)
    exact Text.isDigit_iff.2 ⟨hdb.1, hdb.2.trans (by decide)⟩
  refine ⟨by simp, ?_, ?_, ?_⟩
  · rw [List.length_append, List.length_cons]
    omega
  · intro d hd
    obtain hd | rfl | hd := by simpa using hd
    · exact hvdig d hd
    · exact hc
    · exact hwd d hd
  · obtain rfl | ⟨a, rfl⟩ := nil_or_singleton hv
    · obtain rfl | ⟨b, rfl⟩ := nil_or_singleton hw
      · simp only [List.nil_append, Text.readDigits, Text.digitValue]
        omega
      · have hbb := Text.isDigit_iff.1 (hwd b List.mem_cons_self)
        simp only [List.nil_append, Text.readDigits, Text.digitValue]
        omega
    · have hab := digitTo_iff.1 (hvd a List.mem_cons_self)
      have hone : '1'.toNat = 49 := rfl
      obtain rfl | ⟨b, rfl⟩ := nil_or_singleton hw
      · simp only [List.cons_append, List.nil_append, Text.readDigits, Text.digitValue]
        omega
      · have hbb := Text.isDigit_iff.1 (hwd b List.mem_cons_self)
        simp only [List.cons_append, List.nil_append, Text.readDigits, Text.digitValue]
        omega

/-- An octet of three digits is below 200, below 250, or has one of the last six values. -/
theorem lang_octet_three {a b c : Char} (h : Octet [a, b, c]) : rgx_octet.Lang [a, b, c] := by
  have hdig := h.digits
  have hval := h.value_le
  have hab := Text.isDigit_iff.1 (hdig a (by simp))
  have hbb := Text.isDigit_iff.1 (hdig b (by simp))
  have hcb := Text.isDigit_iff.1 (hdig c (by simp))
  rw [readDigits_three] at hval
  simp only [Text.digitValue] at hval
  rw [lang_octet_iff]
  by_cases hone : a.toNat ≤ 49
  · refine Or.inr (Or.inr ⟨[a], b, [c], ?_, hdig b (by simp), by simp [hdig c], rfl⟩)
    simp [digitTo_iff, hab.1, hone]
  have ha : a = '2' := Char.toNat_inj.1 (show a.toNat = 50 by omega)
  by_cases hfour : b.toNat ≤ 52
  · exact Or.inr (Or.inl ⟨b, c, digitTo_iff.2 ⟨hbb.1, hfour⟩, hdig c (by simp), by rw [ha]⟩)
  have hb : b = '5' := Char.toNat_inj.1 (show b.toNat = 53 by omega)
  exact Or.inl ⟨c, digitTo_iff.2 ⟨hcb.1, show c.toNat ≤ 53 by omega⟩, by rw [ha, hb]⟩

/-- The octet expression matches the numbers up to 255. -/
theorem lang_octet {u : Text} : rgx_octet.Lang u ↔ Octet u := by
  constructor
  · intro h
    rw [lang_octet_iff] at h
    obtain ⟨c, hc, rfl⟩ | ⟨c, d, hc, hd, rfl⟩ | ⟨v, c, w, ⟨hv, hvd⟩, hc, ⟨hw, hwd⟩, rfl⟩ := h
    · have hcb := digitTo_iff.1 hc
      have hdig : c.isDigit = true := Text.isDigit_iff.2 ⟨hcb.1, hcb.2.trans (by decide)⟩
      refine octet_three (by decide) (by decide) hdig ?_
      simp [Text.digitValue] at hcb ⊢
      omega
    · have hcb := digitTo_iff.1 hc
      have hdb := Text.isDigit_iff.1 hd
      have hdig : c.isDigit = true := Text.isDigit_iff.2 ⟨hcb.1, hcb.2.trans (by decide)⟩
      refine octet_three (by decide) hdig hd ?_
      simp [Text.digitValue] at hcb ⊢
      omega
    · exact octet_upTo_199 hv hvd hc hw hwd
  · intro h
    have hdig := h.digits
    obtain ⟨a, rfl⟩ | ⟨a, b, rfl⟩ | ⟨a, b, c, rfl⟩ := h.cases_length
    · exact lang_octet_iff.2 (Or.inr (Or.inr
        ⟨[], a, [], by simp, hdig a (by simp), by simp, rfl⟩))
    · exact lang_octet_iff.2 (Or.inr (Or.inr
        ⟨[], a, [b], by simp, hdig a (by simp), by simp [hdig b], rfl⟩))
    · exact lang_octet_three h

/-! ### What the address expression matches as a whole -/

theorem mem_atEnd_iff {s t : Text} : t ∈ atEnd s ↔ s = [] ∧ t = [] := by
  by_cases hs : s = []
  · simp [atEnd, hs]
  · simp [atEnd, hs]

theorem mem_dotNotLast_iff {s t : Text} : t ∈ dotNotLast s ↔ s = '.' :: t ∧ t ≠ [] := by
  rw [dotNotLast, List.mem_filter, Regex.mem_rests_iff]
  simp

theorem mem_octetThen_iff {s t : Text} :
    t ∈ octetThen s ↔ ∃ u, Octet u ∧ (s = u ++ '.' :: t ∧ t ≠ [] ∨ s = u ∧ t = []) := by
  simp only [octetThen, List.mem_flatMap, List.mem_append, mem_dotNotLast_iff, mem_atEnd_iff]
  constructor
  · intro ⟨r, hr, h⟩
    obtain ⟨u, hu, hoct⟩ := (Regex.mem_rests_iff _ _ _).1 hr
    refine ⟨u, lang_octet.1 hoct, ?_⟩
    obtain ⟨rfl, ht⟩ | ⟨rfl, rfl⟩ := h
    · exact Or.inl ⟨hu, ht⟩
    · exact Or.inr ⟨by rw [hu, List.append_nil], rfl⟩
  · intro ⟨u, hoct, h⟩
    obtain ⟨hs, ht⟩ | ⟨hs, rfl⟩ := h
    · exact ⟨'.' :: t, (Regex.mem_rests_iff _ _ _).2 ⟨u, hs, lang_octet.2 hoct⟩,
        Or.inl ⟨rfl, ht⟩⟩
    · exact ⟨[], (Regex.mem_rests_iff _ _ _).2 ⟨u, by rw [hs, List.append_nil],
        lang_octet.2 hoct⟩, Or.inr ⟨rfl, rfl⟩⟩

/-- An octet that another one follows is followed by a dot. -/
theorem mem_octetThen_of_ne {s t : Text} (ht : t ≠ []) :
    t ∈ octetThen s ↔ ∃ u, Octet u ∧ s = u ++ '.' :: t := by
  rw [mem_octetThen_iff]
  simp [ht]

theorem nil_mem_octetThen {s : Text} : [] ∈ octetThen s ↔ Octet s := by
  rw [mem_octetThen_iff]
  simp

theorem ne_nil_of_mem_octetThen {s t : Text} (h : t ∈ octetThen s) : s ≠ [] := by
  obtain ⟨u, hu, ⟨rfl, -⟩ | ⟨rfl, -⟩⟩ := mem_octetThen_iff.1 h
  · simp
  · exact hu.ne_nil

/-- **The address expression matches the dotted addresses.** -/
theorem isIpv4Address_iff {s : Text} : isIpv4Address s = true ↔ Ipv4 s := by
  simp only [isIpv4Address, Regex.rounds, Regex.optional, List.any_eq_true, List.mem_flatMap,
    List.mem_singleton, mem_atEnd_iff]
  constructor
  · rintro ⟨_, ⟨_, ⟨s₁, h₁, s₂, h₂, s₃, h₃, s₄, h₄, hs⟩, hend, _⟩, _⟩
    obtain rfl : s₄ = [] := hs.symm.trans hend
    obtain ⟨o₁, hoct₁, rfl⟩ := (mem_octetThen_of_ne (ne_nil_of_mem_octetThen h₂)).1 h₁
    obtain ⟨o₂, hoct₂, rfl⟩ := (mem_octetThen_of_ne (ne_nil_of_mem_octetThen h₃)).1 h₂
    obtain ⟨o₃, hoct₃, rfl⟩ := (mem_octetThen_of_ne (ne_nil_of_mem_octetThen h₄)).1 h₃
    exact ⟨o₁, o₂, o₃, s₃, hoct₁, hoct₂, hoct₃, nil_mem_octetThen.1 h₄, by simp⟩
  · rintro ⟨o₁, o₂, o₃, o₄, hoct₁, hoct₂, hoct₃, hoct₄, hs⟩
    refine ⟨[], ⟨[], ⟨o₂ ++ '.' :: (o₃ ++ '.' :: o₄), ?_, o₃ ++ '.' :: o₄, ?_, o₄, ?_, [], ?_, rfl⟩,
      rfl, rfl⟩, rfl⟩
    · exact (mem_octetThen_of_ne (by simp)).2 ⟨o₁, hoct₁, by simp [hs]⟩
    · exact (mem_octetThen_of_ne (by simp)).2 ⟨o₂, hoct₂, rfl⟩
    · exact (mem_octetThen_of_ne hoct₄.ne_nil).2 ⟨o₃, hoct₃, rfl⟩
    · exact nil_mem_octetThen.2 hoct₄

theorem Ipv4.length_lt {s : Text} (h : Ipv4 s) : s.length < Defaults.SIZE_ADDR := by
  obtain ⟨o₁, o₂, o₃, o₄, h₁, h₂, h₃, h₄, rfl⟩ := h
  have := h₁.length_le
  have := h₂.length_le
  have := h₃.length_le
  have := h₄.length_le
  simp only [List.length_append, List.length_cons, Defaults.SIZE_ADDR]
  omega

end Arguments

end HnefServer
