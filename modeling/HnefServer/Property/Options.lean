import HnefServer.System.Arguments

/-!
# Documented options

The help documents four options with an address or a number in a range.  `parse_arguments` reads
the numbers with `stoi`, which reads the longest numeric prefix: what it accepts are the documented
options exactly when each number is written out as a decimal integer.
-/

namespace HnefServer

namespace Arguments

/-- An option and its value. -/
inductive Setting
  | addr (a : Text)
  | port (n : ℤ)
  | clients (n : ℤ)
  | rooms (n : ℤ)

namespace Setting

def address? : Setting → Option Text
  | addr a => some a
  | _ => none

def port? : Setting → Option ℤ
  | port n => some n
  | _ => none

def clients? : Setting → Option ℤ
  | clients n => some n
  | _ => none

def rooms? : Setting → Option ℤ
  | rooms n => some n
  | _ => none

/-- The parameters with a setting. -/
def set (defs : Defaults) : Setting → Defaults
  | addr a => { defs with def_addr := a }
  | port n => { defs with def_port := n }
  | clients n => { defs with def_clients := n }
  | rooms n => { defs with def_rooms := n }

end Setting

/-- For each option the last value given, and the default if none was. -/
def given (defs : Defaults) (sts : List Setting) : Defaults where
  def_addr := (sts.filterMap Setting.address?).getLast?.getD defs.def_addr
  def_port := (sts.filterMap Setting.port?).getLast?.getD defs.def_port
  def_clients := (sts.filterMap Setting.clients?).getLast?.getD defs.def_clients
  def_rooms := (sts.filterMap Setting.rooms?).getLast?.getD defs.def_rooms

theorem foldl_set (defs : Defaults) (sts : List Setting) :
    sts.foldl Setting.set defs = given defs sts := by
  induction sts generalizing defs with
  | nil => rfl
  | cons st sts ih =>
    rw [List.foldl_cons, ih]
    cases st <;>
      simp [given, Setting.set, Setting.address?, Setting.port?, Setting.clients?,
        Setting.rooms?, List.getLast?_cons]

/-- A flag with a value is an option with a number in the documented range, `R` being what number
a value denotes, or with an address. -/
inductive Documented (R : Text → ℤ → Prop) : Text → Text → Setting → Prop
  | addr {value : Text} (h : Ipv4 value) : Documented R "-a".toList value (.addr value)
  | port {value : Text} {n : ℤ} (h : R value n) (hlo : 1024 ≤ n) (hhi : n ≤ 49151) :
      Documented R "-p".toList value (.port n)
  | clients {value : Text} {n : ℤ} (h : R value n) (hlo : 2 ≤ n) (hhi : n ≤ 20) :
      Documented R "-c".toList value (.clients n)
  | rooms {value : Text} {n : ℤ} (h : R value n) (hlo : 1 ≤ n) (hhi : n ≤ 10) :
      Documented R "-r".toList value (.rooms n)

/-- The arguments are pairs of a flag and a value, each a documented option. -/
inductive Options (R : Text → ℤ → Prop) : List Text → List Setting → Prop
  | nil : Options R [] []
  | cons {flag value : Text} {st : Setting} {args : List Text} {sts : List Setting}
      (h : Documented R flag value st) (hs : Options R args sts) :
      Options R (flag :: value :: args) (st :: sts)

/-- What `stoi` reads. -/
def Prefix (s : Text) (n : ℤ) : Prop := s.stoi = .ok n

/-- `parse_arguments` accepts the documented options, tells the help flag and bad arguments from
them, and keeps the values that were given, with an address that fits its field. -/
structure ReadsOptions (args : List Text) (defs : Defaults) : Prop where
  help : (parseArguments args defs).1 = 1 ↔ args.head? = some "-h".toList
  accepts : args.head? ≠ some "-h".toList →
    ((parseArguments args defs).1 = 0 ↔ ∃ sts, Options Text.Decimal args sts)
  rejects : args.head? ≠ some "-h".toList → (¬∃ sts, Options Text.Decimal args sts) →
    (parseArguments args defs).1 = -1
  values : (parseArguments args defs).1 = 0 →
    ∃ sts, Options Text.Decimal args sts ∧ (parseArguments args defs).2 = given defs sts
  fits : (parseArguments args defs).1 = 0 → defs.def_addr.length < Defaults.SIZE_ADDR →
    (parseArguments args defs).2.def_addr.length < Defaults.SIZE_ADDR

/-- The arguments are accepted with numbers read off the beginning of their values, and some
value of an option with a number is not a decimal integer as a whole. -/
def CutNumber (args : List Text) : Prop :=
  (∃ sts, Options Prefix args sts) ∧
    ∃ i flag value, args[2 * i]? = some flag ∧ args[2 * i + 1]? = some value ∧
      flag ≠ "-a".toList ∧ ¬∃ n, value.Decimal n

variable {R : Text → ℤ → Prop} {flag value : Text} {args : List Text} {defs : Defaults}

/-! ### One pair -/

theorem handleFlagInt_eq {n bottom top : ℤ} (h : Prefix value n) (attr rv : ℤ) :
    handleFlagInt value attr bottom top rv =
      if bottom ≤ n ∧ n ≤ top then (n, rv) else (attr, -1) := by
  have hnum : parseNumber value = n := by
    rw [Prefix] at h
    rw [parseNumber, h]
  rw [handleFlagInt, hnum]

theorem handleFlagInt_of_none {bottom top : ℤ} (h : ¬∃ n, Prefix value n) (hpos : 0 ≤ bottom)
    (attr rv : ℤ) : handleFlagInt value attr bottom top rv = (attr, -1) := by
  have hnum : parseNumber value = -1 := by
    rw [parseNumber]
    cases hv : value.stoi with
    | ok n => exact absurd ⟨n, hv⟩ h
    | error e => rfl
  have hrange : ¬(bottom ≤ (-1 : ℤ) ∧ (-1 : ℤ) ≤ top) := by omega
  rw [handleFlagInt, hnum]
  exact if_neg hrange

/-- An int value is accepted if what `stoi` reads is in the range. -/
theorem handleFlagInt_cases (value : Text) {bottom : ℤ} (hpos : 0 ≤ bottom) (top attr : ℤ) :
    (∃ n, Prefix value n ∧ bottom ≤ n ∧ n ≤ top ∧
        handleFlagInt value attr bottom top 0 = (n, 0)) ∨
      (¬∃ n, Prefix value n ∧ bottom ≤ n ∧ n ≤ top) ∧
        handleFlagInt value attr bottom top 0 = (attr, -1) := by
  by_cases h : ∃ n, Prefix value n
  · obtain ⟨n, hn⟩ := h
    rw [handleFlagInt_eq hn]
    by_cases hrange : bottom ≤ n ∧ n ≤ top
    · exact Or.inl ⟨n, hn, hrange.1, hrange.2, if_pos hrange⟩
    · refine Or.inr ⟨?_, if_neg hrange⟩
      intro ⟨m, hm, hbounds⟩
      obtain rfl : n = m := by
        rw [Prefix, hn] at hm
        exact Except.ok.inj hm
      exact hrange hbounds
  · refine Or.inr ⟨?_, handleFlagInt_of_none h hpos attr 0⟩
    intro ⟨n, hn, _⟩
    exact h ⟨n, hn⟩

theorem documented_iff {st : Setting} : Documented R flag value st ↔
    (flag = ['-', 'a'] ∧ Ipv4 value ∧ st = .addr value) ∨
    (flag = ['-', 'p'] ∧ ∃ n, (R value n ∧ 1024 ≤ n ∧ n ≤ 49151) ∧ st = .port n) ∨
    (flag = ['-', 'c'] ∧ ∃ n, (R value n ∧ 2 ≤ n ∧ n ≤ 20) ∧ st = .clients n) ∨
    (flag = ['-', 'r'] ∧ ∃ n, (R value n ∧ 1 ≤ n ∧ n ≤ 10) ∧ st = .rooms n) := by
  constructor
  · intro h
    cases h with
    | addr h => exact Or.inl ⟨rfl, h, rfl⟩
    | @port _ n h hlo hhi => exact Or.inr (Or.inl ⟨rfl, n, ⟨h, hlo, hhi⟩, rfl⟩)
    | @clients _ n h hlo hhi => exact Or.inr (Or.inr (Or.inl ⟨rfl, n, ⟨h, hlo, hhi⟩, rfl⟩))
    | @rooms _ n h hlo hhi => exact Or.inr (Or.inr (Or.inr ⟨rfl, n, ⟨h, hlo, hhi⟩, rfl⟩))
  · intro h
    obtain ⟨rfl, h, rfl⟩ | ⟨rfl, n, ⟨h, hlo, hhi⟩, rfl⟩ | ⟨rfl, n, ⟨h, hlo, hhi⟩, rfl⟩ |
      ⟨rfl, n, ⟨h, hlo, hhi⟩, rfl⟩ := h
    · exact .addr h
    · exact .port h hlo hhi
    · exact .clients h hlo hhi
    · exact .rooms h hlo hhi

/-- An option with a number: `make` is the setting and `update` sets the attribute. -/
theorem number_cases (bottom top attr : ℤ) (make : ℤ → Setting) (update : ℤ → Defaults)
    (hpos : 0 ≤ bottom)
    (hdoc : ∀ st, Documented Prefix flag value st ↔
      ∃ n, (Prefix value n ∧ bottom ≤ n ∧ n ≤ top) ∧ st = make n)
    (hparse : parseFlag flag (some value) defs 0 =
      ((handleFlagInt value attr bottom top 0).2, update (handleFlagInt value attr bottom top 0).1))
    (hset : ∀ n, Setting.set defs (make n) = update n) :
    (∃ st, Documented Prefix flag value st ∧
        parseFlag flag (some value) defs 0 = (0, Setting.set defs st)) ∨
      (¬∃ st, Documented Prefix flag value st) ∧
        (parseFlag flag (some value) defs 0).1 = -1 := by
  obtain ⟨n, hn, hlo, hhi, h⟩ | ⟨hnone, h⟩ :=
    handleFlagInt_cases value hpos top attr
  · refine Or.inl ⟨make n, (hdoc _).2 ⟨n, ⟨hn, hlo, hhi⟩, rfl⟩, ?_⟩
    rw [hparse, h, hset]
  · refine Or.inr ⟨?_, by rw [hparse, h]⟩
    intro ⟨st, hst⟩
    obtain ⟨n, hn, -⟩ := (hdoc st).1 hst
    exact hnone ⟨n, hn⟩

/-- One round of the loop: an option with its value is set, anything else ends the loop. -/
theorem parseFlag_cases (flag value : Text) (defs : Defaults) :
    (∃ st, Documented Prefix flag value st ∧
        parseFlag flag (some value) defs 0 = (0, Setting.set defs st)) ∨
      (¬∃ st, Documented Prefix flag value st) ∧
        (parseFlag flag (some value) defs 0).1 = -1 := by
  by_cases haddr : flag = ['-', 'a']
  · subst haddr
    have heq : parseFlag ['-', 'a'] (some value) defs 0 =
      ((handleFlagString value defs.def_addr 0).2,
        { defs with def_addr := (handleFlagString value defs.def_addr 0).1 }) := by
      simp only [parseFlag, if_true]
    by_cases hipv4 : isIpv4Address value = true
    · refine Or.inl ⟨.addr value, .addr (isIpv4Address_iff.1 hipv4), ?_⟩
      rw [heq, handleFlagString, if_pos hipv4]
      rfl
    · refine Or.inr ⟨?_, ?_⟩
      · intro ⟨st, h⟩
        rw [documented_iff] at h
        simp [← isIpv4Address_iff, hipv4] at h
      · rw [heq, handleFlagString, if_neg hipv4]
  by_cases hport : flag = ['-', 'p']
  · subst hport
    exact number_cases 1024 49151 defs.def_port .port (fun n => { defs with def_port := n })
      (by decide) (fun st => by rw [documented_iff]; simp) rfl fun n => rfl
  by_cases hclients : flag = ['-', 'c']
  · subst hclients
    exact number_cases 2 20 defs.def_clients .clients (fun n => { defs with def_clients := n })
      (by decide) (fun st => by rw [documented_iff]; simp) rfl fun n => rfl
  by_cases hrooms : flag = ['-', 'r']
  · subst hrooms
    exact number_cases 1 10 defs.def_rooms .rooms (fun n => { defs with def_rooms := n })
      (by decide) (fun st => by rw [documented_iff]; simp) rfl fun n => rfl
  refine Or.inr ⟨?_, ?_⟩
  · intro ⟨st, hst⟩
    rw [documented_iff] at hst
    simp [haddr, hport, hclients, hrooms] at hst
  · unfold parseFlag
    split
    · rename_i c
      have ha : c ≠ 'a' := fun h => haddr (by rw [h])
      have hp : c ≠ 'p' := fun h => hport (by rw [h])
      have hc : c ≠ 'c' := fun h => hclients (by rw [h])
      have hr : c ≠ 'r' := fun h => hrooms (by rw [h])
      simp only [ha, hp, hc, hr, if_false]
    · rfl

theorem parseFlag_none (flag : Text) (defs : Defaults) : (parseFlag flag none defs 0).1 = -1 := by
  unfold parseFlag
  split <;> rfl

/-! ### The loop -/

/-- The loop accepts the arguments whose numbers `stoi` reads in the ranges. -/
theorem parseLoop_cases (args : List Text) (defs : Defaults) :
    (∃ sts, Options Prefix args sts ∧
        parseLoop args defs 0 = (0, sts.foldl Setting.set defs)) ∨
      (¬∃ sts, Options Prefix args sts) ∧ (parseLoop args defs 0).1 = -1 := by
  match args with
  | [] => exact Or.inl ⟨[], .nil, rfl⟩
  | [flag] =>
    refine Or.inr ⟨?_, ?_⟩
    · intro ⟨sts, h⟩
      cases h
    · exact parseFlag_none flag defs
  | flag :: value :: args =>
    obtain ⟨st, hst, h⟩ | ⟨hnone, h⟩ := parseFlag_cases flag value defs
    · have hnext : parseLoop (flag :: value :: args) defs 0 =
          parseLoop args (Setting.set defs st) 0 := by
        rw [parseLoop, h]
        rfl
      rw [hnext]
      obtain ⟨sts, hsts, h'⟩ | ⟨hnone, h'⟩ := parseLoop_cases args (Setting.set defs st)
      · exact Or.inl ⟨st :: sts, .cons hst hsts, h'⟩
      · refine Or.inr ⟨?_, h'⟩
        intro ⟨sts, hsts⟩
        cases hsts with
        | cons _ hs => exact hnone ⟨_, hs⟩
    · refine Or.inr ⟨?_, ?_⟩
      · intro ⟨sts, hsts⟩
        cases hsts with
        | cons hst _ => exact hnone ⟨_, hst⟩
      · rw [parseLoop]
        dsimp only
        rw [if_pos h]
        exact h

/-! ### Numbers that are decimal integers as a whole -/

/-- The values of the options with a number are decimal integers. -/
def WholeNumbers (args : List Text) : Prop :=
  ∀ i flag value, args[2 * i]? = some flag → args[2 * i + 1]? = some value →
    flag ≠ "-a".toList → ∃ n, value.Decimal n

theorem WholeNumbers.tail (h : WholeNumbers (flag :: value :: args)) : WholeNumbers args := by
  intro i flag' value' hflag hvalue hne
  exact h (i + 1) flag' value' hflag hvalue hne

/-- A number in a documented range is read the same by `stoi`. -/
theorem Documented.toPrefix {st : Setting} (h : Documented Text.Decimal flag value st) :
    Documented Prefix flag value st := by
  have hread : ∀ n, value.Decimal n → 0 ≤ n → n ≤ 49151 → Prefix value n := by
    intro n hn hlo hhi
    rw [Prefix, Text.stoi_of_decimal hn]
    exact if_pos ⟨by omega, by omega⟩
  cases h with
  | addr h => exact .addr h
  | port h hlo hhi => exact .port (hread _ h (by omega) hhi) hlo hhi
  | clients h hlo hhi => exact .clients (hread _ h (by omega) (by omega)) hlo hhi
  | rooms h hlo hhi => exact .rooms (hread _ h (by omega) (by omega)) hlo hhi

theorem Documented.decimal {st : Setting} (h : Documented Prefix flag value st)
    (hwhole : flag ≠ "-a".toList → ∃ n, value.Decimal n) :
    Documented Text.Decimal flag value st := by
  have hread : ∀ n, Prefix value n → (∃ m, value.Decimal m) → value.Decimal n := by
    intro n hn ⟨m, hm⟩
    rw [Text.eq_of_stoi hm hn]
    exact hm
  cases h with
  | addr h => exact .addr h
  | port h hlo hhi => exact .port (hread _ h (hwhole (by decide))) hlo hhi
  | clients h hlo hhi => exact .clients (hread _ h (hwhole (by decide))) hlo hhi
  | rooms h hlo hhi => exact .rooms (hread _ h (hwhole (by decide))) hlo hhi

theorem Documented.whole {st : Setting} (h : Documented Text.Decimal flag value st)
    (hne : flag ≠ "-a".toList) : ∃ n, value.Decimal n := by
  cases h with
  | addr => exact absurd rfl hne
  | port h => exact ⟨_, h⟩
  | clients h => exact ⟨_, h⟩
  | rooms h => exact ⟨_, h⟩

/-- Documented options are those accepted whose numbers are decimal integers as a whole. -/
theorem options_decimal_iff {sts : List Setting} :
    Options Text.Decimal args sts ↔ Options Prefix args sts ∧ WholeNumbers args := by
  constructor
  · intro h
    induction h with
    | nil => exact ⟨.nil, fun i flag value hflag => by simp at hflag⟩
    | cons h _ ih =>
      refine ⟨.cons h.toPrefix ih.1, ?_⟩
      intro i flag' value' hflag hvalue hne
      cases i with
      | zero =>
        obtain rfl := Option.some.inj hflag
        obtain rfl := Option.some.inj hvalue
        exact h.whole hne
      | succ i => exact ih.2 i flag' value' hflag hvalue hne
  · intro ⟨h, hwhole⟩
    induction h with
    | nil => exact .nil
    | cons h _ ih => exact .cons (h.decimal (hwhole 0 _ _ rfl rfl)) (ih hwhole.tail)

theorem Options.head_ne {sts : List Setting} (h : Options R args sts) :
    args.head? ≠ some "-h".toList := by
  cases h with
  | nil => simp
  | cons h _ =>
    intro heq
    obtain rfl := Option.some.inj heq
    cases h

theorem Options.fits {sts : List Setting} (h : Options R args sts)
    (hdefs : defs.def_addr.length < Defaults.SIZE_ADDR) :
    (sts.foldl Setting.set defs).def_addr.length < Defaults.SIZE_ADDR := by
  induction h generalizing defs with
  | nil => exact hdefs
  | cons h _ ih =>
    refine ih ?_
    cases h with
    | addr h => exact h.length_lt
    | port => exact hdefs
    | clients => exact hdefs
    | rooms => exact hdefs

theorem cutNumber_iff :
    CutNumber args ↔ (∃ sts, Options Prefix args sts) ∧ ¬WholeNumbers args := by
  simp only [CutNumber, WholeNumbers, not_forall, exists_prop]

/-- **The command line accepts exactly the documented options, unless a number is cut off.**
`parse_arguments` tells help, documented options and bad arguments apart and keeps the last value
of each option, if and only if the arguments are not accepted with a value that `stoi` reads only
the beginning of. -/
theorem options_read_iff (args : List Text) (defs : Defaults) :
    ReadsOptions args defs ↔ ¬CutNumber args := by
  rw [cutNumber_iff]
  by_cases hhelp : args.head? = some "-h".toList
  · have hres : parseArguments args defs = (1, defs) := if_pos hhelp
    have hnone : ¬∃ sts, Options Prefix args sts := fun ⟨_, h⟩ => h.head_ne hhelp
    refine iff_of_true ⟨?_, ?_, ?_, ?_, ?_⟩ fun h => hnone h.1
    · rw [hres]
      exact iff_of_true rfl hhelp
    · intro hne
      exact absurd hhelp hne
    · intro hne
      exact absurd hhelp hne
    · rw [hres]
      intro h
      exact absurd h Int.one_ne_zero
    · rw [hres]
      intro h
      exact absurd h Int.one_ne_zero
  have hres : parseArguments args defs = parseLoop args defs 0 := if_neg hhelp
  obtain ⟨sts, hsts, hloop⟩ | ⟨hnone, hloop⟩ := parseLoop_cases args defs
  · have hzero : (parseArguments args defs).1 = 0 := by rw [hres, hloop]
    constructor
    · intro h ⟨_, hcut⟩
      obtain ⟨sts', hdec⟩ := (h.accepts hhelp).1 hzero
      exact hcut (options_decimal_iff.1 hdec).2
    · intro h
      have hwhole : WholeNumbers args := by
        by_contra hcut
        exact h ⟨⟨sts, hsts⟩, hcut⟩
      have hdec : Options Text.Decimal args sts := options_decimal_iff.2 ⟨hsts, hwhole⟩
      refine ⟨?_, ?_, ?_, ?_, ?_⟩
      · rw [hzero]
        exact iff_of_false (by decide) hhelp
      · intro _
        exact iff_of_true hzero ⟨sts, hdec⟩
      · intro _ hnot
        exact absurd ⟨sts, hdec⟩ hnot
      · intro _
        exact ⟨sts, hdec, by rw [hres, hloop, foldl_set]⟩
      · intro _ hdefs
        rw [hres, hloop]
        exact hsts.fits hdefs
  · have hbad : (parseArguments args defs).1 = -1 := by rw [hres, hloop]
    have hdec : ¬∃ sts, Options Text.Decimal args sts :=
      fun ⟨sts, h⟩ => hnone ⟨sts, (options_decimal_iff.1 h).1⟩
    refine iff_of_true ⟨?_, ?_, ?_, ?_, ?_⟩ fun h => hnone h.1
    · rw [hbad]
      exact iff_of_false (by decide) hhelp
    · intro _
      rw [hbad]
      exact iff_of_false (by decide) hdec
    · intro _ _
      exact hbad
    · intro hzero
      exact absurd (hbad.symm.trans hzero) (by decide)
    · intro hzero
      exact absurd (hbad.symm.trans hzero) (by decide)

/-- A port with letters behind the number is accepted. -/
theorem cut_port_accepted :
    ¬∀ (args : List Text) (defs : Defaults), ReadsOptions args defs := by
  intro h
  obtain ⟨sts, hsts⟩ := ((h ["-p".toList, "5000abc".toList] Defaults.main).accepts (by decide)).1
    (by decide)
  obtain ⟨n, hn⟩ := (options_decimal_iff.1 hsts).2 0 _ _ rfl rfl (by decide)
  have hchar := hn.chars (show 'a' ∈ "5000abc".toList by decide)
  exact absurd hchar (by decide)

end Arguments

end HnefServer
