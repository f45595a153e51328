import HnefServer.Network.Route
import HnefServer.Regex.Basic

/-!
# Decoding a buffer

`isValidFormat` checks the whole buffer, `parseMsg` searches the frames in it, `process` splits
each frame into its key and its value and routes it.  The buffer that spells some frames
(`Frame.wire`) is cut into these frames again, although the searches are not anchored: nothing
matches at a brace or at a colon, and a payload cannot be left early.
-/

namespace HnefServer

open Protocol Regex

namespace Protocol

/-- `<|>|c:\w{3,20}|rd|m:\d{8}|l|ok|ch:[a-zA-Z0-9\s.!?]{1,100}` -/
def rgx_data : Regex Char :=
  .alt (.lit "<".toList) <|
  .alt (.lit ">".toList) <|
  .alt (.seq (.lit "c:".toList) (.rep (.cls isWordChar) 3 20)) <|
  .alt (.lit "rd".toList) <|
  .alt (.seq (.lit "m:".toList) (.rep (.cls Char.isDigit) 8 8)) <|
  .alt (.lit "l".toList) <|
  .alt (.lit "ok".toList) <|
  .seq (.lit "ch:".toList) (.rep (.cls isChatChar) 1 100)

/-- One or more pieces of data in curly brackets; the source writes out the alternatives of
`rgx_data` again. -/
def rgx_valid_format : Regex Char :=
  .plus (.seq (.lit "\x7b".toList) (.seq rgx_data (.lit "\x7d".toList)))

/-- `[^:]+` -/
def rgx_key_value : Regex Char := .plus (.cls (· != ':'))

theorem rgx_data_solid : rgx_data.Solid := by
  simp [Solid, rgx_data]

theorem rgx_key_value_solid : rgx_key_value.Solid := by
  rintro ⟨vs, hne, hvs, hflat⟩
  obtain ⟨v, vs, rfl⟩ := List.exists_cons_of_ne_nil hne
  obtain ⟨c, -, rfl⟩ := hvs v List.mem_cons_self
  simp at hflat

end Protocol

/-- `0` if the message is valid. -/
def isValidFormat (msg : Text) : ℤ := if rgx_valid_format.isMatch msg then 0 else 1

/-- The queue of the data in the brackets. -/
def parseMsg (msg : Text) : List Text := rgx_data.searchAll rgx_data_solid msg

/-- The elements `process` puts into the request queue for one element of the data. -/
def keyValues (data : Text) : List Text := rgx_key_value.searchAll rgx_key_value_solid data

namespace ClientManager

/-- The loop of `process`; the request queue is shared by its iterations. -/
def process (client : ℕ) :
    ClientManager → List Text → List Text → Except Fault (ClientManager × ℤ)
  | m, [], _ => .ok (m, 0)
  | m, front :: data, rqst => do
    let (m, processed, rqst) ← routeRequest client m (rqst ++ keyValues front) 0
    if processed ≠ 0 then return (m, -1) else process client m data rqst

/-- `Server::serveClient`, with the buffer of the server. -/
def serveClient (m : ClientManager) (client : ℕ) (buffer : Text) :
    Except Fault (ClientManager × ℤ) :=
  let valid := if isValidFormat buffer = 0 then 0 else 1
  let data := if isValidFormat buffer = 0 then parseMsg buffer else []
  if data ≠ [] then m.process client data [] else return (m, valid)

/-- Handle frames in order, up to the first one whose request fails. -/
def handleFrames (client : ℕ) : ClientManager → List Frame → Except Fault (ClientManager × ℤ)
  | m, [] => .ok (m, 0)
  | m, d :: ds => do
    let (m, processed) ← m.handleFrame client d
    if processed ≠ 0 then return (m, -1) else handleFrames client m ds

end ClientManager

namespace Frame

/-- A frame in its brackets. -/
def bracketed (d : Frame) : Text := OP_SOH ++ d.text ++ OP_EOT

/-- The buffer that spells some frames. -/
def wire (ds : List Frame) : Text := ds.flatMap bracketed

/-! ### The grammar -/

theorem lang_payload {p : Char → Bool} {lo hi : ℕ} (h : lo ≤ hi) {u : Text} :
    (Regex.rep (.cls p) lo hi).Lang u ↔ ∃ v : Payload p lo hi, v.text = u := by
  rw [lang_rep_cls h]
  constructor
  · rintro ⟨hlo, hhi, hu⟩
    exact ⟨⟨u, hlo, hhi, hu⟩, rfl⟩
  · rintro ⟨v, rfl⟩
    exact ⟨v.lower, v.upper, v.chars⟩

/-- **The alternatives of the data regex are the frames.** -/
theorem lang_rgx_data {u : Text} : rgx_data.Lang u ↔ ∃ d : Frame, d.text = u := by
  simp only [rgx_data, lang_alt, lang_seq, lang_lit, lang_payload (show 3 ≤ 20 by decide),
    lang_payload (Nat.le_refl 8), lang_payload (show 1 ≤ 100 by decide)]
  constructor
  · rintro (rfl | rfl | ⟨_, _, rfl, rfl, v, rfl⟩ | rfl | ⟨_, _, rfl, rfl, v, rfl⟩ | rfl | rfl |
      ⟨_, _, rfl, rfl, v, rfl⟩)
    · exact ⟨pong, rfl⟩
    · exact ⟨ping, rfl⟩
    · exact ⟨connect v, rfl⟩
    · exact ⟨ready, rfl⟩
    · exact ⟨move v, rfl⟩
    · exact ⟨leave, rfl⟩
    · exact ⟨ok, rfl⟩
    · exact ⟨chat v, rfl⟩
  · rintro ⟨d, rfl⟩
    cases d with
    | pong => exact Or.inl rfl
    | ping => exact Or.inr (Or.inl rfl)
    | connect v => exact Or.inr (Or.inr (Or.inl ⟨_, _, rfl, rfl, v, rfl⟩))
    | ready => exact Or.inr (Or.inr (Or.inr (Or.inl rfl)))
    | move v => exact Or.inr (Or.inr (Or.inr (Or.inr (Or.inl ⟨_, _, rfl, rfl, v, rfl⟩))))
    | leave => exact Or.inr (Or.inr (Or.inr (Or.inr (Or.inr (Or.inl rfl)))))
    | ok => exact Or.inr (Or.inr (Or.inr (Or.inr (Or.inr (Or.inr (Or.inl rfl))))))
    | chat v => exact Or.inr (Or.inr (Or.inr (Or.inr (Or.inr (Or.inr (Or.inr
        ⟨_, _, rfl, rfl, v, rfl⟩))))))

theorem exists_map_bracketed {vs : List Text} (hvs : ∀ v ∈ vs, ∃ d : Frame, d.bracketed = v) :
    ∃ ds : List Frame, ds.map bracketed = vs := by
  induction vs with
  | nil => exact ⟨[], rfl⟩
  | cons v vs ih =>
    obtain ⟨d, rfl⟩ := hvs v List.mem_cons_self
    obtain ⟨ds, rfl⟩ := ih fun w hw => hvs w (List.mem_cons_of_mem _ hw)
    exact ⟨d :: ds, rfl⟩

/-- **A buffer is valid iff it spells some frames.** -/
theorem isValidFormat_iff {buffer : Text} :
    isValidFormat buffer = 0 ↔ ∃ ds : List Frame, ds ≠ [] ∧ buffer = wire ds := by
  have hmatch : isValidFormat buffer = 0 ↔ rgx_valid_format.Lang buffer := by
    rw [← isMatch_iff, isValidFormat]
    split_ifs with h
    · simp [h]
    · simp [h]
  have hframe : ∀ v : Text, (Regex.seq (.lit "\x7b".toList) (.seq rgx_data
      (.lit "\x7d".toList))).Lang v ↔ ∃ d : Frame, d.bracketed = v := by
    intro v
    simp only [lang_seq, lang_lit, lang_rgx_data]
    constructor
    · rintro ⟨_, _, rfl, rfl, _, _, rfl, ⟨d, rfl⟩, rfl⟩
      exact ⟨d, List.append_assoc _ _ _⟩
    · rintro ⟨d, rfl⟩
      exact ⟨_, _, List.append_assoc _ _ _, rfl, _, _, rfl, ⟨d, rfl⟩, rfl⟩
  rw [hmatch]
  constructor
  · rintro ⟨vs, hne, hvs, rfl⟩
    obtain ⟨ds, rfl⟩ := exists_map_bracketed fun v hv => (hframe v).1 (hvs v hv)
    exact ⟨ds, by simpa using hne, List.flatMap_def.symm⟩
  · rintro ⟨ds, hne, rfl⟩
    refine ⟨ds.map bracketed, by simpa using hne, ?_, List.flatMap_def⟩
    intro v hv
    obtain ⟨d, -, rfl⟩ := List.mem_map.1 hv
    exact (hframe _).2 ⟨d, rfl⟩

/-! ### Searching the frames -/

/-- The data regex does not match at a bracket. -/
theorem rests_bracket (t : Text) :
    rgx_data.rests ('\x7b' :: t) = [] ∧ rgx_data.rests ('\x7d' :: t) = [] := by
  simp [rgx_data, rests, lit]

theorem stops_bracket {p : Char → Bool} (hp : p '\x7d' = false) (t : Text) :
    Stops p ('\x7d' :: t) := by
  rintro c ⟨⟩
  exact hp

/-- The preferred match at the beginning of a frame with a value. -/
theorem head?_rests_payload {p : Char → Bool} {lo hi : ℕ} (v : Payload p lo hi) (key t : Text)
    (hp : p '\x7d' = false) :
    ((Regex.seq (.lit key) (.rep (.cls p) lo hi)).rests (key ++ (v.text ++ '\x7d' :: t))).head? =
      some ('\x7d' :: t) := by
  rw [head?_rests_seq_lit]
  exact head?_rests_rep (v.lower.trans v.upper) v.chars v.lower v.upper
    (Or.inr (stops_bracket hp t))

/-- **The preferred match at the beginning of a frame is the whole frame.** -/
theorem head?_rests_text (d : Frame) (t : Text) :
    (rgx_data.rests (d.text ++ '\x7d' :: t)).head? = some ('\x7d' :: t) := by
  cases d with
  | ping | pong | ready | leave | ok =>
    simp [Frame.text, Frame.value, Frame.key, OP_PING, OP_PONG, CC_READY, CC_LEAV, rgx_data, rests,
      lit]
  | connect v =>
    change (rgx_data.rests ("c:".toList ++ (v.text ++ '\x7d' :: t))).head? = _
    rw [rgx_data, head?_rests_alt_right (by simp [rests, lit]),
      head?_rests_alt_right (by simp [rests, lit])]
    exact head?_rests_alt_left (head?_rests_payload v _ t rfl)
  | move v =>
    change (rgx_data.rests ("m:".toList ++ (v.text ++ '\x7d' :: t))).head? = _
    rw [rgx_data, head?_rests_alt_right (by simp [rests, lit]),
      head?_rests_alt_right (by simp [rests, lit]), head?_rests_alt_right (by simp [rests, lit]),
      head?_rests_alt_right (by simp [rests, lit])]
    exact head?_rests_alt_left (head?_rests_payload v _ t rfl)
  | chat v =>
    change (rgx_data.rests ("ch:".toList ++ (v.text ++ '\x7d' :: t))).head? = _
    rw [rgx_data, head?_rests_alt_right (by simp [rests, lit]),
      head?_rests_alt_right (by simp [rests, lit]), head?_rests_alt_right (by simp [rests, lit]),
      head?_rests_alt_right (by simp [rests, lit]), head?_rests_alt_right (by simp [rests, lit]),
      head?_rests_alt_right (by simp [rests, lit]), head?_rests_alt_right (by simp [rests, lit])]
    exact head?_rests_payload v _ t rfl

/-- **The searches in a valid buffer find its frames.** -/
theorem parseMsg_wire (ds : List Frame) : parseMsg (wire ds) = ds.map Frame.text := by
  induction ds with
  | nil => exact searchAll_of_none rgx_data_solid rfl
  | cons d ds ih =>
    have hwire : wire (d :: ds) = '\x7b' :: (d.text ++ '\x7d' :: wire ds) := by
      simp [wire, bracketed, OP_SOH, OP_EOT]
    have hfound := search_of_head? (head?_rests_text d (wire ds))
    rw [hwire, parseMsg, searchAll_cons_of_rests _ (rests_bracket _).1,
      searchAll_of_some _ hfound, searchAll_cons_of_rests _ (rests_bracket _).2]
    exact congrArg (d.text :: ·) ih

/-! ### Keys and values -/

/-- A text without colons is one element. -/
theorem keyValues_eq_singleton {u : Text} (hu : ∀ c ∈ u, (c != ':') = true) (hne : u ≠ []) :
    keyValues u = [u] := by
  have hfound : rgx_key_value.search (u ++ []) = some (u, []) :=
    search_of_head? (head?_rests_plus hu hne nofun)
  rw [List.append_nil] at hfound
  rw [keyValues, searchAll_of_some _ hfound, searchAll_of_none _ rfl]

/-- A text with one colon is its key and its value. -/
theorem keyValues_eq_pair {u v : Text} (hu : ∀ c ∈ u, (c != ':') = true) (hune : u ≠ [])
    (hv : ∀ c ∈ v, (c != ':') = true) (hvne : v ≠ []) : keyValues (u ++ OP_INI ++ v) = [u, v] := by
  have hstop : Stops (· != ':') (':' :: v) := by
    rintro c ⟨⟩
    rfl
  have hfound : rgx_key_value.search (u ++ ':' :: v) = some (u, ':' :: v) :=
    search_of_head? (head?_rests_plus hu hune hstop)
  have hcolon : rgx_key_value.rests (':' :: v) = [] := by
    simp [rgx_key_value, rests, rounds]
  have hvalue := keyValues_eq_singleton hv hvne
  rw [List.append_assoc]
  change keyValues (u ++ ':' :: v) = _
  rw [keyValues, searchAll_of_some _ hfound, searchAll_cons_of_rests _ hcolon]
  exact congrArg (u :: ·) hvalue

theorem payload_ne_colon {p : Char → Bool} {lo hi : ℕ} (hp : p ':' = false)
    (v : Payload p lo hi) : ∀ c ∈ v.text, (c != ':') = true := by
  intro c hc
  rw [bne_iff_ne]
  rintro rfl
  have hcolon := v.chars _ hc
  rw [hp] at hcolon
  cases hcolon

theorem payload_ne_nil {p : Char → Bool} {lo hi : ℕ} (hlo : 0 < lo) (v : Payload p lo hi) :
    v.text ≠ [] := by
  have hpos := v.lower
  intro h
  rw [h, List.length_nil] at hpos
  omega

/-- **Each frame is split into its key and, if it has one, its value.** -/
theorem keyValues_text (d : Frame) : keyValues d.text = d.request := by
  cases d with
  | ping | pong | ready | leave | ok =>
    exact keyValues_eq_singleton (by simp [text, value, key, OP_PING, OP_PONG, CC_READY, CC_LEAV])
      (by decide)
  | connect v =>
    change keyValues (CC_CONN ++ OP_INI ++ v.text) = [CC_CONN, v.text]
    exact keyValues_eq_pair (by simp [CC_CONN]) (by decide) (payload_ne_colon rfl v)
      (payload_ne_nil (by decide) v)
  | move v =>
    change keyValues (CC_MOVE ++ OP_INI ++ v.text) = [CC_MOVE, v.text]
    exact keyValues_eq_pair (by simp [CC_MOVE]) (by decide) (payload_ne_colon rfl v)
      (payload_ne_nil (by decide) v)
  | chat v =>
    change keyValues (OP_CHAT ++ OP_INI ++ v.text) = [OP_CHAT, v.text]
    exact keyValues_eq_pair (by simp [OP_CHAT]) (by decide) (payload_ne_colon rfl v)
      (payload_ne_nil (by decide) v)

end Frame

end HnefServer
