import HnefServer.Data.Pointwise
import HnefServer.Network.Receive

/-!
# Receiving a message in chunks

`readClient` returns the right count, but every chunk is copied to the beginning of the buffer: the
buffer holds the whole message exactly when at most one chunk has more than newline characters.
The limit is kept except when the running total meets it exactly: from there on chunks are taken
off the socket and dropped, for as long as the client sends.
-/

namespace HnefServer

namespace Server

open Reader

variable {answers : List Answer} {cs : List Text} {last : Answer} {r : Receiver}

theorem start_counted : r.start.Counted [] := ⟨by simp [Receiver.start], rfl, rfl, rfl, rfl⟩

/-! ### Chunks and the buffer -/

theorem length_foldl_overlay_le (t : Text) (us : List Text) :
    (us.foldl overlay t).length ≤ t.length + us.flatten.length := by
  induction us generalizing t with
  | nil => simp
  | cons u us ih =>
    have hrest := ih (overlay t u)
    rw [length_overlay] at hrest
    simp only [List.foldl_cons, List.flatten_cons, List.length_append]
    omega

/-- Writing texts over each other's beginnings joins them only if at most one is not empty. -/
theorem foldl_overlay_eq_iff (t : Text) (us : List Text) :
    us.foldl overlay t = t ++ us.flatten ↔
      us.countP (· ≠ []) = 0 ∨ t = [] ∧ us.countP (· ≠ []) ≤ 1 := by
  induction us generalizing t with
  | nil => simp
  | cons u us ih =>
    rw [List.foldl_cons, List.flatten_cons]
    by_cases hu : u = []
    · subst hu
      rw [overlay_nil, List.nil_append, ih t]
      simp
    rw [List.countP_cons_of_pos (by simpa using hu)]
    by_cases ht : t = []
    · subst ht
      rw [nil_overlay, List.nil_append, ih u]
      simp [hu]
    · have htpos := List.length_pos_of_ne_nil ht
      have hupos := List.length_pos_of_ne_nil hu
      have hshort := length_foldl_overlay_le (overlay t u) us
      rw [length_overlay] at hshort
      constructor
      · intro heq
        rw [heq] at hshort
        simp only [List.length_append] at hshort
        omega
      · intro hor
        obtain hzero | ⟨hnil, -⟩ := hor
        · omega
        · exact absurd hnil ht

theorem flatten_map_stripped (cs : List Text) :
    (cs.map stripped).flatten = stripped cs.flatten := by
  induction cs with
  | nil => rfl
  | cons c cs ih => rw [List.map_cons, List.flatten_cons, List.flatten_cons, stripped_append, ih]

theorem overlaid_eq_iff :
    overlaid cs = stripped cs.flatten ↔ cs.countP (stripped · ≠ []) ≤ 1 := by
  have h := foldl_overlay_eq_iff [] (cs.map stripped)
  rw [List.foldl_map, flatten_map_stripped, List.nil_append, List.countP_map] at h
  rw [overlaid, h]
  simp only [Function.comp_def, true_and]
  omega

/-- A call in which all data arrives below the limit. -/
theorem readClient_eq (r : Receiver) (harr : List.Forall₂ Delivers answers cs)
    (hlast : last.in_buffer = 0) (hle : cs.flatten.length ≤ limit) :
    readClient r (answers ++ [last]) =
      some ((cs.flatten.length : ℤ), r.start.receiveAll cs) := by
  have hstart : r.start.Counted [] := start_counted
  obtain ⟨hcount, hloop⟩ := hstart.loop harr hle [last]
  rw [readClient, hloop, loop_end hlast, hcount.received_total, List.nil_append]

theorem readClient_buffer (r : Receiver) (harr : List.Forall₂ Delivers answers cs)
    (hnul : ∀ c ∈ cs, '\x00' ∉ c) (hle : cs.flatten.length ≤ limit) :
    (r.start.receiveAll cs).buffer.chars.cString = overlaid cs := by
  have hne : ∀ c ∈ cs, c ≠ [] := by
    intro c hc
    obtain ⟨i, hi⟩ := List.mem_iff_getElem?.1 hc
    obtain ⟨a, -, ha⟩ := forall₂_exists_left harr hi
    exact ha.ne_nil
  exact (start_counted.holds hnul hne hle Buffer.zeros_holds).cString

/-- The round in which a chunk arrives whole. -/
def arrive (c : Text) : Answer := ⟨c.length, some c⟩

theorem arrive_delivers {c : Text} (hne : c ≠ []) (hlen : c.length ≤ SIZE_RECV) :
    Delivers (arrive c) c :=
  ⟨Int.natCast_pos.2 (List.length_pos_of_ne_nil hne), rfl, hne, hlen⟩

/-- The round in which nothing is left to read. -/
def nothingLeft : Answer := ⟨0, none⟩

/-- A server that has received nothing so far. -/
def noReceiver : Receiver := ⟨Buffer.zeros, 0⟩

/-- After a call that returns a positive count, the buffer holds all that has arrived, without
the newline characters. -/
def ReadsWhole (r : Receiver) (answers : List Answer) (cs : List Text) : Prop :=
  ∀ value s, readClient r answers = some (value, s) → 0 < value →
    s.buffer.chars.cString = stripped cs.flatten

/-- **A message is read whole exactly when at most one of its chunks has more than newline
characters.** The count returned is right in any case, and two calls that both read the same
message whole pass the same text on. -/
theorem message_read_whole_iff (r : Receiver) (harr : List.Forall₂ Delivers answers cs)
    (hlast : last.in_buffer = 0) (hnul : ∀ c ∈ cs, '\x00' ∉ c)
    (hle : cs.flatten.length ≤ limit) :
    (∃ s, readClient r (answers ++ [last]) = some ((cs.flatten.length : ℤ), s)) ∧
      (ReadsWhole r (answers ++ [last]) cs ↔ cs.countP (stripped · ≠ []) ≤ 1) ∧
      ∀ (r' : Receiver) (answers' : List Answer) (cs' : List Text) (last' : Answer),
        List.Forall₂ Delivers answers' cs' → last'.in_buffer = 0 → cs'.flatten = cs.flatten →
        cs.countP (stripped · ≠ []) ≤ 1 → cs'.countP (stripped · ≠ []) ≤ 1 →
        (readClient r' (answers' ++ [last'])).map reading =
          (readClient r (answers ++ [last])).map reading := by
  have hread := readClient_eq r harr hlast hle
  have hbuf := readClient_buffer r harr hnul hle
  refine ⟨⟨_, hread⟩, ?_, ?_⟩
  · rw [← overlaid_eq_iff]
    constructor
    · intro h
      by_cases hpos : 0 < cs.flatten.length
      · rw [← hbuf]
        exact h _ _ hread (by exact_mod_cast hpos)
      · have hnil : cs = [] := by
          cases harr with
          | nil => rfl
          | cons ha harr =>
            exact absurd (List.length_pos_of_ne_nil ha.ne_nil) (by simp at hpos; simp [hpos.1])
        rw [hnil]
        rfl
    · intro h value s hs hpos
      rw [hread] at hs
      cases hs
      rw [hbuf, h]
  · intro r' answers' cs' last' harr' hlast' hflat hone hone'
    have hnul' : ∀ c ∈ cs', '\x00' ∉ c := by
      intro c hc hmem
      have hmem' : '\x00' ∈ cs.flatten := hflat ▸ List.mem_flatten.2 ⟨c, hc, hmem⟩
      obtain ⟨d, hd, hmemd⟩ := List.mem_flatten.1 hmem'
      exact hnul d hd hmemd
    have hle' : cs'.flatten.length ≤ limit := hflat ▸ hle
    rw [hread, readClient_eq r' harr' hlast' hle', Option.map_some, Option.map_some]
    simp only [reading, hbuf, readClient_buffer r' harr' hnul' hle', overlaid_eq_iff.2 hone,
      overlaid_eq_iff.2 hone', hflat]

theorem message_read_whole_newline :
    (∃ s, readClient noReceiver ([arrive "\x7bch,hi!\x7d".toList, arrive "\r\n".toList] ++
        [nothingLeft]) = some ((["\x7bch,hi!\x7d".toList, "\r\n".toList].flatten.length : ℤ), s)) ∧
      (ReadsWhole noReceiver ([arrive "\x7bch,hi!\x7d".toList, arrive "\r\n".toList] ++
        [nothingLeft]) ["\x7bch,hi!\x7d".toList, "\r\n".toList] ↔
        ["\x7bch,hi!\x7d".toList, "\r\n".toList].countP (stripped · ≠ []) ≤ 1) :=
  have hlast : nothingLeft.in_buffer = 0 := rfl
  have h := message_read_whole_iff noReceiver
    (.cons (arrive_delivers (by decide) (by decide)) (.cons (arrive_delivers (by decide)
      (by decide)) .nil)) hlast (by decide) (by decide)
  ⟨h.1, h.2.1⟩

/-- A message that arrives in two chunks is not read whole: the second one is written over the
beginning of the first. -/
theorem split_message_garbled :
    ¬∀ (r : Receiver) (answers : List Answer) (cs : List Text) (last : Answer),
      List.Forall₂ Delivers answers cs → last.in_buffer = 0 → (∀ c ∈ cs, '\x00' ∉ c) →
      cs.flatten.length ≤ limit → ReadsWhole r (answers ++ [last]) cs := by
  intro h
  have harr : List.Forall₂ Delivers [arrive "\x7bch,hi".toList, arrive "!\x7d".toList]
      ["\x7bch,hi".toList, "!\x7d".toList] :=
    .cons (arrive_delivers (by decide) (by decide)) (.cons (arrive_delivers (by decide)
      (by decide)) .nil)
  have hnul : ∀ c ∈ ["\x7bch,hi".toList, "!\x7d".toList], '\x00' ∉ c := by decide
  have hlast : nothingLeft.in_buffer = 0 := rfl
  have hread := readClient_eq noReceiver harr hlast (by decide)
  have hbuf := h noReceiver _ _ nothingLeft harr hlast hnul (by decide) _ _ hread (by decide)
  rw [readClient_buffer noReceiver harr hnul (by decide)] at hbuf
  exact absurd hbuf (by decide)

/-! ### The limit -/

/-- The chunk taken in a round. -/
def Answer.chunk (a : Answer) : Text := a.recv.getD []

/-- The chunks of the first rounds. -/
def arrived (answers : ℕ → Answer) (n : ℕ) : List Text :=
  (List.range n).map fun i => (answers i).chunk

/-- The law of a call that is answered by a sequence: it ends, each chunk taken off the socket was
counted and given to `insertToBuffer`, and the result is the sum of what was taken, or -1 as soon as
this exceeds the limit. -/
def FloodLaw (r : Receiver) (answers : ℕ → Answer) : Prop :=
  ∃ n value s, readClient r ((List.range n).map answers) = some (value, s) ∧ s.stored = s.taken ∧
    s.buffer = Buffer.insertAll s.stored ∧
    (value = s.taken.flatten.length ∧ s.taken.flatten.length ≤ limit ∨
      value = -1 ∧ limit < s.taken.flatten.length ∧ s.taken.dropLast.flatten.length ≤ limit)

/-- The running total meets the limit, and something is still there to read. -/
def LandsOnLimit (answers : ℕ → Answer) : Prop :=
  ∃ n, (∀ i ≤ n, (answers i).in_buffer ≠ 0) ∧ (arrived answers n).flatten.length = limit

variable {seq : ℕ → Answer} {n : ℕ}

theorem arrived_succ (seq : ℕ → Answer) (n : ℕ) :
    arrived seq (n + 1) = arrived seq n ++ [(seq n).chunk] := by
  simp [arrived, List.range_succ]

theorem delivers_chunk {a : Answer} (h : a.in_buffer = 0 ∨ ∃ c, Delivers a c)
    (hne : a.in_buffer ≠ 0) : Delivers a a.chunk := by
  obtain h | ⟨c, hc⟩ := h
  · exact absurd h hne
  · have heq : a.chunk = c := by rw [Answer.chunk, hc.recv, Option.getD_some]
    rw [heq]
    exact hc

theorem arrived_delivers (hseq : ∀ i, (seq i).in_buffer = 0 ∨ ∃ c, Delivers (seq i) c)
    (hlt : ∀ i < n, (seq i).in_buffer ≠ 0) :
    List.Forall₂ Delivers ((List.range n).map seq) (arrived seq n) := by
  rw [arrived, List.forall₂_map_left_iff, List.forall₂_map_right_iff, List.forall₂_same]
  intro i hi
  exact delivers_chunk (hseq i) (hlt i (List.mem_range.1 hi))

/-- The sum over more rounds is greater, as long as chunks arrive. -/
theorem arrived_mono (seq : ℕ → Answer) {m n : ℕ} (hmn : m ≤ n) :
    (arrived seq m).flatten.length ≤ (arrived seq n).flatten.length := by
  induction n, hmn using Nat.le_induction with
  | base => exact le_rfl
  | succ n _ ih =>
    rw [arrived_succ, List.flatten_append, List.length_append]
    omega

theorem le_arrived (hseq : ∀ i, (seq i).in_buffer = 0 ∨ ∃ c, Delivers (seq i) c)
    (hlt : ∀ i < n, (seq i).in_buffer ≠ 0) : n ≤ (arrived seq n).flatten.length := by
  induction n with
  | zero => exact Nat.zero_le _
  | succ n ih =>
    have hn := delivers_chunk (hseq n) (hlt n (Nat.lt_succ_self n))
    have hpos := List.length_pos_of_ne_nil hn.ne_nil
    have hle := ih fun i hi => hlt i (Nat.lt_succ_of_lt hi)
    rw [arrived_succ, List.flatten_append, List.length_append, List.flatten_singleton]
    omega

/-- The first rounds of a call, up to the limit. -/
theorem readClient_below (r : Receiver) (rest : List Answer)
    (hseq : ∀ i, (seq i).in_buffer = 0 ∨ ∃ c, Delivers (seq i) c)
    (hlt : ∀ i < n, (seq i).in_buffer ≠ 0) (hle : (arrived seq n).flatten.length ≤ limit) :
    (r.start.receiveAll (arrived seq n)).Counted (arrived seq n) ∧
      readClient r ((List.range n).map seq ++ rest) =
        Reader.loop rest (r.start.receiveAll (arrived seq n)) := by
  have hstart : r.start.Counted [] := start_counted
  exact hstart.loop (arrived_delivers hseq hlt) hle rest

theorem map_range_split (seq : ℕ → Answer) (n k : ℕ) :
    (List.range (n + k + 1)).map seq =
      (List.range n).map seq ++ seq n :: (List.range k).map fun i => seq (n + (i + 1)) := by
  rw [Nat.add_assoc, List.range_add, List.map_append, List.range_succ_eq_map, List.map_cons,
    List.map_cons, List.map_map, List.map_map]
  rfl

/-- The chunk after the one that meets the limit is taken off the socket and dropped. -/
theorem readClient_lands (r : Receiver) (rest : List Answer)
    (hseq : ∀ i, (seq i).in_buffer = 0 ∨ ∃ c, Delivers (seq i) c)
    (hne : ∀ i ≤ n, (seq i).in_buffer ≠ 0) (htotal : (arrived seq n).flatten.length = limit) :
    ∃ s : Reader, s.Stuck ∧
      readClient r ((List.range n).map seq ++ seq n :: rest) = Reader.loop rest s := by
  obtain ⟨hcount, hloop⟩ := readClient_below r (seq n :: rest) hseq
    (fun i hi => hne i hi.le) htotal.le
  have hlimit : (r.start.receiveAll (arrived seq n)).received_total = limit := by
    rw [hcount.received_total, htotal]
  have hstuck := receive_stuck (c := (seq n).chunk) hlimit (by rw [hcount.taken, hcount.stored])
  refine ⟨_, hstuck, ?_⟩
  rw [hloop, loop_deliver (delivers_chunk (hseq n) (hne n le_rfl)), hstuck.received_total,
    if_neg (lt_irrefl _)]

/-- A call does not end before the limit is met and nothing is left to read. -/
theorem readClient_none (r : Receiver)
    (hseq : ∀ i, (seq i).in_buffer = 0 ∨ ∃ c, Delivers (seq i) c)
    (hne : ∀ i < n, (seq i).in_buffer ≠ 0) (hle : (arrived seq n).flatten.length ≤ limit) :
    readClient r ((List.range n).map seq) = none := by
  have hloop := (readClient_below r [] hseq hne hle).2
  rw [List.append_nil] at hloop
  exact hloop

/-- From where the running total meets the limit on, a call that ends has dropped a chunk. -/
theorem stuck_of_lands {value : ℤ} {s : Reader}
    (hseq : ∀ i, (seq i).in_buffer = 0 ∨ ∃ c, Delivers (seq i) c)
    (hne : ∀ i ≤ n, (seq i).in_buffer ≠ 0) (htotal : (arrived seq n).flatten.length = limit)
    {m : ℕ} (hread : readClient r ((List.range m).map seq) = some (value, s)) : s.Stuck := by
  obtain hm | hm := Nat.lt_or_ge n m
  · obtain ⟨k, rfl⟩ := Nat.exists_eq_add_of_lt hm
    obtain ⟨s₁, hstuck, hloop⟩ := readClient_lands r
      ((List.range k).map fun i => seq (n + (i + 1))) hseq hne htotal
    rw [map_range_split, hloop] at hread
    refine hstuck.loop ?_ hread
    intro a ha
    obtain ⟨i, -, rfl⟩ := List.mem_map.1 ha
    exact hseq _
  · rw [readClient_none r hseq (fun i hi => hne i (hi.le.trans hm))
      ((arrived_mono seq hm).trans htotal.le)] at hread
    cases hread

/-- A call that meets the limit does not end while the client keeps sending. -/
theorem loops_of_lands (r : Receiver)
    (hseq : ∀ i, (seq i).in_buffer = 0 ∨ ∃ c, Delivers (seq i) c)
    (hne : ∀ i, (seq i).in_buffer ≠ 0) (htotal : (arrived seq n).flatten.length = limit)
    (m : ℕ) : readClient r ((List.range m).map seq) = none := by
  obtain hm | hm := Nat.lt_or_ge n m
  · obtain ⟨k, rfl⟩ := Nat.exists_eq_add_of_lt hm
    obtain ⟨s₁, hstuck, hloop⟩ := readClient_lands r
      ((List.range k).map fun i => seq (n + (i + 1))) hseq (fun i _ => hne i) htotal
    rw [map_range_split, hloop]
    refine hstuck.loop_none ?_
    intro a ha
    obtain ⟨i, -, rfl⟩ := List.mem_map.1 ha
    exact ⟨_, delivers_chunk (hseq _) (hne _)⟩
  · exact readClient_none r hseq (fun i _ => hne i) ((arrived_mono seq hm).trans htotal.le)

/-- The last round of a call that keeps to the limit: nothing is there to read, or the chunk
exceeds the limit. -/
theorem exists_last_round (hseq : ∀ i, (seq i).in_buffer = 0 ∨ ∃ c, Delivers (seq i) c) :
    ∃ n, ((seq n).in_buffer = 0 ∨ limit < (arrived seq (n + 1)).flatten.length) ∧
      (∀ i < n, (seq i).in_buffer ≠ 0) ∧ (arrived seq n).flatten.length ≤ limit := by
  have hex : ∃ n, (seq n).in_buffer = 0 ∨ limit < (arrived seq (n + 1)).flatten.length := by
    by_contra hnone
    simp only [not_exists, not_or, not_lt] at hnone
    have hbig := le_arrived (n := limit + 1) hseq fun i _ => (hnone i).1
    have hsmall := (hnone limit).2
    omega
  have hbefore : ∀ i < Nat.find hex, (seq i).in_buffer ≠ 0 ∧
      (arrived seq (i + 1)).flatten.length ≤ limit := by
    intro i hi
    simpa using Nat.find_min hex hi
  refine ⟨Nat.find hex, Nat.find_spec hex, fun i hi => (hbefore i hi).1, ?_⟩
  cases hfind : Nat.find hex with
  | zero => exact Nat.zero_le _
  | succ n => exact (hbefore n (by omega)).2

/-- **The flood limit is kept exactly when no running total meets it while more is to come.** -/
theorem flood_law_iff (r : Receiver)
    (hseq : ∀ i, (seq i).in_buffer = 0 ∨ ∃ c, Delivers (seq i) c) :
    FloodLaw r seq ↔ ¬LandsOnLimit seq := by
  constructor
  · intro ⟨m, value, s, hread, heq, _⟩ ⟨n, hne, htotal⟩
    have hbehind := (stuck_of_lands hseq hne htotal hread).behind
    rw [heq] at hbehind
    exact lt_irrefl _ hbehind
  · intro hland
    obtain ⟨n, hn, hlt, hle⟩ := exists_last_round hseq
    obtain ⟨hcount, hloop⟩ := readClient_below r [seq n] hseq hlt hle
    have hrun : readClient r ((List.range (n + 1)).map seq) =
        Reader.loop [seq n] (r.start.receiveAll (arrived seq n)) := by
      rw [List.range_succ, List.map_append]
      exact hloop
    by_cases hend : (seq n).in_buffer = 0
    · rw [loop_end hend, hcount.received_total] at hrun
      refine ⟨n + 1, _, _, hrun, ?_, ?_, Or.inl ⟨?_, ?_⟩⟩
      · rw [hcount.stored, hcount.taken]
      · rw [hcount.stored, hcount.buffer]
      · rw [hcount.taken]
      · rw [hcount.taken]
        exact hle
    · have hgt := hn.resolve_left hend
      have hne : (arrived seq n).flatten.length ≠ limit := by
        intro htotal
        refine hland ⟨n, fun i hi => ?_, htotal⟩
        obtain hi | rfl := Nat.lt_or_eq_of_le hi
        · exact hlt i hi
        · exact hend
      have hlimit := lt_of_le_of_ne hle hne
      rw [arrived_succ] at hgt
      have hcount' := hcount.receive (c := (seq n).chunk) hlimit
      rw [hcount.flood (delivers_chunk (hseq n) hend) hlimit hgt] at hrun
      refine ⟨n + 1, _, _, hrun, ?_, ?_, Or.inr ⟨rfl, ?_, ?_⟩⟩
      · show (Reader.receive _ _).stored = (Reader.receive _ _).taken
        rw [hcount'.stored, hcount'.taken]
      · show (Reader.receive _ _).buffer = Buffer.insertAll (Reader.receive _ _).stored
        rw [hcount'.stored, hcount'.buffer]
      · show limit < (Reader.receive _ _).taken.flatten.length
        rw [hcount'.taken]
        exact hgt
      · show (Reader.receive _ _).taken.dropLast.flatten.length ≤ limit
        rw [hcount'.taken, List.dropLast_concat]
        exact hle

/-- The lengths of three chunks: two come near the limit, the third one is over it. -/
def bursts (i : ℕ) : ℕ := if i < 1 then 900 else if i < 2 then 16 else 101

/-- A client that sends as much in one go, and nothing after it. -/
def bursting (i : ℕ) : Answer :=
  if i < 3 then arrive (List.replicate (bursts i) 'a') else nothingLeft

theorem flood_law_bursting : (FloodLaw noReceiver bursting ↔ ¬LandsOnLimit bursting) ∧
    ¬LandsOnLimit bursting := by
  refine ⟨flood_law_iff noReceiver fun i => ?_, ?_⟩
  · by_cases hi : i < 3
    · have hsize : 0 < bursts i ∧ bursts i ≤ SIZE_RECV := by
        unfold bursts
        split_ifs <;> decide
      refine Or.inr ⟨List.replicate (bursts i) 'a', ?_⟩
      rw [bursting, if_pos hi]
      refine arrive_delivers ?_ ?_
      · rw [Ne, List.replicate_eq_nil_iff]
        omega
      · rw [List.length_replicate]
        exact hsize.2
    · left
      rw [bursting, if_neg hi]
      rfl
  · rintro ⟨n, hne, htotal⟩
    have hn : n = 0 ∨ n = 1 ∨ n = 2 := by
      by_contra hge
      exact hne 3 (by omega) rfl
    -- the running totals are 0, 900 and 916
    rcases hn with rfl | rfl | rfl <;> exact absurd htotal (by decide +kernel)

/-- A client that sends as much as the limit, and then one character after the other. -/
def flooding (i : ℕ) : Answer := arrive (List.replicate (if i = 0 then limit else 1) 'a')

/-- The server never comes back from reading such a client. -/
theorem flood_never_stopped : ∃ (r : Receiver) (seq : ℕ → Answer),
    (∀ i, (seq i).in_buffer = 0 ∨ ∃ c, Delivers (seq i) c) ∧
      (∀ m, readClient r ((List.range m).map seq) = none) ∧ ¬FloodLaw r seq := by
  have hdel : ∀ i, ∃ c, Delivers (flooding i) c := by
    intro i
    have hsize : 0 < (if i = 0 then limit else 1) ∧ (if i = 0 then limit else 1) ≤ SIZE_RECV := by
      split_ifs <;> decide
    refine ⟨_, arrive_delivers ?_ ?_⟩
    · intro hnil
      rw [List.replicate_eq_nil_iff] at hnil
      omega
    · rw [List.length_replicate]
      exact hsize.2
  have hseq : ∀ i, (flooding i).in_buffer = 0 ∨ ∃ c, Delivers (flooding i) c :=
    fun i => Or.inr (hdel i)
  have hne : ∀ i, (flooding i).in_buffer ≠ 0 := by
    intro i
    obtain ⟨c, hc⟩ := hdel i
    exact hc.in_buffer.ne'
  have htotal : (arrived flooding 1).flatten.length = limit := by
    rw [arrived, List.range_one, List.map_singleton, List.flatten_singleton]
    exact List.length_replicate
  have hnone := loops_of_lands noReceiver hseq hne htotal
  refine ⟨noReceiver, flooding, hseq, hnone, ?_⟩
  rintro ⟨m, value, s, hread, -⟩
  rw [hnone m] at hread
  cases hread

end Server

end HnefServer
