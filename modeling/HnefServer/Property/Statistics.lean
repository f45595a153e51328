import HnefServer.Property.Receiving

/-!
# The statistics of received bytes

`readClient` adds the running total of the call to `bytesRecv` for each chunk that it stores, so
what arrived before the chunk is counted again; and a chunk that it drops at the limit is not
counted.  The statistics are exact when the one makes up for the other (`bytes_counted_iff`).
-/

namespace HnefServer

namespace Server

open Reader

variable {a : Answer} {answers : List Answer} {calls : List (List Answer)} {c : Text}
  {cs taken : List Text} {r r' : Receiver} {s s' : Reader} {total : ℕ} {value : ℤ}

/-- The chunks of a call: one for each round until nothing is there to read. -/
def arrivals (answers : List Answer) : List Text :=
  (answers.takeWhile fun a => 0 < a.in_buffer).map Answer.chunk

/-- The bytes that are counted again: for each chunk that begins below the limit, what arrived
before it. -/
def recounted (total : ℕ) : List Text → ℕ
  | [] => 0
  | c :: cs => if total < limit then total + recounted (total + c.length) cs else 0

/-- The bytes that arrive when the total has met the limit. -/
def dropped (total : ℕ) : List Text → ℕ
  | [] => 0
  | c :: cs =>
    if total < limit then dropped (total + c.length) cs
    else if total = limit then c.length + dropped total cs
    -- the client was given up, and nothing more is read
    else 0

theorem arrivals_of_pos (hpos : 0 < a.in_buffer) (hrecv : a.recv = some c) :
    arrivals (a :: answers) = c :: arrivals answers := by
  simp [arrivals, hpos, Answer.chunk, hrecv]

theorem arrivals_of_le (h : a.in_buffer ≤ 0) : arrivals (a :: answers) = [] := by
  simp [arrivals, not_lt.2 h]

theorem recounted_of_ge (h : limit ≤ total) (cs : List Text) : recounted total cs = 0 := by
  cases cs with
  | nil => rfl
  | cons c cs => exact if_neg (not_lt.2 h)

theorem dropped_of_gt (h : limit < total) (cs : List Text) : dropped total cs = 0 := by
  cases cs with
  | nil => rfl
  | cons c cs => rw [dropped, if_neg (not_lt.2 h.le), if_neg h.ne']

/-- One round: the counter and what is dropped grow by the chunk and by what is counted again. -/
theorem Reader.receive_bytesRecv (htotal : s.received_total = total) (hle : total ≤ limit)
    (c : Text) (cs : List Text) : ∃ total' : ℕ, (s.receive (some c)).received_total = total' ∧
      (s.receive (some c)).taken = s.taken ++ [c] ∧
      (s.receive (some c)).bytesRecv + dropped total (c :: cs) + recounted total' cs =
        s.bytesRecv + c.length + recounted total (c :: cs) + dropped total' cs := by
  obtain hlt | rfl := Nat.lt_or_eq_of_le hle
  · have hs : s.received_total < limit := by
      rw [htotal]
      exact_mod_cast hlt
    rw [receive_of_lt hs, dropped, recounted, if_pos hlt, if_pos hlt]
    refine ⟨total + c.length, by simp [htotal], rfl, ?_⟩
    simp only [htotal]
    push_cast
    ring
  · rw [receive_of_ge htotal.ge, dropped, if_neg (lt_irrefl _), if_pos rfl]
    refine ⟨limit, htotal, rfl, ?_⟩
    simp only [recounted_of_ge le_rfl]
    push_cast
    ring

/-- The whole loop. -/
theorem Reader.loop_bytesRecv (htotal : s.received_total = total) (hle : total ≤ limit)
    (hrecv : ∀ a ∈ answers, a.Receives) (hloop : Reader.loop answers s = some (value, s')) :
    ∃ cs, s'.taken = s.taken ++ cs ∧
      s'.bytesRecv + dropped total (arrivals answers) =
        s.bytesRecv + cs.flatten.length + recounted total (arrivals answers) := by
  induction answers generalizing s total with
  | nil => cases hloop
  | cons a answers ih =>
    have hrecv' : ∀ b ∈ answers, b.Receives := fun b hb => hrecv b (List.mem_cons_of_mem a hb)
    obtain hneg | hzero | hpos := lt_trichotomy a.in_buffer 0
    · rw [Reader.loop, if_neg hneg.ne, if_neg (not_lt.2 hneg.le), if_pos (Or.inr (Or.inl hneg))]
        at hloop
      cases hloop
      exact ⟨[], by simp, by simp [arrivals_of_le hneg.le, dropped, recounted]⟩
    · rw [loop_end hzero] at hloop
      cases hloop
      exact ⟨[], by simp, by simp [arrivals_of_le hzero.le, dropped, recounted]⟩
    · obtain ⟨c, hc⟩ := Option.isSome_iff_exists.1 (hrecv a List.mem_cons_self hpos)
      obtain ⟨total', htotal', htaken, hstep⟩ :=
        receive_bytesRecv htotal hle c (arrivals answers)
      rw [arrivals_of_pos hpos hc]
      rw [loop_chunk hpos hc, htotal'] at hloop
      by_cases hflood : limit < total'
      · rw [if_pos (by exact_mod_cast hflood)] at hloop
        cases hloop
        rw [dropped_of_gt hflood, recounted_of_ge hflood.le] at hstep
        refine ⟨[c], htaken, ?_⟩
        show (s.receive (some c)).bytesRecv + _ = _
        rw [List.flatten_singleton]
        omega
      · rw [if_neg (by exact_mod_cast hflood)] at hloop
        obtain ⟨cs, htaken', hbytes⟩ := ih htotal' (not_lt.1 hflood) hrecv' hloop
        refine ⟨c :: cs, by rw [htaken', htaken, List.append_assoc, List.singleton_append], ?_⟩
        rw [List.flatten_cons, List.length_append]
        omega

/-- What the calls of `readClient` make of the counter. -/
theorem readCalls_bytesRecv (hrecv : ∀ answers ∈ calls, ∀ a ∈ answers, a.Receives)
    (h : readCalls r calls = some (r', taken)) :
    r'.bytesRecv + (calls.map fun answers => dropped 0 (arrivals answers)).sum =
      r.bytesRecv + taken.flatten.length +
        (calls.map fun answers => recounted 0 (arrivals answers)).sum := by
  induction calls generalizing r taken with
  | nil =>
    cases h
    simp
  | cons answers calls ih =>
    obtain ⟨⟨value, s⟩, hread, h⟩ := Option.bind_eq_some_iff.1 h
    obtain ⟨⟨r₁, taken₁⟩, hcalls, h⟩ := Option.bind_eq_some_iff.1 h
    cases h
    have hzero : r.start.received_total = (0 : ℕ) := rfl
    obtain ⟨cs, htaken, hcall⟩ :=
      loop_bytesRecv hzero (Nat.zero_le _) (hrecv answers List.mem_cons_self) hread
    have hrest := ih (fun b hb => hrecv b (List.mem_cons_of_mem answers hb)) hcalls
    have hstart : r.start.bytesRecv = r.bytesRecv := rfl
    rw [hstart] at hcall
    obtain rfl : s.taken = cs := htaken
    rw [List.map_cons, List.map_cons, List.sum_cons, List.sum_cons, List.flatten_append,
      List.length_append]
    push_cast at hrest ⊢
    omega

/-- **The statistics are exact iff what is counted again is as much as what is dropped**, over
all the calls. -/
theorem bytes_counted_iff (hrecv : ∀ answers ∈ calls, ∀ a ∈ answers, a.Receives)
    (h : readCalls r calls = some (r', taken)) :
    r'.bytesRecv = r.bytesRecv + taken.flatten.length ↔
      (calls.map fun answers => recounted 0 (arrivals answers)).sum =
        (calls.map fun answers => dropped 0 (arrivals answers)).sum := by
  have hbytes := readCalls_bytesRecv hrecv h
  constructor
  · intro hexact
    rw [hexact] at hbytes
    omega
  · intro hsame
    rw [hsame] at hbytes
    omega

/-- A call whose third chunk is dropped at the limit, which makes up for the first one being counted
again; and the call of a client that is cut off. -/
def floodedCalls : List (List Answer) :=
  [[arrive "\x7bch,".toList, arrive (List.replicate (limit - 4) 'a'), arrive "hi!\x7d".toList,
    nothingLeft], [arrive (List.replicate SIZE_RECV 'a')]]

theorem bytes_counted_flooded : ∃ r' taken, readCalls noReceiver floodedCalls = some (r', taken) ∧
    r'.bytesRecv = noReceiver.bytesRecv + taken.flatten.length ∧
    (r'.bytesRecv = noReceiver.bytesRecv + taken.flatten.length ↔
      (floodedCalls.map fun answers => recounted 0 (arrivals answers)).sum =
        (floodedCalls.map fun answers => dropped 0 (arrivals answers)).sum) := by
  have hrun : (readCalls noReceiver floodedCalls).isSome = true := by decide +kernel
  obtain ⟨⟨r', taken⟩, hrun⟩ := Option.isSome_iff_exists.1 hrun
  have hsame : (floodedCalls.map fun answers => recounted 0 (arrivals answers)).sum =
      (floodedCalls.map fun answers => dropped 0 (arrivals answers)).sum := by decide +kernel
  have hrecv : ∀ answers ∈ floodedCalls, ∀ a ∈ answers, a.Receives := by decide +kernel
  exact ⟨r', taken, hrun, (bytes_counted_iff hrecv hrun).2 hsame, bytes_counted_iff hrecv hrun⟩

/-- A message that arrives in two chunks. -/
def splitCall : List (List Answer) :=
  [[arrive "\x7bch,hi".toList, arrive "!\x7d".toList, nothingLeft]]

/-- The first chunk of it is counted again with the second. -/
theorem first_chunk_counted_again :
    ¬∀ (r r' : Receiver) (calls : List (List Answer)) (taken : List Text),
      (∀ answers ∈ calls, ∀ a ∈ answers, a.Receives) → readCalls r calls = some (r', taken) →
        r'.bytesRecv = r.bytesRecv + taken.flatten.length := by
  intro h
  have hrecv : ∀ answers ∈ splitCall, ∀ a ∈ answers, a.Receives := by decide
  have hrun : (readCalls noReceiver splitCall).isSome = true := by decide +kernel
  obtain ⟨⟨r', taken⟩, hrun⟩ := Option.isSome_iff_exists.1 hrun
  have hbytes := readCalls_bytesRecv hrecv hrun
  have hagain : (splitCall.map fun answers => recounted 0 (arrivals answers)).sum = 6 := by decide
  have hdropped : (splitCall.map fun answers => dropped 0 (arrivals answers)).sum = 0 := by decide
  rw [h _ _ _ _ hrecv hrun, hagain, hdropped] at hbytes
  omega

/-! ### Away from the limit -/

/-- Nothing is counted again iff there is no second chunk that begins below the limit. -/
theorem recounted_eq_zero_iff (hne : ∀ c ∈ cs, c ≠ []) :
    recounted 0 cs = 0 ↔ ∀ c cs', cs = c :: cs' → cs' = [] ∨ limit ≤ c.length := by
  have hlimit : 0 < limit := by decide
  cases cs with
  | nil => simp [recounted]
  | cons c cs =>
    have hpos := List.length_pos_of_ne_nil (hne c List.mem_cons_self)
    rw [recounted, if_pos hlimit]
    constructor
    · intro h c' cs' heq
      cases heq
      by_contra hor
      obtain ⟨hcs, hlt⟩ := not_or.1 hor
      obtain ⟨d, ds, rfl⟩ := List.exists_cons_of_ne_nil hcs
      rw [recounted, if_pos (by omega)] at h
      omega
    · intro h
      rcases h c cs rfl with rfl | hge
      · rfl
      · rw [recounted_of_ge (by omega)]

/-- **Where nothing arrives at the limit, the statistics are exact iff no call stores a second
chunk.** -/
theorem bytes_counted_below_limit (hrecv : ∀ answers ∈ calls, ∀ a ∈ answers, a.Receives)
    (hne : ∀ answers ∈ calls, ∀ c ∈ arrivals answers, c ≠ [])
    (hdropped : ∀ answers ∈ calls, dropped 0 (arrivals answers) = 0)
    (h : readCalls r calls = some (r', taken)) :
    r'.bytesRecv = r.bytesRecv + taken.flatten.length ↔
      ∀ answers ∈ calls, ∀ c cs, arrivals answers = c :: cs → cs = [] ∨ limit ≤ c.length := by
  have hbytes := readCalls_bytesRecv hrecv h
  have hzero : (calls.map fun answers => dropped 0 (arrivals answers)).sum = 0 := by
    rw [List.sum_eq_zero_iff_forall_eq_nat]
    simpa using hdropped
  rw [hzero] at hbytes
  have hsum : (calls.map fun answers => recounted 0 (arrivals answers)).sum = 0 ↔
      ∀ answers ∈ calls, ∀ c cs, arrivals answers = c :: cs → cs = [] ∨ limit ≤ c.length := by
    rw [List.sum_eq_zero_iff_forall_eq_nat, List.forall_mem_map]
    exact forall₂_congr fun answers hmem => recounted_eq_zero_iff (hne answers hmem)
  rw [← hsum]
  omega

end Server

end HnefServer
