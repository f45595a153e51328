import Mathlib.Data.List.Infix

/-!
# Messages between delimiters

A stream carries messages, each between an opening and a closing delimiter.  A reader that begins
anew at every opening delimiter reads every message that has arrived whole, and no other one,
whatever was cut off between them (`msgs_readAll_pieces`); what has arrived so far tells it the
first messages only (`msgs_readAll_prefix`).
-/

namespace HnefServer

namespace Framing

variable {α : Type*} [DecidableEq α] {opening closing : α}

/-- A message between its delimiters. -/
def enclose (opening closing : α) (msg : List α) : List α := opening :: (msg ++ [closing])

/-- What a reader has read: the message that has begun, if one has, and the messages before it. -/
structure Reader (α : Type*) where
  begun : Option (List α)
  msgs : List (List α)

namespace Reader

/-- The reader that has read nothing. -/
def fresh : Reader α := ⟨none, []⟩

/-- What comes before an opening delimiter is skipped. -/
def read (opening closing : α) (r : Reader α) (a : α) : Reader α :=
  if a = opening then { r with begun := some [] }
  else match r.begun with
    | none => r
    | some t => if a = closing then ⟨none, r.msgs ++ [t]⟩ else { r with begun := some (t ++ [a]) }

def readAll (opening closing : α) (r : Reader α) (as : List α) : Reader α :=
  as.foldl (read opening closing) r

variable {r : Reader α} {a : α} {as as' msg t piece : List α}

@[simp] theorem readAll_nil : readAll opening closing r [] = r := rfl

@[simp] theorem readAll_cons :
    readAll opening closing r (a :: as) = readAll opening closing (read opening closing r a) as :=
  rfl

theorem readAll_append : readAll opening closing r (as ++ as') =
    readAll opening closing (readAll opening closing r as) as' :=
  List.foldl_append

/-- What was read stays read. -/
theorem msgs_read_prefix : r.msgs <+: (read opening closing r a).msgs := by
  obtain ⟨begun, msgs⟩ := r
  by_cases ho : a = opening
  · rw [read, if_pos ho]
  cases begun with
  | none => rw [read, if_neg ho]
  | some t =>
    rw [read, if_neg ho]
    dsimp only
    split_ifs
    · exact List.prefix_append _ _
    · exact List.prefix_rfl

theorem msgs_prefix_readAll (as : List α) : r.msgs <+: (readAll opening closing r as).msgs := by
  induction as generalizing r with
  | nil => exact List.prefix_rfl
  | cons a as ih => exact msgs_read_prefix.trans ih

/-- **What has arrived tells the first messages.** -/
theorem msgs_readAll_prefix (h : as <+: as') :
    (readAll opening closing r as).msgs <+: (readAll opening closing r as').msgs := by
  obtain ⟨rest, rfl⟩ := h
  rw [readAll_append]
  exact msgs_prefix_readAll rest

/-- Inside a message the reader gathers what it reads. -/
theorem readAll_inside (ho : opening ∉ as) (hc : closing ∉ as) (hr : r.begun = some t) :
    readAll opening closing r as = ⟨some (t ++ as), r.msgs⟩ := by
  induction as generalizing r t with
  | nil =>
    obtain ⟨begun, msgs⟩ := r
    obtain rfl : begun = some t := hr
    simp
  | cons a as ih =>
    rw [List.mem_cons, not_or] at ho hc
    have hread : read opening closing r a = ⟨some (t ++ [a]), r.msgs⟩ := by
      rw [read, if_neg (Ne.symm ho.1), hr]
      exact if_neg (Ne.symm hc.1)
    rw [readAll_cons, hread, ih ho.2 hc.2 rfl, List.append_assoc, List.singleton_append]

variable (hne : opening ≠ closing) (ho : opening ∉ msg) (hc : closing ∉ msg)
include hne ho hc

/-- A whole message is read, whatever was cut off before it. -/
theorem readAll_enclose :
    readAll opening closing r (enclose opening closing msg) = ⟨none, r.msgs ++ [msg]⟩ := by
  have hopen : read opening closing r opening = ⟨some [], r.msgs⟩ := if_pos rfl
  rw [enclose, readAll_cons, hopen, readAll_append, readAll_inside ho hc rfl, List.nil_append,
    readAll_cons, readAll_nil, read, if_neg (Ne.symm hne)]
  exact if_pos rfl

/-- Of a message that was cut off nothing is read. -/
theorem msgs_readAll_cut (h : piece <+: enclose opening closing msg)
    (hcut : piece ≠ enclose opening closing msg) :
    (readAll opening closing r piece).msgs = r.msgs := by
  cases piece with
  | nil => rfl
  | cons a piece =>
    obtain ⟨rfl, hrest⟩ := List.cons_prefix_cons.1 h
    have hpiece : piece <+: msg := by
      rcases List.prefix_concat_iff.1 hrest with heq | hpre
      · exact absurd (by rw [heq, enclose]) hcut
      · exact hpre
    have hopen : read a closing r a = ⟨some [], r.msgs⟩ := if_pos rfl
    rw [readAll_cons, hopen, readAll_inside (fun h => ho (hpiece.subset h))
      (fun h => hc (hpiece.subset h)) rfl]

end Reader

/-- **The reader finds its way back.**  Of a stream of messages, some of them cut off, it reads
those that are whole, in their order. -/
theorem msgs_readAll_pieces (hne : opening ≠ closing) {ps : List (List α × List α)}
    (h : ∀ p ∈ ps, (opening ∉ p.1 ∧ closing ∉ p.1) ∧ p.2 <+: enclose opening closing p.1)
    (r : Reader α) :
    (r.readAll opening closing (ps.flatMap Prod.snd)).msgs =
      r.msgs ++ (ps.filter fun p => p.2 = enclose opening closing p.1).map Prod.fst := by
  induction ps generalizing r with
  | nil => simp
  | cons p ps ih =>
    rw [List.forall_mem_cons] at h
    obtain ⟨⟨⟨ho, hc⟩, hpre⟩, h⟩ := h
    rw [List.flatMap_cons, Reader.readAll_append, ih h]
    by_cases hwhole : p.2 = enclose opening closing p.1
    · rw [List.filter_cons_of_pos (by simpa using hwhole), hwhole,
        Reader.readAll_enclose hne ho hc, List.map_cons, List.append_assoc, List.singleton_append]
    · rw [List.filter_cons_of_neg (by simpa using hwhole),
        Reader.msgs_readAll_cut hne ho hc hpre hwhole]

end Framing

end HnefServer
