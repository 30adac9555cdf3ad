import Mathlib.Data.List.Induction

/-!
# Framing a stream of writes by a delimiter

A log collects writes until one brings the delimiter `sep`; it then commits all it has collected as
one command. Two laws of a run of writes:

* nothing is lost, repeated or reordered (`bytes_writeAll`), because one write appends its elements
  to `Log.bytes` and does nothing else (`bytes_write`);
* the commands are whole writes grouped together, each group up to the first write that holds the
  delimiter (`Grouped.writeAll`).

A write commits as a whole, elements after the delimiter included. So how a stream was cut into
writes shows in the commands, but only through the places where the writes that hold the delimiter
end (`writeAll_eq_iff`). If no write has anything behind a delimiter, these places are the
delimiters themselves: such writes act as their elements written one at a time
(`writeAll_eq_singletons`), and only the stream counts.
-/

namespace Framing

variable {α : Type*} [DecidableEq α]

/-- What has been committed, and what is collected for the next command. -/
@[ext]
structure Log (α : Type*) where
  /-- The commands, oldest first. -/
  committed : List (List α)
  /-- The elements of the next command so far. -/
  pending : List α
deriving DecidableEq, Repr

namespace Log

/-- Nothing written. -/
def empty : Log α := ⟨[], []⟩

/-- One write. -/
def write (sep : α) (s : Log α) (b : List α) : Log α :=
  if sep ∈ s.pending ++ b then ⟨s.committed ++ [s.pending ++ b], []⟩
  else ⟨s.committed, s.pending ++ b⟩

/-- A run of writes. -/
def writeAll (sep : α) (s : Log α) (bs : List (List α)) : Log α :=
  bs.foldl (write sep) s

/-- Everything written, in order. -/
def bytes (s : Log α) : List α :=
  s.committed.flatten ++ s.pending

variable {sep : α} {s : Log α} {b : List α} {bs : List (List α)}

theorem write_of_mem (h : sep ∈ s.pending ++ b) :
    s.write sep b = ⟨s.committed ++ [s.pending ++ b], []⟩ :=
  if_pos h

theorem write_of_not_mem (h : sep ∉ s.pending ++ b) :
    s.write sep b = ⟨s.committed, s.pending ++ b⟩ :=
  if_neg h

@[simp]
theorem writeAll_nil (sep : α) (s : Log α) : s.writeAll sep [] = s :=
  rfl

@[simp]
theorem writeAll_cons (sep : α) (s : Log α) (b : List α) (bs : List (List α)) :
    s.writeAll sep (b :: bs) = (s.write sep b).writeAll sep bs :=
  rfl

theorem writeAll_append (sep : α) (s : Log α) (bs cs : List (List α)) :
    s.writeAll sep (bs ++ cs) = (s.writeAll sep bs).writeAll sep cs :=
  List.foldl_append

theorem writeAll_concat (sep : α) (s : Log α) (bs : List (List α)) (b : List α) :
    s.writeAll sep (bs ++ [b]) = (s.writeAll sep bs).write sep b :=
  writeAll_append sep s bs [b]

/-! ### Conservation -/

theorem bytes_write (sep : α) (s : Log α) (b : List α) :
    (s.write sep b).bytes = s.bytes ++ b := by
  rw [write]
  split <;> simp [bytes]

/-- **Nothing is lost, repeated or reordered.** -/
theorem bytes_writeAll (sep : α) (s : Log α) (bs : List (List α)) :
    (s.writeAll sep bs).bytes = s.bytes ++ bs.flatten := by
  induction bs generalizing s with
  | nil => rw [writeAll_nil, List.flatten_nil, List.append_nil]
  | cons b bs ih => rw [writeAll_cons, ih, bytes_write, List.flatten_cons, List.append_assoc]

/-- After a write the pending elements have no delimiter. -/
theorem not_mem_pending_write (sep : α) (s : Log α) (b : List α) :
    sep ∉ (s.write sep b).pending := by
  rw [write]
  split
  · exact List.not_mem_nil
  · assumption

theorem not_mem_pending_writeAll (hs : sep ∉ s.pending) (bs : List (List α)) :
    sep ∉ (s.writeAll sep bs).pending := by
  induction bs generalizing s with
  | nil => exact hs
  | cons b bs ih => exact ih (not_mem_pending_write sep s b)

/-! ### Commands are groups of whole writes -/

/-- The writes `bs` fall into the groups of the log's commands and a rest that is pending: each
group ends with its only write that holds the delimiter. -/
structure Grouped (sep : α) (s : Log α) (bs : List (List α)) (groups : List (List (List α)))
    (rest : List (List α)) : Prop where
  /-- The groups and the rest are the writes, in order. -/
  writes_eq : bs = groups.flatten ++ rest
  /-- A command is the concatenation of its group. -/
  committed_eq : s.committed = groups.map List.flatten
  /-- What is pending is the concatenation of the rest. -/
  pending_eq : s.pending = rest.flatten
  /-- Only the last write of a group holds the delimiter. -/
  group : ∀ g ∈ groups, ∃ init last, g = init ++ [last] ∧ sep ∈ last ∧ sep ∉ init.flatten
  /-- No write of the rest holds it. -/
  not_mem_rest : sep ∉ rest.flatten

theorem Grouped.write {groups : List (List (List α))} {rest : List (List α)}
    (h : Grouped sep s bs groups rest) (b : List α) :
    ∃ groups' rest', Grouped sep (s.write sep b) (bs ++ [b]) groups' rest' := by
  have hpending := h.pending_eq
  have hmem : sep ∈ s.pending ++ b ↔ sep ∈ b := by
    rw [List.mem_append, hpending]
    exact or_iff_right h.not_mem_rest
  rcases Decidable.em (sep ∈ b) with hb | hb
  · rw [write_of_mem (hmem.2 hb)]
    refine ⟨groups ++ [rest ++ [b]], [], ?_, ?_, rfl, ?_, List.not_mem_nil⟩
    · simp [h.writes_eq]
    · simp [h.committed_eq, hpending]
    · intro g hg
      rcases List.mem_append.1 hg with hg | hg
      · exact h.group g hg
      · exact ⟨rest, b, List.mem_singleton.1 hg, hb, h.not_mem_rest⟩
  · rw [write_of_not_mem (fun hm ↦ hb (hmem.1 hm))]
    refine ⟨groups, rest ++ [b], ?_, h.committed_eq, ?_, h.group, ?_⟩
    · rw [h.writes_eq, List.append_assoc]
    · simp [hpending]
    · simpa using ⟨by simpa using h.not_mem_rest, hb⟩

/-- **Commands are groups of whole writes**, each up to the first write with the delimiter. -/
theorem exists_grouped_writeAll (sep : α) (bs : List (List α)) :
    ∃ groups rest, Grouped sep (empty.writeAll sep bs) bs groups rest := by
  induction bs using List.reverseRecOn with
  | nil =>
    exact ⟨[], [], rfl, rfl, rfl, fun g hg ↦ absurd hg List.not_mem_nil, List.not_mem_nil⟩
  | append_singleton bs b ih =>
    obtain ⟨groups, rest, h⟩ := ih
    rw [writeAll_concat]
    exact h.write b

/-! ### When the cut does not show -/

/-- A write with nothing behind a delimiter acts as its elements written one at a time. -/
theorem write_eq_singletons (hs : sep ∉ s.pending) (hb : sep ∉ b.dropLast) :
    s.write sep b = s.writeAll sep (b.map ([·])) := by
  induction b generalizing s with
  | nil =>
    rw [write_of_not_mem (by simpa using hs), List.append_nil]
    rfl
  | cons x b ih =>
    rw [List.map_cons, writeAll_cons]
    rcases b with - | ⟨y, b⟩
    · rfl
    · rw [List.dropLast_cons_cons, List.mem_cons, not_or] at hb
      have hx : sep ∉ s.pending ++ [x] := by
        rw [List.mem_append, not_or, List.mem_singleton]
        exact ⟨hs, hb.1⟩
      rw [← ih (not_mem_pending_write sep s [x]) hb.2, write_of_not_mem hx]
      simp only [write, List.append_assoc, List.singleton_append]

/-- **Only the stream counts** when no write has anything behind a delimiter. -/
theorem writeAll_eq_singletons (hs : sep ∉ s.pending) (hbs : ∀ b ∈ bs, sep ∉ b.dropLast) :
    s.writeAll sep bs = s.writeAll sep (bs.flatten.map ([·])) := by
  induction bs generalizing s with
  | nil => rfl
  | cons b bs ih =>
    rw [writeAll_cons, List.flatten_cons, List.map_append, writeAll_append,
      ← write_eq_singletons hs (hbs b (by simp))]
    exact ih (not_mem_pending_write sep s b) fun c hc ↦ hbs c (List.mem_cons_of_mem _ hc)

/-- Two cuts of one stream, neither with anything behind a delimiter in a write, give the same
log. -/
theorem writeAll_eq_of_flatten_eq {cs : List (List α)} (hs : sep ∉ s.pending)
    (hbs : ∀ b ∈ bs, sep ∉ b.dropLast) (hcs : ∀ c ∈ cs, sep ∉ c.dropLast)
    (h : bs.flatten = cs.flatten) : s.writeAll sep bs = s.writeAll sep cs := by
  rw [writeAll_eq_singletons hs hbs, writeAll_eq_singletons hs hcs, h]

/-! ### What of the cut shows -/

/-- How far the writes that hold the delimiter end from one another: the distance of each such end
from the one before, the first from `n` before the stream. -/
def gaps (sep : α) : ℕ → List (List α) → List ℕ
  | _, [] => []
  | n, b :: bs =>
    if sep ∈ b then (n + b.length) :: gaps sep 0 bs else gaps sep (n + b.length) bs

/-- Starting further back only makes the first distance longer. -/
theorem gaps_add (sep : α) (n m : ℕ) (bs : List (List α)) :
    gaps sep (n + m) bs = (gaps sep m bs).modifyHead (n + ·) := by
  induction bs generalizing m with
  | nil => rfl
  | cons b bs ih =>
    rw [gaps, gaps]
    split
    · rw [List.modifyHead_cons, Nat.add_assoc]
    · rw [Nat.add_assoc, ih]

theorem gaps_eq_gaps_iff (sep : α) (n : ℕ) (bs cs : List (List α)) :
    gaps sep n bs = gaps sep n cs ↔ gaps sep 0 bs = gaps sep 0 cs := by
  have hinjective : Function.Injective (List.modifyHead (n + ·)) := by
    rintro (- | ⟨x, xs⟩) (- | ⟨y, ys⟩) hxy <;> simp_all
  rw [← Nat.add_zero n, gaps_add, gaps_add, hinjective.eq_iff]

/-- The commands are as long as the gaps. -/
theorem map_length_committed_writeAll (hs : sep ∉ s.pending) (bs : List (List α)) :
    (s.writeAll sep bs).committed.map List.length =
      s.committed.map List.length ++ gaps sep s.pending.length bs := by
  induction bs generalizing s with
  | nil => rw [writeAll_nil, gaps, List.append_nil]
  | cons b bs ih =>
    have hmem : sep ∈ s.pending ++ b ↔ sep ∈ b := by
      rw [List.mem_append]
      exact or_iff_right hs
    rw [writeAll_cons, ih (not_mem_pending_write sep s b), gaps]
    rcases Decidable.em (sep ∈ b) with hb | hb
    · rw [if_pos hb, write_of_mem (hmem.2 hb), List.map_append, List.append_assoc,
        List.map_singleton,
        List.length_append]
      rfl
    · rw [if_neg hb, write_of_not_mem fun hm ↦ hb (hmem.1 hm), List.length_append]

omit [DecidableEq α] in
/-- Two logs that hold the same elements in commands of the same lengths are equal. -/
theorem eq_of_bytes_eq {s t : Log α} (hbytes : s.bytes = t.bytes)
    (hlen : s.committed.map List.length = t.committed.map List.length) : s = t := by
  have hsum : s.committed.flatten.length = t.committed.flatten.length := by
    rw [List.length_flatten, List.length_flatten, hlen]
  obtain ⟨hcommitted, hpending⟩ := List.append_inj hbytes hsum
  obtain ⟨committed, pending⟩ := s
  obtain ⟨committed', pending'⟩ := t
  obtain rfl : committed = committed' := List.eq_iff_flatten_eq.2 ⟨hcommitted, hlen⟩
  obtain rfl : pending = pending' := hpending
  rfl

/-- **What of the cut shows**: the ends of the writes that hold the delimiter, and nothing else. -/
theorem writeAll_eq_iff {cs : List (List α)} (hs : sep ∉ s.pending)
    (h : bs.flatten = cs.flatten) :
    s.writeAll sep bs = s.writeAll sep cs ↔ gaps sep 0 bs = gaps sep 0 cs := by
  have hbs := map_length_committed_writeAll hs bs
  have hcs := map_length_committed_writeAll hs cs
  rw [← gaps_eq_gaps_iff sep s.pending.length]
  constructor
  · intro heq
    rw [heq, hcs] at hbs
    exact (List.append_cancel_left hbs).symm
  · intro hgaps
    refine eq_of_bytes_eq ?_ (by rw [hbs, hcs, hgaps])
    rw [bytes_writeAll, bytes_writeAll, h]

/-- In a cut with nothing behind a delimiter in a write, the gaps are those of the stream. -/
theorem gaps_eq_of_flatten_eq {cs : List (List α)} (hbs : ∀ b ∈ bs, sep ∉ b.dropLast)
    (hcs : ∀ c ∈ cs, sep ∉ c.dropLast) (h : bs.flatten = cs.flatten) :
    gaps sep 0 bs = gaps sep 0 cs := by
  have hempty : sep ∉ (empty : Log α).pending := List.not_mem_nil
  exact (writeAll_eq_iff hempty h).1 (writeAll_eq_of_flatten_eq hempty hbs hcs h)

end Log

end Framing
