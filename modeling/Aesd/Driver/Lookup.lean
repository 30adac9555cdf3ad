import Mathlib.Algebra.BigOperators.Group.List.Basic
import Aesd.Foundation.Positions
import Aesd.Driver.RingFifo

/-!
# Looking up positions and counting entries

On a buffer that lays out a queue, the lookup of `aesd-circular-buffer.c` is `Positions.locate` on
the sizes of the entries (`Holds.findEntry_eq`), as long as these sizes together stay below
`2 ^ 64`. Even where their sum wraps, an offset it returns lies inside the entry it returns
(`Holds.findEntry_bound`), because the test of the loop is on the wrapped sum and the running sum
never exceeds the position.

The two scans over all ten slots agree with the walk (`Holds.aesdCircularBufferSize_eq`,
`Holds.aesdCircularBufferTotalSize_eq`): the slots they count are exactly those on it, in another
order.
-/

namespace Aesd

open Positions AesdCircularBuffer

/-- The sizes of the entries. -/
def sizes (q : List AesdBufferEntry) : List ℕ :=
  q.map AesdBufferEntry.size

namespace Holds

variable {buffer : AesdCircularBuffer} {q : List AesdBufferEntry}

theorem slot_eq (h : Holds buffer q) {i : ℕ} {e : AesdBufferEntry} (hi : q[i]? = some e) :
    buffer.slot (buffer.walkIndex i) = e := by
  obtain ⟨hlt, -⟩ := List.getElem?_eq_some_iff.1 hi
  rw [h.getElem?_eq i hlt] at hi
  exact Option.some.inj hi

theorem walkIndex_succ (buffer : AesdCircularBuffer) (i : ℕ) :
    (buffer.walkIndex i + 1) % maxWriteOperationsSupported = buffer.walkIndex (i + 1) := by
  simp only [walkIndex, maxWriteOperationsSupported]
  omega

/-! ### The lookup -/

/-- The loop from entry `i` on, once the entries before it were passed over. -/
theorem findLoop_eq (h : Holds buffer q) (p rtn : ℕ) (hsum : (sizes q).sum < 2 ^ 64) :
    ∀ steps i, i + steps = q.length → ((sizes q).take i).sum ≤ p →
      findLoop buffer p rtn steps (buffer.walkIndex i) ((sizes q).take i).sum =
        match locate ((sizes q).drop i) (p - ((sizes q).take i).sum) with
        | none => (none, rtn)
        | some (j, o) => (some (buffer.walkIndex (i + j)), o)
  | 0, i, hi, _ => by
    have hlen : (sizes q).length = q.length := List.length_map _
    rw [List.drop_eq_nil_of_le (by omega)]
    rfl
  | steps + 1, i, hi, hle => by
    have hlt : i < q.length := by omega
    have hget : q[i]? = some q[i] := List.getElem?_eq_getElem hlt
    have hsize : (sizes q)[i]? = some q[i].size := by rw [sizes, List.getElem?_map, hget]; rfl
    have htake : ((sizes q).take (i + 1)).sum = ((sizes q).take i).sum + q[i].size := by
      rw [List.take_add_one, hsize, List.sum_append]
      rfl
    have hdrop : (sizes q).drop i = q[i].size :: (sizes q).drop (i + 1) := by
      obtain ⟨hi', heq⟩ := List.getElem?_eq_some_iff.1 hsize
      rw [List.drop_eq_getElem_cons hi', heq]
    have hbound : ((sizes q).take (i + 1)).sum < 2 ^ 64 := by
      have hall := congrArg List.sum (List.take_append_drop (i + 1) (sizes q))
      rw [List.sum_append] at hall
      omega
    rw [findLoop, h.slot_eq hget, hdrop, ← htake, sizeT_of_lt hbound]
    rcases Nat.lt_or_ge p ((sizes q).take (i + 1)).sum with hfound | hpast
    · rw [if_pos hfound, locate_cons_of_lt (by omega)]
      have hp : sizeT (p + 2 ^ 64 - ((sizes q).take i).sum) = p - ((sizes q).take i).sum := by
        rw [sizeT]
        omega
      rw [hp]
      rfl
    · rw [if_neg (by omega), walkIndex_succ, locate_cons_of_le (by omega),
        findLoop_eq h p rtn hsum steps (i + 1) (by omega) hpast]
      have hsub : p - ((sizes q).take i).sum - q[i].size = p - ((sizes q).take (i + 1)).sum := by
        omega
      rw [hsub]
      rcases locate ((sizes q).drop (i + 1)) (p - ((sizes q).take (i + 1)).sum) with - | ⟨j, o⟩
      · rfl
      · show (some (buffer.walkIndex (i + 1 + j)), o) = (some (buffer.walkIndex (i + (j + 1))), o)
        rw [show i + 1 + j = i + (j + 1) by omega]

/-- **The lookup locates the position in the sizes of the entries.** -/
theorem findEntry_eq (h : Holds buffer q) (hsum : (sizes q).sum < 2 ^ 64) (p rtn : ℕ) :
    aesdCircularBufferFindEntryOffsetForFpos buffer p rtn =
      match locate (sizes q) p with
      | none => (none, rtn)
      | some (i, o) => (some (buffer.walkIndex i), o) := by
  have hzero : buffer.walkIndex 0 = buffer.outOffs := Nat.mod_eq_of_lt h.outOffs_lt
  have hloop := h.findLoop_eq p rtn hsum q.length 0 (Nat.zero_add _)
    (show ((sizes q).take 0).sum ≤ p from Nat.zero_le p)
  rw [hzero] at hloop
  rw [aesdCircularBufferFindEntryOffsetForFpos, h.totalEntries_eq]
  simpa using hloop

/-- The loop, whatever the sizes add up to: what it returns lies inside an entry. -/
theorem findLoop_bound (h : Holds buffer q) {p rtn : ℕ} (hsizes : ∀ e ∈ q, e.size < 2 ^ 64) :
    ∀ steps i c, i + steps = q.length → c ≤ p → c < 2 ^ 64 → ∀ slot o,
      findLoop buffer p rtn steps (buffer.walkIndex i) c = (some slot, o) →
        ∃ e ∈ q, buffer.slot slot = e ∧ o < e.size
  | 0, i, c, _, _, _, slot, o, hfind => absurd hfind (by simp [findLoop])
  | steps + 1, i, c, hi, hle, hc, slot, o, hfind => by
    have hlt : i < q.length := by omega
    have hget : q[i]? = some q[i] := List.getElem?_eq_getElem hlt
    have hsize := hsizes q[i] (List.getElem_mem hlt)
    rw [findLoop, h.slot_eq hget] at hfind
    rcases Nat.lt_or_ge p (sizeT (c + q[i].size)) with hfound | hpast
    · rw [if_pos hfound, Prod.mk.injEq, Option.some.injEq] at hfind
      obtain ⟨rfl, rfl⟩ := hfind
      refine ⟨q[i], List.getElem_mem hlt, h.slot_eq hget, ?_⟩
      rw [sizeT] at hfound ⊢
      omega
    · rw [if_neg (by omega), walkIndex_succ] at hfind
      exact findLoop_bound h hsizes steps (i + 1) _ (by omega) hpast
        (Nat.mod_lt _ (by decide)) slot o hfind

/-- **A returned offset lies inside the returned entry.** -/
theorem findEntry_bound (h : Holds buffer q) (hsizes : ∀ e ∈ q, e.size < 2 ^ 64) {p rtn : ℕ}
    {slot o : ℕ} (hfind : aesdCircularBufferFindEntryOffsetForFpos buffer p rtn = (some slot, o)) :
    ∃ e ∈ q, buffer.slot slot = e ∧ o < e.size := by
  have hzero : buffer.walkIndex 0 = buffer.outOffs := Nat.mod_eq_of_lt h.outOffs_lt
  rw [aesdCircularBufferFindEntryOffsetForFpos, h.totalEntries_eq, ← hzero] at hfind
  exact h.findLoop_bound hsizes q.length 0 0 (Nat.zero_add _) (Nat.zero_le _) (by decide) slot o
    hfind

/-! ### The scans over all slots -/

/-- The walk meets every slot once. -/
theorem walkIndex_perm (h : Holds buffer q) :
    ((List.range 10).map buffer.walkIndex).Perm (List.range 10) := by
  have hall : ∀ out < 10,
      ((List.range 10).map fun i ↦ (out + i) % maxWriteOperationsSupported).Perm
        (List.range 10) := by decide
  exact hall _ h.outOffs_lt

/-- Adding up over the slots that have a buffer, in any order, adds up over the queue. -/
theorem sum_slots (h : Holds buffer q) (g : AesdBufferEntry → ℕ) :
    ((List.range 10).map fun i ↦
      if (buffer.slot i).buffptr ≠ none then g (buffer.slot i) else 0).sum = (q.map g).sum := by
  set f : ℕ → ℕ := fun i ↦
    if (buffer.slot i).buffptr ≠ none then g (buffer.slot i) else 0 with hf
  have hlen := h.length_le
  have hwalk : (List.range 10).map (f ∘ buffer.walkIndex) =
      q.map g ++ List.replicate (10 - q.length) 0 := by
    refine List.ext_getElem? fun i ↦ ?_
    rw [List.getElem?_map]
    rcases Nat.lt_or_ge i q.length with hi | hi
    · have hget : q[i]? = some q[i] := List.getElem?_eq_getElem hi
      have hne := h.buffptr_ne_none q[i] (List.getElem_mem hi)
      rw [List.getElem?_range (by omega), List.getElem?_append_left (by simpa using hi),
        List.getElem?_map, hget]
      show some (if _ then _ else _) = some (g q[i])
      rw [h.slot_eq hget, if_pos hne]
    · rw [List.getElem?_append_right (by simpa using hi), List.length_map,
        List.getElem?_replicate]
      rcases Nat.lt_or_ge i 10 with hten | hten
      · rw [List.getElem?_range hten, if_pos (by omega)]
        show some (if _ then _ else _) = some 0
        rw [if_neg (by rw [h.buffptr_eq_none i hi hten]; simp)]
      · rw [List.getElem?_eq_none (by simpa using hten), if_neg (by omega), Option.map_none]
  calc ((List.range 10).map f).sum
      = (((List.range 10).map buffer.walkIndex).map f).sum :=
        (h.walkIndex_perm.map f).sum_eq.symm
    _ = (q.map g ++ List.replicate (10 - q.length) 0).sum := by rw [List.map_map, hwalk]
    _ = (q.map g).sum := by rw [List.sum_append, List.sum_replicate_nat, Nat.mul_zero,
        Nat.add_zero]

/-- A scan that adds up in a `size_t` without wrapping. -/
theorem foldl_sizeT (g : ℕ → ℕ) (p : ℕ → Prop) [DecidablePred p] (l : List ℕ) (c : ℕ)
    (hlt : c + (l.map fun i ↦ if p i then g i else 0).sum < 2 ^ 64) :
    l.foldl (fun acc i ↦ if p i then sizeT (acc + g i) else acc) c =
      c + (l.map fun i ↦ if p i then g i else 0).sum := by
  induction l generalizing c with
  | nil => rfl
  | cons i l ih =>
    rw [List.map_cons, List.sum_cons] at hlt ⊢
    rw [List.foldl_cons]
    rcases Decidable.em (p i) with hp | hp
    · rw [if_pos hp] at hlt ⊢
      rw [if_pos hp, sizeT_of_lt (by omega), ih _ (by omega)]
      omega
    · rw [if_neg hp] at hlt ⊢
      rw [if_neg hp, ih _ (by omega)]
      omega

/-- **The number of slots in use is the length of the queue.** -/
theorem aesdCircularBufferSize_eq (h : Holds buffer q) :
    aesdCircularBufferSize buffer = q.length := by
  have hlen := h.length_le
  have hsum := h.sum_slots fun _ ↦ 1
  rw [List.map_const', List.sum_replicate_nat, Nat.mul_one] at hsum
  have hscan := foldl_sizeT (fun _ ↦ 1) (fun i ↦ (buffer.slot i).buffptr ≠ none)
    (List.range 10) 0 (by rw [hsum]; omega)
  rw [hsum, Nat.zero_add] at hscan
  exact hscan

/-- **The total of the scan is the sum of the sizes**, if that does not wrap. -/
theorem aesdCircularBufferTotalSize_eq (h : Holds buffer q) (hlt : (sizes q).sum < 2 ^ 64) :
    aesdCircularBufferTotalSize buffer = (sizes q).sum := by
  have hsum := h.sum_slots AesdBufferEntry.size
  have hscan := foldl_sizeT (fun i ↦ (buffer.slot i).size)
    (fun i ↦ (buffer.slot i).buffptr ≠ none) (List.range 10) 0
    (by rw [hsum, Nat.zero_add]; exact hlt)
  rw [hsum, Nat.zero_add] at hscan
  exact hscan

end Holds

/-! ### Every buffer built by adding entries -/

/-- **The lookup finds the byte of the concatenation.** On the buffer after any run of calls with
non-null entries whose last ten sizes sum to less than `2 ^ 64`, and for every position: the lookup
returns `NULL` exactly when the position is not below that sum, and then leaves its second result
alone; otherwise it returns the only retained entry that the position falls into and the offset
there, so that, whatever the entries contain, the byte at the offset is the byte at the position in
the concatenation, oldest first. -/
theorem findEntry_finds_byte {α : Type*} (l : List AesdBufferEntry)
    (hl : ∀ e ∈ l, e.buffptr ≠ none) (hsum : (sizes (l.rtake 10)).sum < 2 ^ 64) (p rtn : ℕ) :
    let buffer := (addAll aesdCircularBufferInit l).2
    let found := aesdCircularBufferFindEntryOffsetForFpos buffer p rtn
    let older := fun i ↦ ((sizes (l.rtake 10)).take i).sum
    (found.1 = none ↔ (sizes (l.rtake 10)).sum ≤ p) ∧ (found.1 = none → found.2 = rtn) ∧
    (p < (sizes (l.rtake 10)).sum → ∃ i e, (l.rtake 10)[i]? = some e ∧
      found = (some (buffer.walkIndex i), p - older i) ∧ buffer.slot (buffer.walkIndex i) = e ∧
      (older i ≤ p ∧ p < older i + e.size) ∧
      (∀ j e', (l.rtake 10)[j]? = some e' → older j ≤ p → p < older j + e'.size → j = i) ∧
      ∀ contents : List (List α), contents.map List.length = sizes (l.rtake 10) →
        contents.flatten[p]? = (contents[i]?).bind (·[p - older i]?)) := by
  intro buffer found older
  have hholds : Holds buffer (l.rtake 10) := holds_addAll hl
  have hfind : found = _ := hholds.findEntry_eq hsum p rtn
  rcases hlocate : locate (sizes (l.rtake 10)) p with - | ⟨i, o⟩
  · rw [hlocate] at hfind
    have hpast := locate_eq_none_iff.1 hlocate
    rw [hfind]
    exact ⟨iff_of_true rfl hpast, fun _ ↦ rfl, fun hlt ↦ absurd hlt (by omega)⟩
  · rw [hlocate] at hfind
    obtain ⟨n, hn, ho, hp⟩ := locate_eq_some_iff.1 hlocate
    have hsize : ∀ {j : ℕ} {e : AesdBufferEntry}, (l.rtake 10)[j]? = some e →
        (sizes (l.rtake 10))[j]? = some e.size := fun hj ↦ by
      rw [sizes, List.getElem?_map, hj, Option.map_some]
    have hbelow : p < (sizes (l.rtake 10)).sum := by
      rcases Nat.lt_or_ge p (sizes (l.rtake 10)).sum with hlt | hge
      · exact hlt
      · rw [locate_eq_none_iff.2 hge] at hlocate
        exact absurd hlocate (by simp)
    obtain ⟨e, he, rfl⟩ := Option.map_eq_some_iff.1 (List.getElem?_map .. ▸ hn)
    have hoffset : o = p - older i := by
      show o = p - ((sizes (l.rtake 10)).take i).sum
      omega
    have hinside : older i ≤ p ∧ p < older i + e.size := by
      show ((sizes (l.rtake 10)).take i).sum ≤ p ∧ p < ((sizes (l.rtake 10)).take i).sum + e.size
      omega
    rw [hfind]
    refine ⟨iff_of_false (by simp) (by omega), fun hnone ↦ absurd hnone (by simp), fun _ ↦
      ⟨i, e, he, by rw [hoffset], hholds.slot_eq he, hinside, ?_, ?_⟩⟩
    · exact fun j e' hj hle hlt ↦
        locate_unique (hsize hj) hle hlt (hsize he) hinside.1 hinside.2
    · intro contents hcontents
      rw [← hoffset]
      exact getElem?_flatten_of_locate (hcontents ▸ hlocate)

/-- Three entries, the second one empty: position 3 is in the third entry, position 5 in none. -/
theorem findEntry_finds_byte_empty_entry :
    let l : List AesdBufferEntry := [⟨some 0, 3⟩, ⟨some 1, 0⟩, ⟨some 2, 2⟩]
    let buffer := (addAll aesdCircularBufferInit l).2
    (aesdCircularBufferFindEntryOffsetForFpos buffer 5 7).1 = none ∧
      ∃ i e, (l.rtake 10)[i]? = some e ∧ e.size = 2 ∧
        aesdCircularBufferFindEntryOffsetForFpos buffer 3 7 = (some (buffer.walkIndex i), 0) := by
  intro l buffer
  obtain ⟨hnone, -⟩ := findEntry_finds_byte (α := ℕ) l (by decide) (by decide) 5 7
  obtain ⟨-, -, hfound⟩ := findEntry_finds_byte (α := ℕ) l (by decide) (by decide) 3 7
  obtain ⟨i, e, he, -, -, -, hunique, -⟩ := hfound (by decide)
  obtain rfl := hunique 2 ⟨some 2, 2⟩ (by decide) (by decide) (by decide)
  exact ⟨hnone.2 (by decide), 2, ⟨some 2, 2⟩, by decide, rfl, by decide⟩

end Aesd
