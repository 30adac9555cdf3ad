import Mathlib.Data.List.Range
import Aesd.Foundation.BoundedFifo
import Aesd.Driver.CircularBuffer

/-!
# The circular buffer is a FIFO bounded to ten entries

`Holds buffer q` says that the buffer lays out the queue `q`, oldest entry first: entry `i` of `q`
sits `i` slots past `out_offs`, the remaining slots have a `NULL` pointer, and the three index
fields agree with the length of `q`. In particular `out_offs` is `0` until the buffer is full,
which is what lets the lookup use `in_offs` as the number of entries.

One call of `aesd_circular_buffer_add_entry` is one `BoundedFifo.push` (`Holds.addEntry`) and hands
back the pointer of the entry the push drops (`Holds.addEntry_fst`); the results over whole runs
(`Holds.addAll`, `addAll_fst`) are these two carried along `BoundedFifo.pushAll`.
-/

namespace Aesd

open BoundedFifo

/-! ### Walking the slots -/

namespace AesdCircularBuffer

variable (buffer : AesdCircularBuffer)

/-- The index of the slot `i` steps past `out_offs`. -/
def walkIndex (i : ℕ) : ℕ :=
  (buffer.outOffs + i) % maxWriteOperationsSupported

/-- The entries met on the walk of the lookup: `totalEntries` slots from `out_offs` on. -/
def walk : List AesdBufferEntry :=
  (List.range buffer.totalEntries).map fun i ↦ buffer.slot (buffer.walkIndex i)

theorem walkIndex_lt (i : ℕ) : buffer.walkIndex i < 10 :=
  Nat.mod_lt _ (by decide)

theorem walkIndex_injective {i j : ℕ} (hi : i < 10) (hj : j < 10)
    (h : buffer.walkIndex i = buffer.walkIndex j) : i = j := by
  simp only [walkIndex, maxWriteOperationsSupported] at h
  omega

/-- Every slot is met within one lap. -/
theorem exists_walkIndex_eq {j : ℕ} (hj : j < 10) : ∃ i < 10, buffer.walkIndex i = j := by
  refine ⟨(10 + j - buffer.outOffs % 10) % 10, Nat.mod_lt _ (by decide), ?_⟩
  simp only [walkIndex, maxWriteOperationsSupported]
  omega

end AesdCircularBuffer

open AesdCircularBuffer

/-! ### The representation -/

/-- The buffer lays out the queue `q`, oldest entry first. -/
structure Holds (buffer : AesdCircularBuffer) (q : List AesdBufferEntry) : Prop where
  /-- There is a slot for every entry. -/
  length_le : q.length ≤ 10
  /-- The first slot to read from exists. -/
  outOffs_lt : buffer.outOffs < 10
  /-- The next write goes behind the youngest entry. -/
  inOffs_eq : buffer.inOffs = (buffer.outOffs + q.length) % 10
  /-- The flag tells the full buffer from the empty one. -/
  full_iff : buffer.full = true ↔ q.length = 10
  /-- While there is room, the oldest entry is in slot `0`. -/
  outOffs_eq_zero : buffer.full = false → buffer.outOffs = 0
  /-- Entry `i` sits `i` slots past the first. -/
  getElem?_eq : ∀ i < q.length, q[i]? = some (buffer.slot (buffer.walkIndex i))
  /-- The other slots have no buffer. -/
  buffptr_eq_none : ∀ i, q.length ≤ i → i < 10 →
    (buffer.slot (buffer.walkIndex i)).buffptr = none
  /-- Every entry has a buffer. -/
  buffptr_ne_none : ∀ e ∈ q, e.buffptr ≠ none

theorem holds_init : Holds aesdCircularBufferInit [] where
  length_le := by decide
  outOffs_lt := by decide
  inOffs_eq := rfl
  full_iff := by simp [aesdCircularBufferInit]
  outOffs_eq_zero _ := rfl
  getElem?_eq i hi := absurd hi (by simp)
  buffptr_eq_none i _ hi := by
    have h : ∀ j < 10, (aesdCircularBufferInit.slot j).buffptr = none := by decide
    exact h _ (walkIndex_lt _ i)
  buffptr_ne_none e he := absurd he (by simp)

namespace Holds

variable {buffer : AesdCircularBuffer} {q : List AesdBufferEntry} {e : AesdBufferEntry}

theorem full_eq_false_iff (h : Holds buffer q) : buffer.full = false ↔ q.length < 10 := by
  rw [← Bool.not_eq_true, h.full_iff]
  have := h.length_le
  omega

theorem inOffs_lt (h : Holds buffer q) : buffer.inOffs < 10 := by
  rw [h.inOffs_eq]
  exact Nat.mod_lt _ (by decide)

/-- The number of slots the lookup walks is the length of the queue. -/
theorem totalEntries_eq (h : Holds buffer q) : buffer.totalEntries = q.length := by
  rw [totalEntries]
  by_cases hfull : buffer.full = true
  · rw [if_pos hfull, h.full_iff.1 hfull]
  · have hnot : buffer.full = false := Bool.not_eq_true _ ▸ hfull
    have hlt := h.full_eq_false_iff.1 hnot
    rw [if_neg hfull, h.inOffs_eq, h.outOffs_eq_zero hnot, Nat.zero_add, Nat.mod_eq_of_lt hlt]

/-- **The walk reads the queue**, oldest entry first. -/
theorem walk_eq (h : Holds buffer q) : buffer.walk = q := by
  refine List.ext_getElem? fun i ↦ ?_
  rw [walk, h.totalEntries_eq, List.getElem?_map]
  by_cases hi : i < q.length
  · rw [h.getElem?_eq i hi, List.getElem?_range hi, Option.map_some]
  · rw [List.getElem?_eq_none (by simpa using hi), List.getElem?_eq_none (by simpa using hi),
      Option.map_none]

/-- A slot that the walk does not meet has no buffer. -/
theorem buffptr_eq_none_of_not_walked (h : Holds buffer q) {j : ℕ} (hj : j < 10)
    (hout : ∀ i < buffer.totalEntries, buffer.walkIndex i ≠ j) :
    (buffer.slot j).buffptr = none := by
  obtain ⟨i, hi, rfl⟩ := buffer.exists_walkIndex_eq hj
  refine h.buffptr_eq_none i ?_ hi
  by_contra hlt
  exact hout i (by rw [h.totalEntries_eq]; omega) rfl

theorem walkIndex_length (h : Holds buffer q) : buffer.walkIndex q.length = buffer.inOffs :=
  h.inOffs_eq.symm

/-! ### One call of `aesd_circular_buffer_add_entry` -/

/-- The call on a buffer with room. -/
theorem addEntry_eq_of_lt (h : Holds buffer q) (hlt : q.length < 10) :
    aesdCircularBufferAddEntry buffer e =
      (none, { buffer.setSlot buffer.inOffs e with
        inOffs := (q.length + 1) % 10
        full := decide (q.length + 1 = 10) }) := by
  have hfull := h.full_eq_false_iff.2 hlt
  have hout := h.outOffs_eq_zero hfull
  have hin : buffer.inOffs = q.length := by
    rw [h.inOffs_eq, hout, Nat.zero_add, Nat.mod_eq_of_lt hlt]
  simp only [aesdCircularBufferAddEntry, hfull, Bool.not_false, if_true, setSlot_outOffs, hin,
    hout, maxWriteOperationsSupported]
  by_cases hten : q.length + 1 = 10
  · rw [if_pos (by omega), decide_eq_true hten]
  · rw [if_neg (by omega), decide_eq_false hten]
    simp [setSlot, hfull, hout]

/-- The call on a full buffer. -/
theorem addEntry_eq_of_full (h : Holds buffer q) (hlen : q.length = 10) :
    aesdCircularBufferAddEntry buffer e =
      ((buffer.slot buffer.outOffs).buffptr,
        { ((buffer.setSlot buffer.outOffs
            { buffer.slot buffer.outOffs with buffptr := none }).setSlot buffer.outOffs e) with
          inOffs := (buffer.outOffs + 1) % 10
          outOffs := (buffer.outOffs + 1) % 10
          full := true }) := by
  have hfull := h.full_iff.2 hlen
  have hin : buffer.inOffs = buffer.outOffs := by
    have := h.inOffs_eq
    have := h.outOffs_lt
    omega
  simp only [aesdCircularBufferAddEntry, hfull, Bool.not_true, Bool.false_eq_true, if_false,
    setSlot_outOffs, setSlot_inOffs, hin, maxWriteOperationsSupported, if_true]

theorem addEntry_of_lt (h : Holds buffer q) (he : e.buffptr ≠ none) (hlt : q.length < 10) :
    Holds (aesdCircularBufferAddEntry buffer e).2 (q ++ [e]) := by
  have hout := h.outOffs_eq_zero (h.full_eq_false_iff.2 hlt)
  have hin : buffer.inOffs = q.length := by
    rw [h.inOffs_eq, hout, Nat.zero_add, Nat.mod_eq_of_lt hlt]
  have hlen : (q ++ [e]).length = q.length + 1 := by simp
  rw [h.addEntry_eq_of_lt hlt]
  -- the slots after the call, in walk order
  have hslot : ∀ i < 10, (buffer.setSlot buffer.inOffs e).slot (buffer.walkIndex i) =
      if i = q.length then e else buffer.slot (buffer.walkIndex i) := by
    intro i hi
    rw [slot_setSlot _ h.inOffs_lt, ← h.walkIndex_length]
    by_cases heq : i = q.length
    · rw [if_pos (by rw [heq]), if_pos heq]
    · rw [if_neg fun hw ↦ heq (buffer.walkIndex_injective hlt hi hw).symm, if_neg heq]
  refine ⟨by omega, by rw [setSlot_outOffs]; omega, ?_, ?_, ?_, ?_, ?_, ?_⟩
  · rw [hlen, setSlot_outOffs, hout, Nat.zero_add]
  · rw [hlen, decide_eq_true_iff]
  · intro _
    rw [setSlot_outOffs, hout]
  · intro i hi
    rw [hlen] at hi
    refine Eq.trans ?_ (congrArg some (hslot i (by omega)).symm)
    by_cases heq : i = q.length
    · rw [if_pos heq, heq, List.getElem?_concat_length]
    · rw [if_neg heq, List.getElem?_append_left (by omega), h.getElem?_eq i (by omega)]
  · intro i hle hi
    rw [hlen] at hle
    refine Eq.trans (congrArg AesdBufferEntry.buffptr (hslot i hi)) ?_
    rw [if_neg (by omega), h.buffptr_eq_none i (by omega) hi]
  · intro e' he'
    rcases List.mem_append.1 he' with hq | hs
    · exact h.buffptr_ne_none e' hq
    · rw [List.mem_singleton.1 hs]
      exact he

theorem addEntry_of_full (h : Holds buffer q) (he : e.buffptr ≠ none) (hfull : q.length = 10) :
    Holds (aesdCircularBufferAddEntry buffer e).2 (q.tail ++ [e]) := by
  have hlt := h.outOffs_lt
  have hlen : (q.tail ++ [e]).length = 10 := by
    rw [List.length_append, List.length_tail, List.length_singleton, hfull]
  rw [h.addEntry_eq_of_full hfull]
  set buffer' := (buffer.setSlot buffer.outOffs
    { buffer.slot buffer.outOffs with buffptr := none }).setSlot buffer.outOffs e with hbuffer'
  -- the oldest slot is overwritten and becomes the last of the walk
  have hslot : ∀ j, buffer'.slot j = if buffer.outOffs = j then e else buffer.slot j := by
    intro j
    rw [hbuffer', slot_setSlot _ hlt, slot_setSlot _ hlt]
    by_cases hj : buffer.outOffs = j
    · rw [if_pos hj, if_pos hj]
    · rw [if_neg hj, if_neg hj, if_neg hj]
  refine ⟨by omega, Nat.mod_lt _ (by decide), ?_, ?_, ?_, ?_, ?_, ?_⟩
  · rw [hlen]
    show (buffer.outOffs + 1) % 10 = ((buffer.outOffs + 1) % 10 + 10) % 10
    omega
  · simp [hlen]
  · intro hcontra
    exact absurd hcontra (by simp)
  · intro i hi
    rw [hlen] at hi
    refine Eq.trans ?_ (congrArg some (hslot (((buffer.outOffs + 1) % 10 + i) % 10)).symm)
    by_cases hnine : i = 9
    · rw [if_pos (by omega), hnine, List.getElem?_append_right (by simp [hfull]),
        List.length_tail, hfull]
      rfl
    · have hwalk : buffer.walkIndex (i + 1) = ((buffer.outOffs + 1) % 10 + i) % 10 := by
        simp only [walkIndex, maxWriteOperationsSupported]
        omega
      rw [if_neg (by omega), List.getElem?_append_left (by simp [hfull]; omega),
        List.getElem?_tail, h.getElem?_eq (i + 1) (by omega), hwalk]
  · intro i hle hi
    omega
  · intro e' he'
    rcases List.mem_append.1 he' with hq | hs
    · exact h.buffptr_ne_none e' (List.mem_of_mem_tail hq)
    · rw [List.mem_singleton.1 hs]
      exact he

/-- **One call is one push.** -/
theorem addEntry (h : Holds buffer q) (he : e.buffptr ≠ none) :
    Holds (aesdCircularBufferAddEntry buffer e).2 (push 10 q e) := by
  rcases Nat.lt_or_eq_of_le h.length_le with hlt | hfull
  · rw [push_of_lt hlt]
    exact h.addEntry_of_lt he hlt
  · rw [push_of_full (by decide) hfull]
    exact h.addEntry_of_full he hfull

/-- **The call hands back the pointer of the entry the push drops.** -/
theorem addEntry_fst (h : Holds buffer q) :
    (aesdCircularBufferAddEntry buffer e).1 = (dropped 10 q).bind AesdBufferEntry.buffptr := by
  rcases Nat.lt_or_eq_of_le h.length_le with hlt | hfull
  · rw [h.addEntry_eq_of_lt hlt, dropped, if_pos hlt]
    rfl
  · have hzero : buffer.walkIndex 0 = buffer.outOffs := Nat.mod_eq_of_lt h.outOffs_lt
    rw [h.addEntry_eq_of_full hfull, dropped, if_neg (by omega), List.head?_eq_getElem?,
      h.getElem?_eq 0 (by omega), hzero]
    rfl

end Holds

/-! ### Runs -/

/-- Successive calls of `aesd_circular_buffer_add_entry`: the pointers they return and the buffer
they leave. -/
def addAll (buffer : AesdCircularBuffer) :
    List AesdBufferEntry → List (Option Addr) × AesdCircularBuffer
  | [] => ([], buffer)
  | e :: l =>
    let (old, buffer) := aesdCircularBufferAddEntry buffer e
    let (olds, buffer) := addAll buffer l
    (old :: olds, buffer)

/-- A run of calls is a run of pushes. -/
theorem Holds.addAll {buffer : AesdCircularBuffer} {q l : List AesdBufferEntry}
    (h : Holds buffer q) (hl : ∀ e ∈ l, e.buffptr ≠ none) :
    Holds (addAll buffer l).2 (pushAll 10 q l) := by
  induction l generalizing buffer q with
  | nil => exact h
  | cons e l ih =>
    exact ih (h.addEntry (hl e (by simp))) fun e' he' ↦ hl e' (List.mem_cons_of_mem _ he')

/-- After a run of calls the buffer lays out the last ten entries. -/
theorem holds_addAll {l : List AesdBufferEntry} (hl : ∀ e ∈ l, e.buffptr ≠ none) :
    Holds (addAll aesdCircularBufferInit l).2 (l.rtake 10) := by
  rw [← pushAll_nil (by decide)]
  exact holds_init.addAll hl

/-- A run of calls hands back the pointers of the entries the pushes drop. -/
theorem Holds.addAll_fst {buffer : AesdCircularBuffer} {q l : List AesdBufferEntry}
    (h : Holds buffer q) (hl : ∀ e ∈ l, e.buffptr ≠ none) :
    (Aesd.addAll buffer l).1 = (drops 10 q l).map (·.bind AesdBufferEntry.buffptr) := by
  induction l generalizing buffer q with
  | nil => rfl
  | cons e l ih =>
    have hnext := ih (h.addEntry (hl e (by simp))) fun e' he' ↦ hl e' (List.mem_cons_of_mem _ he')
    rw [drops, List.map_cons, ← h.addEntry_fst (e := e), ← hnext]
    rfl

theorem length_addAll_fst (buffer : AesdCircularBuffer) (l : List AesdBufferEntry) :
    (addAll buffer l).1.length = l.length := by
  induction l generalizing buffer with
  | nil => rfl
  | cons e l ih => exact congrArg (· + 1) (ih _)

/-- The pointers handed back over a run from the initialised buffer, `NULL`s left out: those of all
entries but the last ten. -/
theorem reduceOption_addAll_fst {l : List AesdBufferEntry} (hl : ∀ e ∈ l, e.buffptr ≠ none) :
    (addAll aesdCircularBufferInit l).1.reduceOption =
      (l.take (l.length - 10)).filterMap AesdBufferEntry.buffptr := by
  have hmap : ∀ os : List (Option AesdBufferEntry),
      (os.map (·.bind AesdBufferEntry.buffptr)).reduceOption =
        os.reduceOption.filterMap AesdBufferEntry.buffptr := by
    intro os
    induction os with
    | nil => rfl
    | cons o os ih =>
      rcases o with - | e
      · exact ih
      · rw [List.reduceOption_cons_of_some, List.filterMap_cons, List.map_cons]
        rcases hp : e.buffptr with - | p <;> simp [hp, ih]
  rw [holds_init.addAll_fst hl, hmap, reduceOption_drops_nil (by decide)]

/-- When the added pointers are distinct, one that has been handed back is in no entry of the
buffer. -/
theorem buffptr_ne_of_mem_reduceOption {l : List AesdBufferEntry}
    (hl : ∀ e ∈ l, e.buffptr ≠ none) (hnd : (l.map AesdBufferEntry.buffptr).Nodup) {p : Addr}
    (hp : p ∈ (addAll aesdCircularBufferInit l).1.reduceOption) {e : AesdBufferEntry}
    (he : e ∈ l.rtake 10) : e.buffptr ≠ some p := by
  rw [reduceOption_addAll_fst hl, List.mem_filterMap] at hp
  obtain ⟨e', he', hp'⟩ := hp
  rw [← List.take_append_drop (l.length - 10) l, List.map_append, List.nodup_append] at hnd
  intro heq
  exact hnd.2.2 (some p) (List.mem_map.2 ⟨e', he', hp'⟩) (some p)
    (List.mem_map.2 ⟨e, he, heq⟩) rfl

/-- **The circular buffer refines a FIFO bounded to ten entries.** After any run of calls with
non-null entries on the initialised buffer: the walk reads the last ten of them, oldest first; the
indices are in range and the flag is set from the tenth call on; the slots off the walk are null;
and the `k`-th call hands back the pointer added ten calls before it, so that evicted pointers come
back in order, once per eviction, and never while an entry still holds them. -/
theorem addAll_refines_boundedFifo (l : List AesdBufferEntry) (hl : ∀ e ∈ l, e.buffptr ≠ none) :
    (addAll aesdCircularBufferInit l).2.walk = l.rtake 10 ∧
    (addAll aesdCircularBufferInit l).2.inOffs < 10 ∧
    (addAll aesdCircularBufferInit l).2.outOffs < 10 ∧
    ((addAll aesdCircularBufferInit l).2.full = true ↔ 10 ≤ l.length) ∧
    (∀ j < 10,
      (∀ i < (addAll aesdCircularBufferInit l).2.totalEntries,
        (addAll aesdCircularBufferInit l).2.walkIndex i ≠ j) →
      ((addAll aesdCircularBufferInit l).2.slot j).buffptr = none) ∧
    (∀ k < l.length, (addAll aesdCircularBufferInit l).1[k]? =
      some (if k < 10 then none else (l[k - 10]?).bind AesdBufferEntry.buffptr)) ∧
    (addAll aesdCircularBufferInit l).1.length = l.length ∧
    (addAll aesdCircularBufferInit l).1.reduceOption =
      (l.take (l.length - 10)).filterMap AesdBufferEntry.buffptr ∧
    ((l.map AesdBufferEntry.buffptr).Nodup →
      ∀ p ∈ (addAll aesdCircularBufferInit l).1.reduceOption,
        ∀ e ∈ (addAll aesdCircularBufferInit l).2.walk, e.buffptr ≠ some p) := by
  have hholds := holds_addAll hl
  refine ⟨hholds.walk_eq, hholds.inOffs_lt, hholds.outOffs_lt, ?_,
    fun j hj hout ↦ hholds.buffptr_eq_none_of_not_walked hj hout, ?_, length_addAll_fst _ l,
    reduceOption_addAll_fst hl, ?_⟩
  · rw [hholds.full_iff, length_rtake]
    omega
  · intro k hk
    rw [holds_init.addAll_fst hl, List.getElem?_map, getElem?_drops_nil (by decide) l hk,
      Option.map_some]
    split <;> rfl
  · intro hnd p hp e he
    rw [hholds.walk_eq] at he
    exact buffptr_ne_of_mem_reduceOption hl hnd hp he

/-- Twelve entries: the ring has wrapped and two pointers have come back. -/
theorem addAll_refines_boundedFifo_twelve :
    let l := (List.range 12).map fun i ↦ (⟨some i, i⟩ : AesdBufferEntry)
    (addAll aesdCircularBufferInit l).2.walk = l.rtake 10 ∧
      (addAll aesdCircularBufferInit l).1.reduceOption = [0, 1] := by
  intro l
  obtain ⟨hwalk, -, -, -, -, -, -, hold, -⟩ := addAll_refines_boundedFifo l (by decide)
  exact ⟨hwalk, hold.trans (by decide)⟩

end Aesd
