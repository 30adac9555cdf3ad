import Mathlib.Algebra.Group.Nat.Defs

/-!
# The circular buffer of the driver

`aesd-circular-buffer.c` and `.h`, function by function. A pointer is an `Option Addr` with `none`
for `NULL`; `uint8_t` and `int` indices are naturals (nothing here comes near their limits), while
sums of `size_t` are taken modulo `2 ^ 64` (`sizeT`).

The ten slots are a `Vector`. A slot index comes from the fields `in_offs` and `out_offs`, which
the type does not bound: reading outside the array gives a null entry and writing there is ignored.
No reachable buffer does either, which is part of what `RingFifo` proves.
-/

namespace Aesd

/-- The address of a block of memory; `NULL` is `none : Option Addr`. -/
abbrev Addr := ℕ

/-- A value stored in a `size_t`. -/
def sizeT (n : ℕ) : ℕ :=
  n % 2 ^ 64

theorem sizeT_of_lt {n : ℕ} (h : n < 2 ^ 64) : sizeT n = n :=
  Nat.mod_eq_of_lt h

/-- `AESDCHAR_MAX_WRITE_OPERATIONS_SUPPORTED`. -/
abbrev maxWriteOperationsSupported : ℕ := 10

/-- `struct aesd_buffer_entry`. -/
structure AesdBufferEntry where
  /-- Where the contents are stored. -/
  buffptr : Option Addr
  /-- Number of bytes stored in `buffptr`. -/
  size : ℕ
deriving DecidableEq, Repr

/-- The entry of a zeroed slot. -/
def AesdBufferEntry.zero : AesdBufferEntry :=
  ⟨none, 0⟩

/-- `struct aesd_circular_buffer`. -/
structure AesdCircularBuffer where
  /-- The most recent write operations. -/
  entry : Vector AesdBufferEntry maxWriteOperationsSupported
  /-- The slot the next write goes to. -/
  inOffs : ℕ
  /-- The first slot to read from. -/
  outOffs : ℕ
  /-- Set when every slot is in use. -/
  full : Bool
deriving DecidableEq, Repr

namespace AesdCircularBuffer

variable (buffer : AesdCircularBuffer)

/-- `buffer->entry[i]`. -/
def slot (i : ℕ) : AesdBufferEntry :=
  (buffer.entry[i]?).getD .zero

/-- `buffer->entry[i] = e`. -/
def setSlot (i : ℕ) (e : AesdBufferEntry) : AesdCircularBuffer :=
  { buffer with entry := buffer.entry.setIfInBounds i e }

@[simp] theorem setSlot_inOffs (i : ℕ) (e : AesdBufferEntry) :
    (buffer.setSlot i e).inOffs = buffer.inOffs := rfl

@[simp] theorem setSlot_outOffs (i : ℕ) (e : AesdBufferEntry) :
    (buffer.setSlot i e).outOffs = buffer.outOffs := rfl

@[simp] theorem setSlot_full (i : ℕ) (e : AesdBufferEntry) :
    (buffer.setSlot i e).full = buffer.full := rfl

theorem slot_setSlot {i : ℕ} (hi : i < maxWriteOperationsSupported) (e : AesdBufferEntry)
    (j : ℕ) : (buffer.setSlot i e).slot j = if i = j then e else buffer.slot j := by
  rw [slot, setSlot, Vector.getElem?_setIfInBounds]
  by_cases h : i = j
  · rw [if_pos h, if_pos (h ▸ hi), if_pos h, Option.getD_some]
  · rw [if_neg h, if_neg h, slot]

end AesdCircularBuffer

open AesdCircularBuffer

/-- `aesd_circular_buffer_init`: `memset` to zero. -/
def aesdCircularBufferInit : AesdCircularBuffer :=
  { entry := Vector.replicate _ .zero, inOffs := 0, outOffs := 0, full := false }

/-- `aesd_circular_buffer_add_entry`: the pointer it returns and the buffer it leaves. -/
def aesdCircularBufferAddEntry (buffer : AesdCircularBuffer) (addEntry : AesdBufferEntry) :
    Option Addr × AesdCircularBuffer :=
  let (overwrittenEntry, buffer) :=
    if !buffer.full then
      (none,
        { buffer.setSlot buffer.inOffs addEntry with
          inOffs := (buffer.inOffs + 1) % maxWriteOperationsSupported })
    else
      let oldest := buffer.slot buffer.outOffs
      let buffer := buffer.setSlot buffer.outOffs { oldest with buffptr := none }
      let buffer := buffer.setSlot buffer.inOffs addEntry
      (oldest.buffptr,
        { buffer with
          inOffs := (buffer.inOffs + 1) % maxWriteOperationsSupported
          outOffs := (buffer.outOffs + 1) % maxWriteOperationsSupported })
  if buffer.inOffs = buffer.outOffs then
    (overwrittenEntry, { buffer with full := true })
  else
    (overwrittenEntry, buffer)

/-- The number of slots the lookup walks, `total_entries`. -/
def AesdCircularBuffer.totalEntries (buffer : AesdCircularBuffer) : ℕ :=
  if buffer.full then maxWriteOperationsSupported else buffer.inOffs

/-- The loop of the lookup, with `steps` iterations to go. The found entry is given by its slot
index; the last component is `*entry_offset_byte_rtn`. -/
def findLoop (buffer : AesdCircularBuffer) (charOffset rtn : ℕ) :
    (steps cbIter charCount : ℕ) → Option ℕ × ℕ
  | 0, _, _ => (none, rtn)
  | steps + 1, cbIter, charCount =>
    let entry := buffer.slot cbIter
    if charOffset < sizeT (charCount + entry.size) then
      (some cbIter, sizeT (charOffset + 2 ^ 64 - charCount))
    else
      findLoop buffer charOffset rtn steps ((cbIter + 1) % maxWriteOperationsSupported)
        (sizeT (charCount + entry.size))

/-- `aesd_circular_buffer_find_entry_offset_for_fpos`; `rtn` is what `*entry_offset_byte_rtn`
holds before the call. -/
def aesdCircularBufferFindEntryOffsetForFpos (buffer : AesdCircularBuffer)
    (charOffset rtn : ℕ) : Option ℕ × ℕ :=
  findLoop buffer charOffset rtn buffer.totalEntries buffer.outOffs 0

/-- `aesd_circular_buffer_size`: how many slots have a buffer. -/
def aesdCircularBufferSize (buffer : AesdCircularBuffer) : ℕ :=
  (List.range maxWriteOperationsSupported).foldl (fun size i ↦
    if (buffer.slot i).buffptr ≠ none then sizeT (size + 1) else size) 0

/-- `aesd_circular_buffer_total_size`: the sizes of the slots that have a buffer, summed. -/
def aesdCircularBufferTotalSize (buffer : AesdCircularBuffer) : ℕ :=
  (List.range maxWriteOperationsSupported).foldl (fun total i ↦
    if (buffer.slot i).buffptr ≠ none then sizeT (total + (buffer.slot i).size) else total) 0

end Aesd
