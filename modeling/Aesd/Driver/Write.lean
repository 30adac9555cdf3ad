import Aesd.Driver.Represents

/-!
# What a call of `aesd_write` does

A call ends in one of five ways (`WriteFate`), decided by the state before it and the outcomes of
the services it calls (`Kernel.writeFate`). `aesdWrite_spec` says, for each of them, what the call
returns and how it changes the log that the device represents: the call always returns, keeps the
representation, and locks and unlocks the mutex once. Its steps follow the source: room in the
temporary buffer (`Represents.exists_makeRoom`), the copy
(`Represents.copyFromUser`), and the hand-over to the ring (`aesdWriteCommit_spec`).
-/

namespace Aesd

open Memory Framing BoundedFifo

/-! ### The fate of a call -/

/-- How a call of `aesd_write` ends. -/
inductive WriteFate
  /-- No memory for the temporary buffer. -/
  | noRoom
  /-- `copy_from_user` left bytes uncopied. -/
  | badCopy
  /-- No memory for `command_data`. -/
  | noCommand
  /-- No newline yet: the bytes are pending. -/
  | kept
  /-- A newline: the pending bytes went to the ring. -/
  | committed
deriving DecidableEq, Repr

namespace WriteFate

/-- The value the call returns. -/
def ret (count : ℕ) : WriteFate → ℤ
  | noRoom | noCommand => -ENOMEM
  | badCopy => -EFAULT
  | kept | committed => count

/-- Where the call leaves `*f_pos`. -/
def fPos (fPos : ℤ) (count : ℕ) : WriteFate → ℤ
  | noRoom | noCommand | badCopy => fPos
  | kept | committed => fPos + count

/-- What the call does to the log. -/
def log (s : Log Byte) (bytes : List Byte) : WriteFate → Log Byte
  | noRoom => s
  | badCopy => ⟨s.committed, []⟩
  | noCommand | kept => ⟨s.committed, s.pending ++ bytes⟩
  | committed => ⟨s.committed ++ [s.pending ++ bytes], []⟩

end WriteFate

/-- Whether the temporary buffer has room for `count` more bytes, or gets it. -/
def Kernel.roomFor (k : Kernel) (count : ℕ) (o : WriteOutcome) : Bool :=
  match k.tempBuf.data with
  | none => granted (count + 50) o.kmallocTemp
  | some _ =>
    decide (k.tempBuf.size + count ≤ k.tempBuf.capacity) ||
      granted (k.tempBuf.size + count + 50) o.krealloc

/-- The fate of a call, from the state before it. -/
def Kernel.writeFate (k : Kernel) (buf : UserBuf) (o : WriteOutcome) : WriteFate :=
  if k.roomFor buf.count o = true then
    if min o.uncopied buf.count = 0 then
      if newline ∈ k.pending ++ buf.bytes then
        if granted (k.tempBuf.size + buf.count) o.kmallocCommand = true then .committed
        else .noCommand
      else .kept
    else .badCopy
  else .noRoom

/-! ### Services -/

@[simp]
theorem ok_bind {ε α β : Type} (a : α) (f : α → Except ε β) : (Except.ok a >>= f) = f a :=
  rfl

theorem bind_of_eq_ok {ε α β : Type} {x : Except ε α} {a : α} (h : x = .ok a)
    (f : α → Except ε β) : (x >>= f) = f a := by
  rw [h, ok_bind]

theorem Kernel.mutexLock_of_free {k : Kernel} (hfree : k.mutex.held = false) :
    k.mutexLock = .ok (k.setMutex ⟨true, k.mutex.locks + 1, k.mutex.unlocks⟩) := by
  rw [Kernel.mutexLock, Mutex.lock, hfree]
  rfl

theorem Kernel.mutexLock_of_held {k : Kernel} (hheld : k.mutex.held = true) :
    k.mutexLock = .error .blocked := by
  rw [Kernel.mutexLock, Mutex.lock, hheld]
  rfl

theorem exists_junk_of_granted {size : ℕ} {o : Option Junk} (h : granted size o = true) :
    size ≤ kmallocMaxSize ∧ ∃ junk, o = some junk := by
  rw [granted, Bool.and_eq_true, decide_eq_true_iff, Option.isSome_iff_exists] at h
  exact ⟨h.2, h.1⟩

theorem Kernel.kmalloc_of_granted {k : Kernel} {size : ℕ} {o : Option Junk}
    (h : granted size o = true) :
    ∃ junk, k.kmalloc size o =
      (some k.heap.next, { k with heap := k.heap.alloc (resize [] size junk) }) := by
  obtain ⟨hsize, junk, rfl⟩ := exists_junk_of_granted h
  exact ⟨junk, if_pos hsize⟩

theorem Kernel.kmalloc_of_not_granted {k : Kernel} {size : ℕ} {o : Option Junk}
    (h : granted size o = false) : k.kmalloc size o = (none, k) := by
  rcases o with - | junk
  · rfl
  · have hsize : ¬ size ≤ kmallocMaxSize := by simpa [granted] using h
    exact if_neg hsize

namespace Kernel.Represents

variable {k : Kernel} {s : Log Byte}

/-- A fresh block is not a block of the ring. -/
theorem ne_next_of_mem (h : k.Represents s) {a : Addr} (ha : a ∈ k.ringPointers) :
    a ≠ k.heap.next := by
  obtain ⟨blk, hblk⟩ := h.ring_live ha
  exact Heap.ne_next_of_block hblk

theorem next_not_mem (h : k.Represents s) : k.heap.next ∉ k.ringPointers :=
  fun hmem ↦ h.ne_next_of_mem hmem rfl

/-- Nor is the temporary buffer. -/
theorem ne_temp_of_mem (h : k.Represents s) {a p : Addr} (hdata : k.tempBuf.data = some p)
    (ha : a ∈ k.ringPointers) : a ≠ p := by
  rintro rfl
  exact h.temp_not_mem hdata ha

/-- The first temporary buffer: `kmalloc` grants it. -/
theorem kmallocTemp (h : k.Represents s) (hdata : k.tempBuf.data = none) {size : ℕ}
    (hsize : size ≤ kmallocMaxSize) (junk : Junk) :
    (({ k with heap := k.heap.alloc (resize [] size junk) } : Kernel).setTempBuf
      ⟨some k.heap.next, 0, size⟩).Represents s := by
  have hp : s.pending = [] := (h.temp.of_none hdata).2
  have hnext : (k.heap.alloc (resize [] size junk)).block k.heap.next =
      some (resize [] size junk) := by
    rw [Heap.block_alloc, if_pos rfl]
  refine h.exchangeTemp (fun a ha ↦ ?_) ?_ (fun a ha ↦ ?_) fun a ha ↦ ?_
  · rw [Heap.block_alloc, if_neg (h.ne_next_of_mem ha)]
  · refine TempStores.of_block hnext (length_resize _ _ _) (Nat.zero_le _) hsize ?_
    rw [hp, List.take_zero]
  · obtain rfl := Option.some.inj ha
    exact h.next_not_mem
  · rw [Heap.block_alloc]
    rcases eq_or_ne a k.heap.next with rfl | hne
    · simp
    · rw [if_neg hne, h.live_iff a, or_iff_right ha, hdata]
      simpa using hne.symm

/-- A larger temporary buffer: `krealloc` grants it. -/
theorem krealloc (h : k.Represents s) {p : Addr} (hdata : k.tempBuf.data = some p) {size : ℕ}
    {o : Option Junk} (hgrant : granted size o = true) (hsize : k.tempBuf.size ≤ size) :
    ∃ heap, k.krealloc p size o = .ok (some k.heap.next, { k with heap }) ∧
      (({ k with heap } : Kernel).setTempBuf
        ⟨some k.heap.next, k.tempBuf.size, size⟩).Represents s := by
  obtain ⟨hmax, junk, rfl⟩ := exists_junk_of_granted hgrant
  obtain ⟨blk, hblk, hfits, -, -, hpending⟩ := h.temp.of_some hdata
  have hne : p ≠ k.heap.next := Heap.ne_next_of_block hblk
  have hblk' : (k.heap.alloc (resize blk size junk)).block p = some blk := by
    rw [Heap.block_alloc, if_neg hne, hblk]
  obtain ⟨heap, hfree, hblock⟩ := Heap.exists_free hblk'
  have hnext : heap.block k.heap.next = some (resize blk size junk) := by
    rw [hblock, if_neg hne.symm, Heap.block_alloc, if_pos rfl]
  refine ⟨heap, ?_, ?_⟩
  · simp only [Kernel.krealloc, hblk, if_pos hmax, Kernel.kfree, hfree]
    rfl
  refine h.exchangeTemp (fun a ha ↦ ?_) ?_ (fun a ha ↦ ?_) fun a ha ↦ ?_
  · rw [hblock, if_neg (h.ne_temp_of_mem hdata ha), Heap.block_alloc,
      if_neg (h.ne_next_of_mem ha)]
  · refine TempStores.of_block hnext (length_resize _ _ _) hsize hmax ?_
    rw [take_resize hfits hsize, ← hpending]
  · obtain rfl := Option.some.inj ha
    exact h.next_not_mem
  · rw [hblock, Heap.block_alloc]
    rcases eq_or_ne a k.heap.next with rfl | hna
    · rw [if_neg hne.symm, if_pos rfl]
      simp
    · rcases eq_or_ne a p with rfl | hnp
      · rw [if_pos rfl]
        simpa using hna.symm
      · rw [if_neg hnp, if_neg hna, h.live_iff a, or_iff_right ha, hdata]
        simp [hna.symm, hnp.symm]

/-- `copy_from_user` behind the pending bytes, in a buffer with room: they stay as they are, and
what it copied comes behind them. -/
theorem copyFromUser (h : k.Represents s) {a : Addr} (hdata : k.tempBuf.data = some a)
    (buf : UserBuf) (hroom : k.tempBuf.size + buf.count ≤ k.tempBuf.capacity) (uncopied : ℕ) :
    ∃ heap, k.copyFromUser k.tempBuf.data k.tempBuf.size buf uncopied =
        .ok (min uncopied buf.count, { k with heap }) ∧
      ({ k with heap } : Kernel).Represents s ∧
      (min uncopied buf.count = 0 →
        (({ k with heap } : Kernel).setTempSize (k.tempBuf.size + buf.count)).Represents
          ⟨s.committed, s.pending ++ buf.bytes⟩) := by
  obtain ⟨blk, hblk, hfits, hcapacity, hmax, hpending⟩ := h.temp.of_some hdata
  set left := min uncopied buf.count with hleft
  set copied := buf.bytes.take (buf.count - left) ++ List.replicate left 0 with hcopied
  have hlen : copied.length = buf.count := by
    rw [hcopied, List.length_append, List.length_take, List.length_replicate]
    have : buf.bytes.length = buf.count := rfl
    omega
  have hinside : k.tempBuf.size + copied.length ≤ blk.length := by omega
  obtain ⟨heap, hstore, hblock⟩ := Heap.exists_store hblk hinside
  have hblk' : heap.block a = some (overwrite blk k.tempBuf.size copied) := by
    rw [hblock, if_pos rfl]
  have hlen' : (overwrite blk k.tempBuf.size copied).length = blk.length :=
    length_overwrite hinside
  have hnew : ({ k with heap } : Kernel).Represents s := by
    refine h.exchangeTemp (t := k.tempBuf) (fun b hb ↦ ?_) ?_ (fun b hb ↦ h.temp_not_mem hb)
      fun b hb ↦ ?_
    · rw [hblock, if_neg (h.ne_temp_of_mem hdata hb)]
    · show TempStores heap ⟨k.tempBuf.data, k.tempBuf.size, k.tempBuf.capacity⟩ _
      rw [hdata]
      refine TempStores.of_block hblk' (hlen'.trans hcapacity) (by omega) (by omega) ?_
      rw [take_overwrite_of_le hfits (Nat.le_refl _), ← hpending]
    · rw [hblock]
      rcases eq_or_ne b a with rfl | hne
      · rw [if_pos rfl, hdata]
        simp
      · rw [if_neg hne, h.live_iff b, or_iff_right hb]
  refine ⟨heap, ?_, hnew, fun hzero ↦ ?_⟩
  · simp only [Kernel.copyFromUser, Kernel.store, hdata, Option.bind_some, ← hleft, ← hcopied,
      hstore]
    rfl
  · have hall : copied = buf.bytes := by
      rw [hcopied, hzero, List.replicate_zero, List.append_nil, Nat.sub_zero]
      exact List.take_length
    have htake : (overwrite blk k.tempBuf.size copied).take (k.tempBuf.size + buf.count) =
        s.pending ++ buf.bytes := by
      rw [← hlen, take_overwrite hfits, ← hpending, hall]
    rw [← htake]
    exact hnew.setTempSize hdata hblk' (by omega)

/-- Reading the pending bytes. -/
theorem load_pending (h : k.Represents s) {a : Addr} (hdata : k.tempBuf.data = some a) :
    k.load k.tempBuf.data 0 k.tempBuf.size = .ok s.pending := by
  obtain ⟨blk, hblk, hfits, -, -, hpending⟩ := h.temp.of_some hdata
  have hinside : 0 + k.tempBuf.size ≤ blk.length := by omega
  have hload := Heap.load_eq hblk hinside
  rw [List.drop_zero, ← hpending] at hload
  simp only [Kernel.load, hdata, Option.bind_some, hload]

/-- A fresh block for the command, filled from the pending bytes. -/
theorem storeCommand (h : k.Represents s) {o : Option Junk}
    (hgrant : granted k.tempBuf.size o = true) :
    ∃ k₁ heap, k.kmalloc k.tempBuf.size o = (some k.heap.next, k₁) ∧
      k₁.aesdDevice = k.aesdDevice ∧
      k₁.store (some k.heap.next) 0 s.pending = .ok { k with heap } ∧
      ∀ a, heap.block a = if a = k.heap.next then some s.pending else k.heap.block a := by
  obtain ⟨junk, hkmalloc⟩ := Kernel.kmalloc_of_granted (k := k) hgrant
  set fresh := k.heap.alloc (resize [] k.tempBuf.size junk) with hfresh
  have hblk : fresh.block k.heap.next = some (resize [] k.tempBuf.size junk) := by
    rw [hfresh, Heap.block_alloc, if_pos rfl]
  have hlen := h.length_pending
  have hinside : 0 + s.pending.length ≤ (resize [] k.tempBuf.size junk).length := by
    rw [length_resize]
    omega
  obtain ⟨heap, hstore, hblock⟩ := Heap.exists_store hblk hinside
  refine ⟨_, heap, hkmalloc, rfl, ?_, fun a ↦ ?_⟩
  · simp only [Kernel.store, Option.bind_some, hstore]
  · have hfill : overwrite (resize [] k.tempBuf.size junk) 0 s.pending = s.pending := by
      rw [overwrite, List.take_zero, List.nil_append, List.drop_eq_nil_of_le, List.append_nil]
      rw [length_resize]
      omega
    rw [hblock, hfill, hfresh, Heap.block_alloc]
    rcases eq_or_ne a k.heap.next with rfl | hne
    · rw [if_pos rfl, if_pos rfl]
    · rw [if_neg hne, if_neg hne, if_neg hne]

end Kernel.Represents

/-! ### The hand-over to the ring -/

section Commit

variable {k : Kernel} {s : Log Byte} {a : Addr}

/-- How the call ends once the bytes are in the temporary buffer. -/
def commitFate (s : Log Byte) (o : WriteOutcome) : WriteFate :=
  if newline ∈ s.pending then
    if granted s.pending.length o.kmallocCommand = true then .committed else .noCommand
  else .kept

/-- The log after the hand-over. -/
def commitLog (s : Log Byte) : WriteFate → Log Byte
  | .committed => ⟨s.committed ++ [s.pending], []⟩
  | _ => s

/-- `aesd_write` from the search for a newline on. -/
theorem aesdWriteCommit_spec (h : k.Represents s) (hdata : k.tempBuf.data = some a) (count : ℕ)
    (fPos : ℤ) (o : WriteOutcome) :
    ∃ k', aesdWriteCommit k count fPos o = .ok ⟨(commitFate s o).ret count,
        (commitFate s o).fPos fPos count, [], k'⟩ ∧
      k'.Represents (commitLog s (commitFate s o)) ∧ k'.mutex = k.mutex.unlock := by
  have hload := h.load_pending hdata
  have hlen := h.length_pending
  rw [aesdWriteCommit, hload, ok_bind]
  rcases Decidable.em (newline ∈ s.pending) with hmem | hmem
  · rw [if_pos hmem]
    rcases hgrant : granted s.pending.length o.kmallocCommand with - | -
    · have hfate : commitFate s o = .noCommand := by simp [commitFate, hmem, hgrant]
      rw [hlen] at hgrant
      rw [hfate, Kernel.kmalloc_of_not_granted hgrant]
      exact ⟨k.mutexUnlock, rfl, h.setMutex _, rfl⟩
    · have hfate : commitFate s o = .committed := by simp [commitFate, hmem, hgrant]
      rw [hlen] at hgrant
      obtain ⟨k₁, heap, hkmalloc, hdevice, hstore, hheap⟩ := h.storeCommand hgrant
      obtain ⟨k₂, hkfree, hrep, htemp, hmutex⟩ := h.addEntry (Heap.block_next k.heap) hheap
        (hlen ▸ (exists_junk_of_granted hgrant).1)
      refine ⟨(k₂.setTempSize 0).mutexUnlock, ?_, ?_, ?_⟩
      · rw [hlen] at hkfree
        rw [hkmalloc]
        simp only [hstore, ok_bind]
        rw [bind_of_eq_ok hkfree, hfate]
        rfl
      · have hdata₂ : k₂.tempBuf.data = some a := by rw [htemp, hdata]
        obtain ⟨blk, hblk, -⟩ := hrep.temp.of_some hdata₂
        rw [hfate]
        exact (hrep.setTempSize hdata₂ hblk (Nat.zero_le _)).setMutex _
      · show k₂.mutex.unlock = k.mutex.unlock
        rw [hmutex]
  · have hfate : commitFate s o = .kept := by simp [commitFate, hmem]
    rw [hfate, if_neg hmem]
    exact ⟨k.mutexUnlock, rfl, h.setMutex _, rfl⟩

end Commit

/-! ### The whole call -/

section Call

variable {k : Kernel} {s : Log Byte} {a : Addr} {buf : UserBuf} {fPos : ℤ} {o : WriteOutcome}

/-- How the call ends once there is room. -/
def copyFate (s : Log Byte) (buf : UserBuf) (o : WriteOutcome) : WriteFate :=
  if min o.uncopied buf.count = 0 then commitFate ⟨s.committed, s.pending ++ buf.bytes⟩ o
  else .badCopy

theorem commitLog_eq_log (s : Log Byte) (bytes : List Byte) (o : WriteOutcome) :
    commitLog ⟨s.committed, s.pending ++ bytes⟩
        (commitFate ⟨s.committed, s.pending ++ bytes⟩ o) =
      (commitFate ⟨s.committed, s.pending ++ bytes⟩ o).log s bytes := by
  rw [commitFate]
  split
  · split <;> rfl
  · rfl

/-- `aesd_write` from `copy_from_user` on. -/
theorem aesdWriteCopy_spec (h : k.Represents s) (hdata : k.tempBuf.data = some a)
    (hroom : k.tempBuf.size + buf.count ≤ k.tempBuf.capacity) :
    ∃ k', aesdWriteCopy k buf fPos o = .ok ⟨(copyFate s buf o).ret buf.count,
        (copyFate s buf o).fPos fPos buf.count, [], k'⟩ ∧
      k'.Represents ((copyFate s buf o).log s buf.bytes) ∧ k'.mutex = k.mutex.unlock := by
  have hlt : k.tempBuf.size + buf.count < 2 ^ 64 :=
    Nat.lt_of_le_of_lt (hroom.trans h.temp.capacity_le) (by decide)
  obtain ⟨heap, hcopy, hkeep, hcopied⟩ := h.copyFromUser hdata buf hroom o.uncopied
  rw [aesdWriteCopy, hcopy, ok_bind]
  rcases Nat.eq_zero_or_pos (min o.uncopied buf.count) with hzero | hpos
  · have hfate : copyFate s buf o = commitFate ⟨s.committed, s.pending ++ buf.bytes⟩ o :=
      if_pos hzero
    have hsize : ({ k with heap } : Kernel).tempBuf.size + buf.count < 2 ^ 64 := hlt
    obtain ⟨k', hcommit, hrep, hmutex⟩ := aesdWriteCommit_spec (hcopied hzero) hdata
      buf.count fPos o
    rw [commitLog_eq_log] at hrep
    refine ⟨k', ?_, hfate ▸ hrep, hmutex⟩
    simp only [hzero, ne_eq, not_true_eq_false, if_false]
    rw [sizeT_of_lt hsize, hfate]
    exact hcommit
  · have hfate : copyFate s buf o = .badCopy := if_neg (by omega)
    obtain ⟨blk, hblk, -⟩ := hkeep.temp.of_some hdata
    rw [hfate]
    refine ⟨(({ k with heap } : Kernel).setTempSize 0).mutexUnlock, if_pos (by omega), ?_, rfl⟩
    exact (hkeep.setTempSize hdata hblk (Nat.zero_le _)).setMutex _

/-- The fate of a call, in terms of the log. -/
theorem writeFate_eq (h : k.Represents s) :
    k.writeFate buf o = if k.roomFor buf.count o = true then copyFate s buf o else .noRoom := by
  have hlen : (s.pending ++ buf.bytes).length = k.tempBuf.size + buf.count := by
    rw [List.length_append, h.length_pending]
    rfl
  rw [Kernel.writeFate, copyFate, commitFate, h.pending_eq, hlen]

/-- `krealloc` refuses: nothing changes. -/
theorem Kernel.krealloc_of_not_granted {p : Addr} {size : ℕ} {o : Option Junk}
    {blk : List Byte} (hblk : k.heap.block p = some blk) (h : granted size o = false) :
    k.krealloc p size o = .ok (none, k) := by
  rcases o with - | junk
  · simp only [Kernel.krealloc, hblk]
  · have hsize : ¬ size ≤ kmallocMaxSize := by simpa [granted] using h
    simp only [Kernel.krealloc, hblk, if_neg hsize]

namespace Kernel.Represents

/-- No sum of sizes exceeds a `size_t`: the buffer and the call are far below its limits. -/
theorem no_wrap (h : k.Represents s) (buf : UserBuf) :
    sizeT (buf.count + 50) = buf.count + 50 ∧
      sizeT (k.tempBuf.size + buf.count) = k.tempBuf.size + buf.count ∧
      sizeT (k.tempBuf.size + buf.count + 50) = k.tempBuf.size + buf.count + 50 := by
  have hcount : buf.count ≤ maxRwCount := buf.le
  have hmax : kmallocMaxSize + maxRwCount + 50 < 2 ^ 64 := by decide
  have hsize := h.temp.size_le
  have hcapacity := h.temp.capacity_le
  exact ⟨sizeT_of_lt (by omega), sizeT_of_lt (by omega), sizeT_of_lt (by omega)⟩

/-- `aesd_write` gets no room: nothing has changed. -/
theorem makeRoom_of_not_roomFor (h : k.Represents s) (hroom : k.roomFor buf.count o = false) :
    k.makeRoom buf.count o = .ok (false, k) := by
  obtain ⟨hwrap, hwrap', hwrap''⟩ := h.no_wrap buf
  rw [Kernel.roomFor] at hroom
  rw [Kernel.makeRoom]
  rcases hdata : k.tempBuf.data with - | data
  · simp only [hdata] at hroom
    simp only [hwrap, Kernel.kmalloc_of_not_granted hroom]
    rfl
  · simp only [hdata, Bool.or_eq_false_iff, decide_eq_false_iff_not, not_le] at hroom
    obtain ⟨blk, hblk, -⟩ := h.temp.of_some hdata
    simp only [hwrap', hwrap'', if_pos hroom.1, Kernel.krealloc_of_not_granted hblk hroom.2]
    rfl

/-- `aesd_write` gets room: the bytes fit behind the pending ones, which are as they were. -/
theorem exists_makeRoom (h : k.Represents s) (hroom : k.roomFor buf.count o = true) :
    ∃ a k', k.makeRoom buf.count o = .ok (true, k') ∧ k'.Represents s ∧
      k'.tempBuf.data = some a ∧ k'.tempBuf.size + buf.count ≤ k'.tempBuf.capacity ∧
      k'.mutex = k.mutex := by
  obtain ⟨hwrap, hwrap', hwrap''⟩ := h.no_wrap buf
  rw [Kernel.roomFor] at hroom
  rw [Kernel.makeRoom]
  rcases hdata : k.tempBuf.data with - | data
  · -- the first buffer
    simp only [hdata] at hroom
    obtain ⟨junk, hkmalloc⟩ := Kernel.kmalloc_of_granted (k := k) hroom
    have hrep := h.kmallocTemp hdata (exists_junk_of_granted hroom).1 junk
    simp only [hwrap, hkmalloc]
    refine ⟨_, _, rfl, hrep, rfl, ?_, rfl⟩
    show 0 + buf.count ≤ buf.count + 50
    omega
  · simp only [hwrap', hwrap'']
    rcases Nat.lt_or_ge k.tempBuf.capacity (k.tempBuf.size + buf.count) with hshort | hfits
    · -- a larger buffer
      simp only [hdata, Bool.or_eq_true, decide_eq_true_iff, Nat.not_le.2 hshort, false_or]
        at hroom
      obtain ⟨heap, hkrealloc, hrep⟩ := h.krealloc hdata hroom (by omega)
      rw [if_pos hshort, hkrealloc]
      refine ⟨_, _, rfl, hrep, rfl, ?_, rfl⟩
      show k.tempBuf.size + buf.count ≤ k.tempBuf.size + buf.count + 50
      omega
    · -- the buffer there is
      rw [if_neg (by omega)]
      exact ⟨data, k, rfl, h, hdata, hfits, rfl⟩

theorem roomFor_of_makeRoom (h : k.Represents s) {k' : Kernel}
    (hmake : k.makeRoom buf.count o = .ok (true, k')) : k.roomFor buf.count o = true := by
  rcases hroom : k.roomFor buf.count o with - | -
  · rw [h.makeRoom_of_not_roomFor hroom] at hmake
    exact absurd (Prod.mk.inj (Except.ok.inj hmake)).1 Bool.false_ne_true
  · rfl

end Kernel.Represents

/-- `aesd_write` under the mutex. -/
theorem aesdWriteLocked_spec (h : k.Represents s) :
    ∃ k', aesdWriteLocked k buf fPos o = .ok ⟨(k.writeFate buf o).ret buf.count,
        (k.writeFate buf o).fPos fPos buf.count, [], k'⟩ ∧
      k'.Represents ((k.writeFate buf o).log s buf.bytes) ∧ k'.mutex = k.mutex.unlock := by
  rw [aesdWriteLocked, writeFate_eq h]
  rcases hroom : k.roomFor buf.count o with - | -
  · rw [h.makeRoom_of_not_roomFor hroom, if_neg Bool.false_ne_true]
    exact ⟨k.mutexUnlock, rfl, h.setMutex _, rfl⟩
  · obtain ⟨a, k₁, hmake, hrep, hdata, hfits, hmutex⟩ := h.exists_makeRoom hroom
    rw [hmake, if_pos rfl, ← hmutex]
    exact aesdWriteCopy_spec hrep hdata hfits

/-- **What a call of `aesd_write` does**: it returns, the device goes on representing a log, and
the mutex was locked and unlocked once. -/
theorem aesdWrite_spec (h : k.Represents s) (hfree : k.mutex.held = false) {filp : File}
    (hopen : filp.privateData = some .aesdDevice) (buf : UserBuf) (fPos : ℤ) (o : WriteOutcome) :
    ∃ k', aesdWrite k filp buf fPos o = .ok ⟨(k.writeFate buf o).ret buf.count,
        (k.writeFate buf o).fPos fPos buf.count, [], k'⟩ ∧
      k'.Represents ((k.writeFate buf o).log s buf.bytes) ∧
      k'.mutex = ⟨false, k.mutex.locks + 1, k.mutex.unlocks + 1⟩ := by
  have hdev : filp.dev = .ok .aesdDevice := by rw [File.dev, hopen]
  rw [aesdWrite, hdev, ok_bind, Kernel.mutexLock_of_free hfree, ok_bind]
  exact aesdWriteLocked_spec (h.setMutex _)

end Call

end Aesd
