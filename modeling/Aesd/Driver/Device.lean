import Aesd.Foundation.Memory
import Aesd.Driver.CircularBuffer

/-!
# The device and its file operations

The data of `aesdchar.h` and the file operations of the driver's `main.c`, each as a function from
the state of the kernel to a reply. What the code does not decide is an argument: whether an
allocation is granted and what fresh memory holds, and how many bytes a copy from or to user memory
leaves uncopied. An operation that cannot return is an error: it waits for a mutex nobody will
release (`Stop.blocked`), or it touches memory that is `NULL`, retired or too short
(`Stop.fault`).

Two fields are not in the source and are never read by the code: the counts of `Mutex`, which say
how often the mutex was locked and unlocked, and `Kernel.committed`, which records what every entry
ever added to the ring held.

Left out: `cdev` and its registration, and the debug messages.
-/

namespace Aesd

open Memory

abbrev Byte := UInt8

/-- `'\n'`. -/
def newline : Byte := 10

/-! ### Kernel services -/

/-- Why a call does not return. -/
inductive Stop
  /-- It waits for a mutex that is held. -/
  | blocked
  /-- It uses memory it must not use. -/
  | fault
deriving DecidableEq, Repr

/-- `struct mutex`, with the number of times it was locked and unlocked. -/
structure Mutex where
  held : Bool
  locks : ℕ
  unlocks : ℕ
deriving DecidableEq, Repr

/-- `mutex_lock`. -/
def Mutex.lock (m : Mutex) : Except Stop Mutex :=
  if m.held then .error .blocked else .ok { m with held := true, locks := m.locks + 1 }

/-- `mutex_unlock`. -/
def Mutex.unlock (m : Mutex) : Mutex :=
  { m with held := false, unlocks := m.unlocks + 1 }

/-- The contents of memory nobody has written yet, by offset. -/
abbrev Junk := ℕ → Byte

/-- No allocation larger than this is granted; far above the limit of any kernel. -/
def kmallocMaxSize : ℕ := 2 ^ 62

/-- Whether the allocator grants `size` bytes: `none` is its refusal, and it cannot grant more
than the limit. -/
def granted (size : ℕ) (o : Option Junk) : Bool :=
  o.isSome && decide (size ≤ kmallocMaxSize)

/-- The most bytes one `read` or `write` passes to a driver, `MAX_RW_COUNT`. -/
def maxRwCount : ℕ := 0x7ffff000

/-- A user buffer as the kernel hands it to `aesd_write`: never longer than `MAX_RW_COUNT`. -/
structure UserBuf where
  bytes : List Byte
  le : bytes.length ≤ maxRwCount

/-- The call's `count`. -/
def UserBuf.count (buf : UserBuf) : ℕ := buf.bytes.length

def EFAULT : ℤ := 14
def ENOMEM : ℤ := 12
def EINVAL : ℤ := 22
def ENOTTY : ℤ := 25
def EBADF : ℤ := 9

/-- A value stored in an `loff_t`. -/
def loffT (x : ℤ) : ℤ :=
  Int.bmod x (2 ^ 64)

/-! ### The data of the driver -/

/-- `struct temp_buffer`. -/
structure TempBuffer where
  data : Option Addr
  size : ℕ
  capacity : ℕ
deriving DecidableEq, Repr

/-- `struct aesd_dev`. -/
structure AesdDev where
  aesdCBMutex : Mutex
  aesdWriteBuffer : AesdCircularBuffer
  tempBuf : TempBuffer
deriving DecidableEq, Repr

/-- `struct aesd_seekto`. -/
structure AesdSeekto where
  /-- The zero referenced write command to seek into. -/
  writeCmd : UInt32
  /-- The zero referenced offset within the write. -/
  writeCmdOffset : UInt32
deriving DecidableEq, Repr

/-- What `private_data` of an open file points to: there is one device. -/
inductive DevPtr
  | aesdDevice
deriving DecidableEq, Repr

/-- `struct file`. -/
structure File where
  privateData : Option DevPtr
  fPos : ℤ
deriving DecidableEq, Repr

/-- `dev = filp->private_data`, to be dereferenced. -/
def File.dev (filp : File) : Except Stop DevPtr :=
  match filp.privateData with
  | some dev => .ok dev
  | none => .error .fault

/-- The memory of the kernel and the one device, `aesd_device`. -/
structure Kernel where
  heap : Heap Byte
  aesdDevice : AesdDev
  /-- The contents of every entry ever added to the ring, in order. -/
  committed : List (List Byte)
deriving DecidableEq, Repr

namespace Kernel

variable (k : Kernel)

abbrev mutex : Mutex := k.aesdDevice.aesdCBMutex
abbrev ring : AesdCircularBuffer := k.aesdDevice.aesdWriteBuffer
abbrev tempBuf : TempBuffer := k.aesdDevice.tempBuf

def setMutex (m : Mutex) : Kernel :=
  { k with aesdDevice := { k.aesdDevice with aesdCBMutex := m } }

def setTempBuf (t : TempBuffer) : Kernel :=
  { k with aesdDevice := { k.aesdDevice with tempBuf := t } }

def setRing (ring : AesdCircularBuffer) : Kernel :=
  { k with aesdDevice := { k.aesdDevice with aesdWriteBuffer := ring } }

/-- `dev->temp_buf.size = size`. -/
def setTempSize (size : ℕ) : Kernel :=
  k.setTempBuf { k.tempBuf with size }

/-- The ring after an entry that holds `cmd` was added. -/
def commitRing (ring : AesdCircularBuffer) (cmd : List Byte) : Kernel :=
  { k with
    aesdDevice := { k.aesdDevice with aesdWriteBuffer := ring }
    committed := k.committed ++ [cmd] }

/-- `mutex_lock(&dev->aesd_CB_mutex)`. -/
def mutexLock : Except Stop Kernel := do
  return k.setMutex (← k.mutex.lock)

/-- `mutex_unlock(&dev->aesd_CB_mutex)`. -/
def mutexUnlock : Kernel :=
  k.setMutex k.mutex.unlock

/-- `kmalloc`. -/
def kmalloc (size : ℕ) (o : Option Junk) : Option Addr × Kernel :=
  match o with
  | some junk =>
    if size ≤ kmallocMaxSize then
      (some k.heap.next, { k with heap := k.heap.alloc (resize [] size junk) })
    else
      (none, k)
  | none => (none, k)

/-- `kfree`. -/
def kfree (p : Option Addr) : Except Stop Kernel :=
  match p with
  | none => .ok k
  | some a =>
    match k.heap.free a with
    | some heap => .ok { k with heap }
    | none => .error .fault

/-- `krealloc`: a fresh block with the old contents, or `NULL` and the old block as it was. -/
def krealloc (p : Addr) (size : ℕ) (o : Option Junk) : Except Stop (Option Addr × Kernel) :=
  match k.heap.block p, o with
  | none, _ => .error .fault
  | some _, none => .ok (none, k)
  | some blk, some junk =>
    if size ≤ kmallocMaxSize then do
      let fresh := k.heap.next
      let k ← { k with heap := k.heap.alloc (resize blk size junk) }.kfree (some p)
      return (some fresh, k)
    else
      .ok (none, k)

/-- Read `len` bytes at `p + off`. -/
def load (p : Option Addr) (off len : ℕ) : Except Stop (List Byte) :=
  match p.bind fun a ↦ k.heap.load a off len with
  | some bytes => .ok bytes
  | none => .error .fault

/-- Write `bytes` at `p + off`. -/
def store (p : Option Addr) (off : ℕ) (bytes : List Byte) : Except Stop Kernel :=
  match p.bind fun a ↦ k.heap.store a off bytes with
  | some heap => .ok { k with heap }
  | none => .error .fault

/-- `copy_from_user(p + off, buf, count)`: how many bytes it could not copy. The kernel clears
what it could not copy. -/
def copyFromUser (p : Option Addr) (off : ℕ) (buf : UserBuf) (uncopied : ℕ) :
    Except Stop (ℕ × Kernel) := do
  let left := min uncopied buf.count
  let k ← k.store p off (buf.bytes.take (buf.count - left) ++ List.replicate left 0)
  return (left, k)

end Kernel

/-- What a file operation returns, where it leaves `*f_pos`, what it copied to the user's buffer
and the state after it. -/
structure Reply where
  ret : ℤ
  fPos : ℤ
  data : List Byte
  kernel : Kernel
deriving DecidableEq, Repr

/-! ### The file operations -/

/-- `aesd_open`. -/
def aesdOpen (filp : File) : ℤ × File :=
  (0, { filp with privateData := some .aesdDevice })

/-- `aesd_release`. -/
def aesdRelease (filp : File) : ℤ × File :=
  (0, { filp with privateData := none })

/-- `aesd_read`. The sum in `*f_pos` does not wrap: a call whose position and count exceed a
`loff_t` is refused before it gets to the driver (`rw_verify_area`). -/
def aesdRead (k : Kernel) (filp : File) (count uncopied : ℕ) (fPos : ℤ) : Except Stop Reply := do
  let _dev ← filp.dev
  let k ← k.mutexLock
  match aesdCircularBufferFindEntryOffsetForFpos k.ring (fPos % 2 ^ 64).toNat 0 with
  | (none, _) => return ⟨0, fPos, [], k.mutexUnlock⟩
  | (some i, readOffset) =>
    let startReadBuffer := k.ring.slot i
    let bytesAvailable := sizeT (startReadBuffer.size + 2 ^ 64 - readOffset)
    let bytesToCopy := min count bytesAvailable
    let data ← k.load startReadBuffer.buffptr readOffset bytesToCopy
    if min uncopied bytesToCopy ≠ 0 then
      return ⟨-EFAULT, fPos, [], k.mutexUnlock⟩
    else
      return ⟨bytesToCopy, fPos + bytesToCopy, data, k.mutexUnlock⟩

/-- What the services that `aesd_write` calls do: the `kmalloc` of the temporary buffer, its
`krealloc`, `copy_from_user` (the bytes left uncopied) and the `kmalloc` of `command_data`. -/
structure WriteOutcome where
  kmallocTemp : Option Junk
  krealloc : Option Junk
  uncopied : ℕ
  kmallocCommand : Option Junk

/-- `aesd_write` from the search for a newline on. -/
def aesdWriteCommit (k : Kernel) (count : ℕ) (fPos : ℤ) (o : WriteOutcome) :
    Except Stop Reply := do
  let pending ← k.load k.tempBuf.data 0 k.tempBuf.size
  if newline ∈ pending then
    match k.kmalloc k.tempBuf.size o.kmallocCommand with
    | (none, k) => return ⟨-ENOMEM, fPos, [], k.mutexUnlock⟩
    | (some commandData, k) =>
      let k ← k.store (some commandData) 0 pending
      let (oldEntry, ring) :=
        aesdCircularBufferAddEntry k.ring ⟨some commandData, k.tempBuf.size⟩
      let k ← (k.commitRing ring pending).kfree oldEntry
      return ⟨count, fPos + count, [], (k.setTempSize 0).mutexUnlock⟩
  else
    return ⟨count, fPos + count, [], k.mutexUnlock⟩

/-- `aesd_write` from `copy_from_user` on. -/
def aesdWriteCopy (k : Kernel) (buf : UserBuf) (fPos : ℤ) (o : WriteOutcome) :
    Except Stop Reply := do
  let (left, k) ← k.copyFromUser k.tempBuf.data k.tempBuf.size buf o.uncopied
  if left ≠ 0 then
    return ⟨-EFAULT, fPos, [], (k.setTempSize 0).mutexUnlock⟩
  else
    aesdWriteCommit (k.setTempSize (sizeT (k.tempBuf.size + buf.count))) buf.count fPos o

/-- `aesd_write` under the mutex, up to `copy_from_user`: whether the temporary buffer has room, and
the kernel then. -/
def Kernel.makeRoom (k : Kernel) (count : ℕ) (o : WriteOutcome) : Except Stop (Bool × Kernel) := do
  match k.tempBuf.data with
  | none =>
    match k.kmalloc (sizeT (count + 50)) o.kmallocTemp with
    | (none, k) => return (false, k)
    | (some data, k) => return (true, k.setTempBuf ⟨some data, 0, sizeT (count + 50)⟩)
  | some data =>
    if k.tempBuf.capacity < sizeT (k.tempBuf.size + count) then
      let newCapacity := sizeT (k.tempBuf.size + count + 50)
      match ← k.krealloc data newCapacity o.krealloc with
      | (none, k) => return (false, k)
      | (some newData, k) => return (true, k.setTempBuf ⟨some newData, k.tempBuf.size, newCapacity⟩)
    else
      return (true, k)

/-- `aesd_write` under the mutex. -/
def aesdWriteLocked (k : Kernel) (buf : UserBuf) (fPos : ℤ) (o : WriteOutcome) :
    Except Stop Reply := do
  let (room, k) ← k.makeRoom buf.count o
  if room then aesdWriteCopy k buf fPos o
  else return ⟨-ENOMEM, fPos, [], k.mutexUnlock⟩

/-- `aesd_write`; `*f_pos` does not wrap, as for `aesd_read`. -/
def aesdWrite (k : Kernel) (filp : File) (buf : UserBuf) (fPos : ℤ) (o : WriteOutcome) :
    Except Stop Reply := do
  let _dev ← filp.dev
  let k ← k.mutexLock
  aesdWriteLocked k buf fPos o

/-- `aesd_llseek`, over the kernel's `fixed_size_llseek`: from the file's position, the offset,
`whence` and the size it computes the return value and the new position. -/
def aesdLlseek (fixedSizeLlseek : ℤ → ℤ → ℤ → ℤ → ℤ × ℤ) (k : Kernel) (file : File)
    (offset whence : ℤ) : Except Stop Reply := do
  let _dev ← file.dev
  let k ← k.mutexLock
  let totalSize := loffT (aesdCircularBufferTotalSize k.ring)
  let k := k.mutexUnlock
  let (ret, fPos) := fixedSizeLlseek file.fPos offset whence totalSize
  return ⟨ret, fPos, [], k⟩

/-- `AESDCHAR_IOCSEEKTO`, that is `_IOWR(0x16, 1, struct aesd_seekto)`. -/
def aesdcharIocseekto : ℕ := 0xc0081601

/-- `aesd_unlocked_ioctl`. `arg` points to `seekto` in user memory, of which `copy_from_user` leaves
`uncopied` bytes uncopied. The position it sets is `filp->f_pos`. -/
def aesdUnlockedIoctl (k : Kernel) (filp : File) (cmd : ℕ) (seekto : AesdSeekto)
    (uncopied : ℕ) : Except Stop Reply := do
  let _dev ← filp.dev
  if cmd = aesdcharIocseekto then
    if min uncopied 8 ≠ 0 then
      return ⟨-EFAULT, filp.fPos, [], k⟩
    else
      let k ← k.mutexLock
      if seekto.writeCmd.toNat ≥ aesdCircularBufferSize k.ring then
        return ⟨-EINVAL, filp.fPos, [], k⟩
      else
        let actualIndex := (k.ring.outOffs + seekto.writeCmd.toNat) % maxWriteOperationsSupported
        if seekto.writeCmdOffset.toNat ≥ (k.ring.slot actualIndex).size then
          return ⟨-EINVAL, filp.fPos, [], k⟩
        else
          let newFPos := (List.range seekto.writeCmd.toNat).foldl (fun pos i ↦
            loffT (pos +
              (k.ring.slot ((k.ring.outOffs + i) % maxWriteOperationsSupported)).size)) 0
          let k := k.mutexUnlock
          let newFPos := loffT (newFPos + seekto.writeCmdOffset.toNat)
          return ⟨0, newFPos, [], k⟩
  else
    return ⟨-ENOTTY, filp.fPos, [], k⟩

/-! ### The module -/

/-- The device and the memory that `aesd_init_module` sets up. -/
def aesdInitModule : Kernel where
  heap := Heap.empty
  aesdDevice :=
    { aesdCBMutex := ⟨false, 0, 0⟩
      aesdWriteBuffer := aesdCircularBufferInit
      tempBuf := ⟨none, 0, 0⟩ }
  committed := []

/-- The body of the loop of `aesd_cleanup_module`, at the slot `i`. -/
def cleanupSlot (k : Kernel) (i : ℕ) : Except Stop Kernel :=
  match (k.ring.slot i).buffptr with
  | none => return k
  | some buffptr => do
    let k ← k.kfree (some buffptr)
    return k.setRing (k.ring.setSlot i ⟨none, 0⟩)

/-- What `aesd_cleanup_module` does to the temporary buffer. -/
def cleanupTempBuf (k : Kernel) : Except Stop Kernel :=
  match k.tempBuf.data with
  | none => return k
  | some data => do
    let k ← k.kfree (some data)
    return k.setTempBuf ⟨none, 0, 0⟩

/-- `aesd_cleanup_module`. It takes no mutex. -/
def aesdCleanupModule (k : Kernel) : Except Stop Kernel := do
  let k ← cleanupTempBuf k
  (List.range maxWriteOperationsSupported).foldlM cleanupSlot k

end Aesd
