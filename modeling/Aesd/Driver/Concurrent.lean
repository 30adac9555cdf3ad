import Aesd.Driver.Pending
import Aesd.Foundation.Linearization

/-!
# The driver, statement by statement

Processes call the driver at the same time, each on an open file of its own. `Place` is where a call
is in `aesd_read`, `aesd_write`, `aesd_llseek` or `aesd_unlocked_ioctl`, with its variables where it
still needs them, and `Place.micro` is the next statement. A call of a function of the ring, of the
allocator or of a copy is one statement, and so is an assignment together with the test before it.
The loop over the entries in `aesd_unlocked_ioctl` takes one statement for each entry.

`open` and `close` of a file, and a call on a file that is not open, do nothing to the device: they
return at once (`Place.answer`).

The pieces put together are the operations of `Driver/Device.lean` (`rest_enter`): a call that
nobody interrupts does what `aesdRead`, `aesdWrite`, `aesdLlseek` or `aesdUnlockedIoctl` does.

## Which part of a call is inside the mutex

Each call is outside the mutex, then inside, then outside for good (`Place.phase`). Before it locks
the mutex it looks at its own file and arguments only, and afterwards it touches nothing but the
position of its own file: `fixed_size_llseek` runs after the unlock, with the size that was read
under the mutex. What the two errors of `AESDCHAR_IOCSEEKTO` return with is the mutex still held, so
that they end a call from inside it.

`Place.rank` goes down with each statement, the loop of the command included, so a call that is not
kept waiting returns after finitely many statements.
-/

namespace Aesd

open Memory Framing Execution Linearization

/-- A call of a process on its open file, with what the services inside it do. -/
inductive Syscall
  | openFile
  | release
  | read (count uncopied : ℕ)
  | write (buf : UserBuf) (o : WriteOutcome)
  | llseek (offset whence : ℤ)
  | ioctl (cmd : ℕ) (seekto : AesdSeekto) (uncopied : ℕ)

/-- The call on the open file `f`. -/
def Syscall.op (f : ℕ) : Syscall → Op
  | .openFile => .openFile f
  | .release => .release f
  | .read count uncopied => .read f count uncopied
  | .write buf o => .write f buf o
  | .llseek offset whence => .llseek f offset whence
  | .ioctl cmd seekto uncopied => .ioctl f cmd seekto uncopied

/-- Where a call is. -/
inductive Place
  /-- It returns, and has not locked the mutex. -/
  | answer (a : Answer) (own : Option File)
  /-- `mutex_lock` in `aesd_read`. -/
  | readLock (filp : File) (count uncopied : ℕ)
  /-- `aesd_circular_buffer_find_entry_offset_for_fpos`. -/
  | readFind (filp : File) (count uncopied : ℕ)
  /-- `copy_to_user`, from the entry that was found. -/
  | readCopy (filp : File) (count uncopied i readOffset : ℕ)
  /-- `mutex_lock` in `aesd_write`. -/
  | writeLock (filp : File) (buf : UserBuf) (o : WriteOutcome)
  /-- Whether the temporary buffer is there, and large enough. -/
  | writeRoom (filp : File) (buf : UserBuf) (o : WriteOutcome)
  /-- `kmalloc` of the temporary buffer. -/
  | writeFirst (filp : File) (buf : UserBuf) (o : WriteOutcome)
  /-- `krealloc` of the temporary buffer. -/
  | writeGrow (filp : File) (buf : UserBuf) (o : WriteOutcome)
  /-- `copy_from_user`, behind what is pending. -/
  | writeCopy (filp : File) (buf : UserBuf) (o : WriteOutcome)
  /-- The size of what is pending. -/
  | writeCount (filp : File) (buf : UserBuf) (o : WriteOutcome)
  /-- `memchr`: whether a command is complete. -/
  | writeSearch (filp : File) (buf : UserBuf) (o : WriteOutcome)
  /-- `kmalloc` of the command. -/
  | writeCommand (filp : File) (buf : UserBuf) (o : WriteOutcome)
  /-- `memcpy` of the pending bytes into the command. -/
  | writeFill (filp : File) (buf : UserBuf) (commandData : Addr)
  /-- `aesd_circular_buffer_add_entry`. `cmd` is what `memcpy` has copied; it goes to the record of
  the entries only. -/
  | writeAdd (filp : File) (buf : UserBuf) (commandData : Addr) (cmd : List Byte)
  /-- `kfree` of what the ring has handed back. -/
  | writeFree (filp : File) (buf : UserBuf) (oldEntry : Option Addr)
  /-- Nothing is pending any more. -/
  | writeReset (filp : File) (buf : UserBuf)
  /-- `mutex_lock` in `aesd_llseek`. -/
  | llseekLock (filp : File) (offset whence : ℤ)
  /-- `aesd_circular_buffer_total_size`. -/
  | llseekSize (filp : File) (offset whence : ℤ)
  /-- `mutex_unlock` in `aesd_llseek`, before the position is moved. -/
  | llseekUnlock (filp : File) (offset whence totalSize : ℤ)
  /-- `fixed_size_llseek`. -/
  | llseekMove (filp : File) (offset whence totalSize : ℤ)
  /-- The command of `aesd_unlocked_ioctl`. -/
  | ioctlCommand (filp : File) (cmd : ℕ) (seekto : AesdSeekto) (uncopied : ℕ)
  /-- `copy_from_user` of the argument. -/
  | ioctlArgument (filp : File) (seekto : AesdSeekto) (uncopied : ℕ)
  /-- `mutex_lock` in `aesd_unlocked_ioctl`. -/
  | ioctlLock (filp : File) (seekto : AesdSeekto)
  /-- The test of `write_cmd`. -/
  | ioctlIndex (filp : File) (seekto : AesdSeekto)
  /-- The test of `write_cmd_offset`. -/
  | ioctlOffset (filp : File) (seekto : AesdSeekto)
  /-- The loop over the entries before the one that is meant, at entry `i`. -/
  | ioctlSum (filp : File) (seekto : AesdSeekto) (i : ℕ) (newFPos : ℤ)
  /-- `mutex_unlock` in `aesd_unlocked_ioctl`. -/
  | ioctlUnlock (filp : File) (seekto : AesdSeekto) (newFPos : ℤ)
  /-- The assignment of `f_pos`. -/
  | ioctlSet (filp : File) (seekto : AesdSeekto) (newFPos : ℤ)
  /-- It unlocks the mutex before it returns. -/
  | unlock (filp : File) (ret fPos : ℤ) (data : List Byte)
  /-- It returns. -/
  | leave (filp : File) (ret fPos : ℤ) (data : List Byte)

/-- The first place of a call. The kernel does not come to the driver with a file that is not open,
and it opens none that is. -/
def Syscall.enter (own : Option File) (c : Syscall) : Place :=
  match own, c with
  | none, .openFile => .answer ⟨(aesdOpen ⟨none, 0⟩).1, []⟩ (some (aesdOpen ⟨none, 0⟩).2)
  | some filp, .openFile => .answer ⟨-EBADF, []⟩ (some filp)
  | some filp, .release => .answer ⟨(aesdRelease filp).1, []⟩ none
  | some filp, .read count uncopied => .readLock filp count uncopied
  | some filp, .write buf o => .writeLock filp buf o
  | some filp, .llseek offset whence => .llseekLock filp offset whence
  | some filp, .ioctl cmd seekto uncopied => .ioctlCommand filp cmd seekto uncopied
  | none, _ => .answer ⟨-EBADF, []⟩ none

/-- The next statement, with the mutex and the data of the device as it finds them. -/
def Place.micro (fixedSizeLlseek : ℤ → ℤ → ℤ → ℤ → ℤ × ℤ) (k : Kernel) :
    Place → Except Stop (Kernel × (Place ⊕ (Answer × Option File)))
  | .answer a own => return (k, .inr (a, own))
  | .readLock filp count uncopied => do
    let _dev ← filp.dev
    let k ← k.mutexLock
    return (k, .inl (.readFind filp count uncopied))
  | .readFind filp count uncopied =>
    match aesdCircularBufferFindEntryOffsetForFpos k.ring (filp.fPos % 2 ^ 64).toNat 0 with
    | (none, _) => return (k, .inl (.unlock filp 0 filp.fPos []))
    | (some i, readOffset) => return (k, .inl (.readCopy filp count uncopied i readOffset))
  | .readCopy filp count uncopied i readOffset => do
    let startReadBuffer := k.ring.slot i
    let bytesAvailable := sizeT (startReadBuffer.size + 2 ^ 64 - readOffset)
    let bytesToCopy := min count bytesAvailable
    let data ← k.load startReadBuffer.buffptr readOffset bytesToCopy
    if min uncopied bytesToCopy ≠ 0 then
      return (k, .inl (.unlock filp (-EFAULT) filp.fPos []))
    else
      return (k, .inl (.unlock filp bytesToCopy (filp.fPos + bytesToCopy) data))
  | .writeLock filp buf o => do
    let _dev ← filp.dev
    let k ← k.mutexLock
    return (k, .inl (.writeRoom filp buf o))
  | .writeRoom filp buf o =>
    match k.tempBuf.data with
    | none => return (k, .inl (.writeFirst filp buf o))
    | some _ =>
      if k.tempBuf.capacity < sizeT (k.tempBuf.size + buf.count) then
        return (k, .inl (.writeGrow filp buf o))
      else
        return (k, .inl (.writeCopy filp buf o))
  | .writeFirst filp buf o =>
    match k.kmalloc (sizeT (buf.count + 50)) o.kmallocTemp with
    | (none, k) => return (k, .inl (.unlock filp (-ENOMEM) filp.fPos []))
    | (some data, k) =>
      return (k.setTempBuf ⟨some data, 0, sizeT (buf.count + 50)⟩, .inl (.writeCopy filp buf o))
  | .writeGrow filp buf o =>
    match k.tempBuf.data with
    | none => .error .fault
    | some data => do
      let newCapacity := sizeT (k.tempBuf.size + buf.count + 50)
      match ← k.krealloc data newCapacity o.krealloc with
      | (none, k) => return (k, .inl (.unlock filp (-ENOMEM) filp.fPos []))
      | (some newData, k) =>
        return (k.setTempBuf ⟨some newData, k.tempBuf.size, newCapacity⟩,
          .inl (.writeCopy filp buf o))
  | .writeCopy filp buf o => do
    let (left, k) ← k.copyFromUser k.tempBuf.data k.tempBuf.size buf o.uncopied
    if left ≠ 0 then
      return (k.setTempSize 0, .inl (.unlock filp (-EFAULT) filp.fPos []))
    else
      return (k, .inl (.writeCount filp buf o))
  | .writeCount filp buf o =>
    return (k.setTempSize (sizeT (k.tempBuf.size + buf.count)), .inl (.writeSearch filp buf o))
  | .writeSearch filp buf o => do
    let pending ← k.load k.tempBuf.data 0 k.tempBuf.size
    if newline ∈ pending then
      return (k, .inl (.writeCommand filp buf o))
    else
      return (k, .inl (.unlock filp buf.count (filp.fPos + buf.count) []))
  | .writeCommand filp buf o =>
    match k.kmalloc k.tempBuf.size o.kmallocCommand with
    | (none, k) => return (k, .inl (.unlock filp (-ENOMEM) filp.fPos []))
    | (some commandData, k) => return (k, .inl (.writeFill filp buf commandData))
  | .writeFill filp buf commandData => do
    let cmd ← k.load k.tempBuf.data 0 k.tempBuf.size
    let k ← k.store (some commandData) 0 cmd
    return (k, .inl (.writeAdd filp buf commandData cmd))
  | .writeAdd filp buf commandData cmd =>
    let (oldEntry, ring) := aesdCircularBufferAddEntry k.ring ⟨some commandData, k.tempBuf.size⟩
    return (k.commitRing ring cmd, .inl (.writeFree filp buf oldEntry))
  | .writeFree filp buf oldEntry => do
    let k ← k.kfree oldEntry
    return (k, .inl (.writeReset filp buf))
  | .writeReset filp buf =>
    return (k.setTempSize 0, .inl (.unlock filp buf.count (filp.fPos + buf.count) []))
  | .llseekLock filp offset whence => do
    let _dev ← filp.dev
    let k ← k.mutexLock
    return (k, .inl (.llseekSize filp offset whence))
  | .llseekSize filp offset whence =>
    let totalSize := loffT (aesdCircularBufferTotalSize k.ring)
    return (k, .inl (.llseekUnlock filp offset whence totalSize))
  | .llseekUnlock filp offset whence totalSize =>
    return (k.mutexUnlock, .inl (.llseekMove filp offset whence totalSize))
  | .llseekMove filp offset whence totalSize =>
    let (ret, fPos) := fixedSizeLlseek filp.fPos offset whence totalSize
    return (k, .inl (.leave filp ret fPos []))
  | .ioctlCommand filp cmd seekto uncopied => do
    let _dev ← filp.dev
    if cmd = aesdcharIocseekto then
      return (k, .inl (.ioctlArgument filp seekto uncopied))
    else
      return (k, .inl (.answer ⟨-ENOTTY, []⟩ (some filp)))
  | .ioctlArgument filp seekto uncopied =>
    if min uncopied 8 ≠ 0 then
      return (k, .inl (.answer ⟨-EFAULT, []⟩ (some filp)))
    else
      return (k, .inl (.ioctlLock filp seekto))
  | .ioctlLock filp seekto => do
    let k ← k.mutexLock
    return (k, .inl (.ioctlIndex filp seekto))
  | .ioctlIndex filp seekto =>
    -- the two errors return with the mutex locked
    if seekto.writeCmd.toNat ≥ aesdCircularBufferSize k.ring then
      return (k, .inl (.leave filp (-EINVAL) filp.fPos []))
    else
      return (k, .inl (.ioctlOffset filp seekto))
  | .ioctlOffset filp seekto =>
    let actualIndex := (k.ring.outOffs + seekto.writeCmd.toNat) % maxWriteOperationsSupported
    if seekto.writeCmdOffset.toNat ≥ (k.ring.slot actualIndex).size then
      return (k, .inl (.leave filp (-EINVAL) filp.fPos []))
    else
      return (k, .inl (.ioctlSum filp seekto 0 0))
  | .ioctlSum filp seekto i newFPos =>
    if i < seekto.writeCmd.toNat then
      return (k, .inl (.ioctlSum filp seekto (i + 1) (loffT (newFPos +
        (k.ring.slot ((k.ring.outOffs + i) % maxWriteOperationsSupported)).size))))
    else
      return (k, .inl (.ioctlUnlock filp seekto newFPos))
  | .ioctlUnlock filp seekto newFPos =>
    return (k.mutexUnlock, .inl (.ioctlSet filp seekto newFPos))
  | .ioctlSet filp seekto newFPos =>
    return (k, .inl (.leave filp 0 (loffT (newFPos + seekto.writeCmdOffset.toNat)) []))
  | .unlock filp ret fPos data => return (k.mutexUnlock, .inl (.leave filp ret fPos data))
  | .leave filp ret fPos data => return (k, .inr (⟨ret, data⟩, some { filp with fPos }))

/-- Whether the call has locked the mutex, and whether it is done with it. -/
def Place.phase : Place → Phase
  | .answer _ _ | .readLock _ _ _ | .writeLock _ _ _ | .llseekLock _ _ _ | .ioctlCommand _ _ _ _
  | .ioctlArgument _ _ _ | .ioctlLock _ _ => .before
  | .llseekMove _ _ _ _ | .ioctlSet _ _ _ | .leave _ _ _ _ => .after
  | _ => .inside

/-- How many statements are left at most before the one that returns. -/
def Place.rank : Place → ℕ
  | .answer _ _ | .leave _ _ _ _ => 0
  | .unlock _ _ _ _ | .llseekMove _ _ _ _ | .ioctlSet _ _ _ => 1
  | .readCopy _ _ _ _ _ | .writeReset _ _ | .llseekUnlock _ _ _ _ | .ioctlUnlock _ _ _ => 2
  | .readFind _ _ _ | .writeFree _ _ _ | .llseekSize _ _ _ => 3
  | .readLock _ _ _ | .writeAdd _ _ _ _ | .llseekLock _ _ _ => 4
  | .writeFill _ _ _ => 5
  | .writeCommand _ _ _ => 6
  | .writeSearch _ _ _ => 7
  | .writeCount _ _ _ => 8
  | .writeCopy _ _ _ => 9
  | .writeFirst _ _ _ | .writeGrow _ _ _ => 10
  | .writeRoom _ _ _ => 11
  | .writeLock _ _ _ => 12
  | .ioctlSum _ seekto i _ => 3 + (seekto.writeCmd.toNat - i)
  | .ioctlOffset _ seekto => 4 + seekto.writeCmd.toNat
  | .ioctlIndex _ seekto => 5 + seekto.writeCmd.toNat
  | .ioctlLock _ seekto => 6 + seekto.writeCmd.toNat
  | .ioctlArgument _ seekto _ => 7 + seekto.writeCmd.toNat
  | .ioctlCommand _ _ seekto _ => 8 + seekto.writeCmd.toNat

/-! ### What a statement does -/

section Memory

variable {k k' : Kernel}

/-- The allocator does not touch the device, whatever it answers. -/
theorem Kernel.device_kmalloc (k : Kernel) (size : ℕ) (o : Option Junk) :
    (k.kmalloc size o).2.aesdDevice = k.aesdDevice := by
  rcases o with - | junk
  · rfl
  · rw [Kernel.kmalloc]
    split <;> rfl

/-- Nor does `kfree`. -/
theorem Kernel.device_of_kfree {p : Option Addr} (h : k.kfree p = .ok k') :
    k'.aesdDevice = k.aesdDevice := by
  rcases p with - | a
  · rw [Except.ok.inj h]
  · rw [Kernel.kfree] at h
    split at h
    · rw [← Except.ok.inj h]
    · exact absurd h (by simp)

/-- Nor does `krealloc`, of which the `kfree` of the old block is a part. -/
theorem Kernel.device_of_krealloc {p : Addr} {size : ℕ} {o : Option Junk} {p' : Option Addr}
    (h : k.krealloc p size o = .ok (p', k')) : k'.aesdDevice = k.aesdDevice := by
  rcases hblk : k.heap.block p with - | blk
  · simp [Kernel.krealloc, hblk] at h
  rcases o with - | junk
  · simp only [Kernel.krealloc, hblk, Except.ok.injEq, Prod.mk.injEq] at h
    rw [h.2]
  · simp only [Kernel.krealloc, hblk] at h
    split at h
    · obtain ⟨k₁, hfree, hk₁⟩ := exists_of_bind_eq_ok h
      rw [← (Prod.mk.inj (Except.ok.inj hk₁)).2, Kernel.device_of_kfree hfree]
    · rw [(Prod.mk.inj (Except.ok.inj h)).2]

/-- A store changes the block it goes to and not the device. -/
theorem Kernel.device_of_store {p : Option Addr} {off : ℕ} {bytes : List Byte}
    (h : k.store p off bytes = .ok k') : k'.aesdDevice = k.aesdDevice := by
  rw [Kernel.store] at h
  split at h
  · rw [← Except.ok.inj h]
  · exact absurd h (by simp)

/-- `copy_from_user` is a store of what could be copied. -/
theorem Kernel.device_of_copyFromUser {p : Option Addr} {off uncopied left : ℕ} {buf : UserBuf}
    (h : k.copyFromUser p off buf uncopied = .ok (left, k')) :
    k'.aesdDevice = k.aesdDevice := by
  obtain ⟨k₁, hstore, hk₁⟩ := exists_of_bind_eq_ok h
  rw [← (Prod.mk.inj (Except.ok.inj hk₁)).2, Kernel.device_of_store hstore]

end Memory

namespace Place

variable {fixedSizeLlseek : ℤ → ℤ → ℤ → ℤ → ℤ × ℤ} {k k' : Kernel} {p p' : Place}

/-- **A statement under the mutex** leaves the mutex alone, or it is the last one. The last one
unlocks the mutex, except at the two errors of the command. -/
theorem moved_of_inside (hphase : p.phase = .inside)
    (h : p.micro fixedSizeLlseek k = .ok (k', .inl p')) :
    p'.rank < p.rank ∧
      (p'.phase = .inside ∧ k'.mutex.held = k.mutex.held ∨ p'.phase = .after) := by
  -- the mutex is in the device, which neither the allocator nor a copy touches
  have hheld : ∀ {k₁ k₂ : Kernel}, k₂.aesdDevice = k₁.aesdDevice →
      k₂.mutex.held = k₁.mutex.held :=
    fun hdevice ↦ congrArg (fun device ↦ device.aesdCBMutex.held) hdevice
  cases p with
  | readFind filp count uncopied =>
    rw [micro] at h
    split at h <;> cases h <;> exact ⟨by simp [rank], Or.inl ⟨rfl, rfl⟩⟩
  | readCopy filp count uncopied i readOffset =>
    obtain ⟨data, -, h⟩ := exists_of_bind_eq_ok h
    split at h <;> cases h <;> exact ⟨by simp [rank], Or.inl ⟨rfl, rfl⟩⟩
  | writeRoom filp buf o =>
    rw [micro] at h
    split at h
    · cases h
      exact ⟨by simp [rank], Or.inl ⟨rfl, rfl⟩⟩
    · split at h <;> cases h <;> exact ⟨by simp [rank], Or.inl ⟨rfl, rfl⟩⟩
  | writeFirst filp buf o =>
    have hdevice := k.device_kmalloc (sizeT (buf.count + 50)) o.kmallocTemp
    rw [micro] at h
    split at h <;> rename_i hkmalloc <;> rw [hkmalloc] at hdevice <;>
      have hmutex := hheld hdevice <;> cases h <;> exact ⟨by simp [rank], Or.inl ⟨rfl, hmutex⟩⟩
  | writeGrow filp buf o =>
    rw [micro] at h
    split at h
    · exact absurd h (by simp)
    · obtain ⟨⟨newData, k₁⟩, hkrealloc, h⟩ := exists_of_bind_eq_ok h
      have hmutex := hheld (Kernel.device_of_krealloc hkrealloc)
      rcases newData with - | newData <;> cases h <;>
        exact ⟨by simp [rank], Or.inl ⟨rfl, hmutex⟩⟩
  | writeCopy filp buf o =>
    obtain ⟨⟨left, k₁⟩, hcopy, h⟩ := exists_of_bind_eq_ok h
    have hmutex := hheld (Kernel.device_of_copyFromUser hcopy)
    dsimp only at h
    split at h <;> cases h <;> exact ⟨by simp [rank], Or.inl ⟨rfl, hmutex⟩⟩
  | writeSearch filp buf o =>
    obtain ⟨pending, -, h⟩ := exists_of_bind_eq_ok h
    split at h <;> cases h <;> exact ⟨by simp [rank], Or.inl ⟨rfl, rfl⟩⟩
  | writeCommand filp buf o =>
    have hdevice := k.device_kmalloc k.tempBuf.size o.kmallocCommand
    rw [micro] at h
    split at h <;> rename_i hkmalloc <;> rw [hkmalloc] at hdevice <;>
      have hmutex := hheld hdevice <;> cases h <;> exact ⟨by simp [rank], Or.inl ⟨rfl, hmutex⟩⟩
  | writeFill filp buf commandData =>
    obtain ⟨cmd, -, h⟩ := exists_of_bind_eq_ok h
    obtain ⟨k₁, hstore, h⟩ := exists_of_bind_eq_ok h
    cases h
    exact ⟨by simp [rank], Or.inl ⟨rfl, hheld (Kernel.device_of_store hstore)⟩⟩
  | writeFree filp buf oldEntry =>
    obtain ⟨k₁, hkfree, h⟩ := exists_of_bind_eq_ok h
    cases h
    exact ⟨by simp [rank], Or.inl ⟨rfl, hheld (Kernel.device_of_kfree hkfree)⟩⟩
  | ioctlIndex filp seekto =>
    rw [micro] at h
    split at h <;> cases h
    · exact ⟨by simp only [rank]; omega, Or.inr rfl⟩
    · exact ⟨by simp only [rank]; omega, Or.inl ⟨rfl, rfl⟩⟩
  | ioctlOffset filp seekto =>
    rw [micro] at h
    split at h <;> cases h
    · exact ⟨by simp only [rank]; omega, Or.inr rfl⟩
    · exact ⟨by simp only [rank]; omega, Or.inl ⟨rfl, rfl⟩⟩
  | ioctlSum filp seekto i newFPos =>
    rw [micro] at h
    split at h <;> cases h <;> exact ⟨by simp only [rank]; omega, Or.inl ⟨rfl, rfl⟩⟩
  | writeCount | writeAdd | writeReset | llseekSize =>
    cases h
    exact ⟨by simp [rank], Or.inl ⟨rfl, rfl⟩⟩
  | llseekUnlock | ioctlUnlock | unlock =>
    cases h
    exact ⟨by simp [rank], Or.inr rfl⟩
  | _ => exact absurd hphase (by simp [phase])

/-- **A statement before the mutex is locked** locks it, or has nothing to do with the device: then
it does the same in every state of the device. -/
theorem micro_of_before {r : Place ⊕ (Answer × Option File)} (hphase : p.phase = .before)
    (h : p.micro fixedSizeLlseek k = .ok (k', r)) :
    (∀ p', r = .inl p' → p'.rank < p.rank) ∧
      ((∃ p', r = .inl p' ∧ p'.phase = .inside ∧ k.mutex.held = false ∧ k'.mutex.held = true) ∨
        ((∀ p', r = .inl p' → p'.phase = .before) ∧ k' = k ∧
          ∀ k₂, p.micro fixedSizeLlseek k₂ = .ok (k₂, r))) := by
  have hlock : ∀ {k₁}, k.mutexLock = .ok k₁ → k.mutex.held = false ∧ k₁.mutex.held = true := by
    intro k₁ hk₁
    rcases hmutex : k.mutex.held with - | -
    · rw [Kernel.mutexLock_of_free hmutex] at hk₁
      rw [← Except.ok.inj hk₁]
      exact ⟨rfl, rfl⟩
    · rw [Kernel.mutexLock_of_held hmutex] at hk₁
      exact absurd hk₁ (by simp)
  cases p with
  | answer a own =>
    cases h
    exact ⟨by simp, Or.inr ⟨by simp, rfl, fun _ ↦ rfl⟩⟩
  | readLock | writeLock | llseekLock =>
    obtain ⟨dev, -, h⟩ := exists_of_bind_eq_ok h
    obtain ⟨k₁, hk₁, h⟩ := exists_of_bind_eq_ok h
    cases h
    refine ⟨?_, Or.inl ⟨_, rfl, rfl, hlock hk₁⟩⟩
    rintro p' ⟨⟩
    simp [rank]
  | ioctlLock filp seekto =>
    obtain ⟨k₁, hk₁, h⟩ := exists_of_bind_eq_ok h
    cases h
    refine ⟨?_, Or.inl ⟨_, rfl, rfl, hlock hk₁⟩⟩
    rintro p' ⟨⟩
    simp [rank]
  | ioctlCommand filp cmd seekto uncopied =>
    -- another command returns at once
    obtain ⟨dev, hdev, h⟩ := exists_of_bind_eq_ok h
    split at h <;> rename_i hcmd <;> cases h
    · refine ⟨?_, Or.inr ⟨?_, rfl, fun k₂ ↦ ?_⟩⟩
      · rintro p' ⟨⟩
        simp [rank]
      · rintro p' ⟨⟩
        rfl
      · rw [micro, hdev, ok_bind, if_pos hcmd]
        rfl
    · refine ⟨?_, Or.inr ⟨?_, rfl, fun k₂ ↦ ?_⟩⟩
      · rintro p' ⟨⟩
        simp only [rank]
        omega
      · rintro p' ⟨⟩
        rfl
      · rw [micro, hdev, ok_bind, if_neg hcmd]
        rfl
  | ioctlArgument filp seekto uncopied =>
    -- so does one whose argument could not be copied
    rw [micro] at h
    split at h <;> rename_i hcopy <;> cases h
    · refine ⟨?_, Or.inr ⟨?_, rfl, fun k₂ ↦ ?_⟩⟩
      · rintro p' ⟨⟩
        simp only [rank]
        omega
      · rintro p' ⟨⟩
        rfl
      · rw [micro, if_pos hcopy]
        rfl
    · refine ⟨?_, Or.inr ⟨?_, rfl, fun k₂ ↦ ?_⟩⟩
      · rintro p' ⟨⟩
        simp [rank]
      · rintro p' ⟨⟩
        rfl
      · rw [micro, if_neg hcopy]
        rfl
  | _ => exact absurd hphase (by simp [phase])

/-- **A statement after it was unlocked** has nothing to do with the device. -/
theorem exists_micro_of_after (hphase : p.phase = .after) :
    ∃ r, (∀ p', r = .inl p' → p'.phase = .after ∧ p'.rank < p.rank) ∧
      ∀ k, p.micro fixedSizeLlseek k = .ok (k, r) := by
  cases p with
  | llseekMove | ioctlSet =>
    refine ⟨_, ?_, fun _ ↦ rfl⟩
    rintro p' ⟨⟩
    exact ⟨rfl, by simp [rank]⟩
  | leave => exact ⟨_, by simp, fun _ ↦ rfl⟩
  | _ => exact absurd hphase (by simp [phase])

/-- **Every statement brings the call nearer to its return**, in whatever state it finds the
device. -/
theorem rank_lt (h : p.micro fixedSizeLlseek k = .ok (k', .inl p')) : p'.rank < p.rank := by
  rcases hphase : p.phase with - | - | -
  · exact (micro_of_before hphase h).1 p' rfl
  · exact (moved_of_inside hphase h).1
  · obtain ⟨r, hr, hsame⟩ : ∃ r, (∀ p', r = .inl p' → p'.phase = .after ∧ p'.rank < p.rank) ∧
        ∀ k, p.micro fixedSizeLlseek k = .ok (k, r) := exists_micro_of_after hphase
    obtain ⟨-, rfl⟩ := Prod.mk.inj (Except.ok.inj ((hsame k).symm.trans h))
    exact (hr p' rfl).2

end Place

end Aesd
