import Aesd.Driver.Concurrent

/-!
# Calls that run at the same time

However the statements of any number of calls are interleaved, the calls behave as if they had been
made one after the other, each in one step (`calls_linearizable`). So what is known of the driver
called one call at a time is known of processes that call it at the same time, as long as no two of
them call it on one open file.

A call run by itself, statement by statement, is the operation of `Driver/Device.lean`
(`rest_enter`); that and what a statement can do are all that the rule for calls under one lock
needs (`driverCalls_lawful`).
-/

namespace Aesd

open Memory Framing Execution Linearization

/-- What the caller gets of a reply: the position goes back to its file. -/
def Reply.leave (filp : File) (reply : Reply) : Answer × Kernel × Option File :=
  (⟨reply.ret, reply.data⟩, reply.kernel, some { filp with fPos := reply.fPos })

/-- An operation on the open file that the caller owns. -/
def onFile (k : Kernel) (own : Option File) (operation : File → Except Stop Reply) :
    Except Stop (Answer × Kernel × Option File) :=
  match own with
  | none => .ok (⟨-EBADF, []⟩, k, none)
  | some filp => (operation filp).map (Reply.leave filp)

/-- A whole call. -/
def Syscall.alone (fixedSizeLlseek : ℤ → ℤ → ℤ → ℤ → ℤ × ℤ) (k : Kernel) (own : Option File) :
    Syscall → Except Stop (Answer × Kernel × Option File)
  | .openFile =>
    match own with
    | none => .ok (⟨(aesdOpen ⟨none, 0⟩).1, []⟩, k, some (aesdOpen ⟨none, 0⟩).2)
    | some filp => .ok (⟨-EBADF, []⟩, k, some filp)
  | .release =>
    match own with
    | none => .ok (⟨-EBADF, []⟩, k, none)
    | some filp => .ok (⟨(aesdRelease filp).1, []⟩, k, none)
  | .read count uncopied => onFile k own fun filp ↦ aesdRead k filp count uncopied filp.fPos
  | .write buf o => onFile k own fun filp ↦ aesdWrite k filp buf filp.fPos o
  | .llseek offset whence => onFile k own fun filp ↦
      aesdLlseek fixedSizeLlseek k filp offset whence
  | .ioctl cmd seekto uncopied => onFile k own fun filp ↦
      aesdUnlockedIoctl k filp cmd seekto uncopied

/-- The calls of the driver. -/
def driverCalls (fixedSizeLlseek : ℤ → ℤ → ℤ → ℤ → ℤ × ℤ) :
    Calls Kernel (Option File) Syscall Answer Place Stop where
  alone k own c := c.alone fixedSizeLlseek k own
  enter own c := c.enter own
  micro := Place.micro fixedSizeLlseek
  phase := Place.phase
  held k := k.mutex.held
  rank := Place.rank
  rank_lt := Place.rank_lt

/-- An allocation leaves what was there. -/
theorem Kernel.load_of_kmalloc {k k' : Kernel} {size : ℕ} {o : Option Junk} {c : Addr}
    (h : k.kmalloc size o = (some c, k')) {p : Option Addr} {off len : ℕ} {bytes : List Byte}
    (hload : k.load p off len = .ok bytes) : k'.load p off len = .ok bytes := by
  rcases hgrant : granted size o with - | -
  · rw [Kernel.kmalloc_of_not_granted hgrant] at h
    exact absurd (Prod.mk.inj h).1 (by simp)
  obtain ⟨junk, hkmalloc⟩ := Kernel.kmalloc_of_granted (k := k) hgrant
  obtain ⟨-, rfl⟩ := Prod.mk.inj (hkmalloc.symm.trans h)
  rcases p with - | a
  · exact hload
  rcases hblk : k.heap.block a with - | blk
  · simp [Kernel.load, Heap.load, hblk] at hload
  · have hne : a ≠ k.heap.next := Heap.ne_next_of_block hblk
    have hblk' : (k.heap.alloc (resize [] size junk)).block a = some blk := by
      rw [Heap.block_alloc, if_neg hne, hblk]
    rw [← hload]
    simp only [Kernel.load, Heap.load, hblk, hblk', Option.bind_some]

/-! ### A call by itself -/

section Rest

variable {fixedSizeLlseek : ℤ → ℤ → ℤ → ℤ → ℤ × ℤ} {k k' : Kernel} {p p' : Place}

/-- A call that is not kept waiting goes on as it does after its next statement. -/
theorem rest_of_moved (h : p.micro fixedSizeLlseek k = .ok (k', .inl p')) :
    (driverCalls fixedSizeLlseek).rest k p = (driverCalls fixedSizeLlseek).rest k' p' :=
  Calls.rest_of_moved h

/-- What is left of a call that is about to lock the mutex. -/
theorem rest_of_lock {filp : File} {f : Kernel → Except Stop Reply}
    (h : p.micro fixedSizeLlseek k = (do
      let _dev ← filp.dev
      let k ← k.mutexLock
      return (k, .inl p')))
    (hrest : ∀ k, (driverCalls fixedSizeLlseek).rest k p' = (f k).map (Reply.leave filp)) :
    (driverCalls fixedSizeLlseek).rest k p = (do
      let _dev ← filp.dev
      let k ← k.mutexLock
      f k : Except Stop Reply).map (Reply.leave filp) := by
  rcases hdev : filp.dev with stop | dev
  · rw [hdev] at h
    exact Calls.rest_of_error h
  rcases hlock : k.mutexLock with stop | k₁
  · rw [hdev, ok_bind, hlock] at h
    exact Calls.rest_of_error h
  · rw [hdev, ok_bind, hlock] at h
    rw [rest_of_moved h, hrest]
    rfl

variable (fixedSizeLlseek) (k) (filp : File)

/-- At its end a call hands over what it has. -/
theorem rest_leave (ret fPos : ℤ) (data : List Byte) :
    (driverCalls fixedSizeLlseek).rest k (.leave filp ret fPos data) =
      .ok (Reply.leave filp ⟨ret, fPos, data, k⟩) :=
  Calls.rest_of_returned rfl

/-- `mutex_unlock` and the return are all that is left. -/
theorem rest_unlock (ret fPos : ℤ) (data : List Byte) :
    (driverCalls fixedSizeLlseek).rest k (.unlock filp ret fPos data) =
      .ok (Reply.leave filp ⟨ret, fPos, data, k.mutexUnlock⟩) :=
  (rest_of_moved rfl).trans (rest_leave ..)

variable {fixedSizeLlseek} {k} {filp} in
/-- So a statement that leads there can be followed by both at once: most branches of the four
operations end in this way. -/
theorem rest_of_unlock {ret fPos : ℤ} {data : List Byte}
    (h : p.micro fixedSizeLlseek k = .ok (k', .inl (.unlock filp ret fPos data))) :
    (driverCalls fixedSizeLlseek).rest k p =
      .ok (Reply.leave filp ⟨ret, fPos, data, k'.mutexUnlock⟩) := by
  rw [rest_of_moved h, rest_unlock]

/-- `aesd_read`. -/
theorem rest_readLock (count uncopied : ℕ) :
    (driverCalls fixedSizeLlseek).rest k (.readLock filp count uncopied) =
      (aesdRead k filp count uncopied filp.fPos).map (Reply.leave filp) := by
  refine rest_of_lock rfl fun k ↦ ?_
  rcases hfind : aesdCircularBufferFindEntryOffsetForFpos k.ring (filp.fPos % 2 ^ 64).toNat 0 with
    ⟨- | i, readOffset⟩
  · simp only [hfind]
    refine rest_of_unlock ?_
    simp only [Place.micro, hfind]
    rfl
  have hmoved : Place.micro fixedSizeLlseek k (.readFind filp count uncopied) =
      .ok (k, .inl (.readCopy filp count uncopied i readOffset)) := by
    simp only [Place.micro, hfind]
    rfl
  rw [rest_of_moved hmoved]
  simp only [hfind]
  rcases hload : k.load (k.ring.slot i).buffptr readOffset
    (min count (sizeT ((k.ring.slot i).size + 2 ^ 64 - readOffset))) with stop | data
  · refine Calls.rest_of_error ?_
    show Place.micro fixedSizeLlseek k (.readCopy filp count uncopied i readOffset) = .error stop
    simp only [Place.micro, hload]
    rfl
  rw [ok_bind]
  split
  · rename_i hcopy
    refine rest_of_unlock ?_
    simp only [Place.micro, hload, ok_bind, if_pos hcopy]
    rfl
  · rename_i hcopy
    refine rest_of_unlock ?_
    simp only [Place.micro, hload, ok_bind, if_neg hcopy]
    rfl

/-- `aesd_write` from `memcpy` on, of bytes that can be read. -/
theorem rest_writeFill (buf : UserBuf) (commandData : Addr) {cmd : List Byte}
    (hload : k.load k.tempBuf.data 0 k.tempBuf.size = .ok cmd) :
    (driverCalls fixedSizeLlseek).rest k (.writeFill filp buf commandData) = (do
      let k ← k.store (some commandData) 0 cmd
      let (oldEntry, ring) :=
        aesdCircularBufferAddEntry k.ring ⟨some commandData, k.tempBuf.size⟩
      let k ← (k.commitRing ring cmd).kfree oldEntry
      return ⟨buf.count, filp.fPos + buf.count, [], (k.setTempSize 0).mutexUnlock⟩ :
        Except Stop Reply).map (Reply.leave filp) := by
  rcases hstore : k.store (some commandData) 0 cmd with stop | k₁
  · refine Calls.rest_of_error ?_
    show Place.micro fixedSizeLlseek k (.writeFill filp buf commandData) = .error stop
    rw [Place.micro, hload, ok_bind, hstore]
    rfl
  have hmoved : Place.micro fixedSizeLlseek k (.writeFill filp buf commandData) =
      .ok (k₁, .inl (.writeAdd filp buf commandData cmd)) := by
    rw [Place.micro, hload, ok_bind, hstore]
    rfl
  rw [rest_of_moved hmoved, ok_bind]
  rcases hadd : aesdCircularBufferAddEntry k₁.ring ⟨some commandData, k₁.tempBuf.size⟩ with
    ⟨oldEntry, ring⟩
  have hmoved : Place.micro fixedSizeLlseek k₁ (.writeAdd filp buf commandData cmd) =
      .ok (k₁.commitRing ring cmd, .inl (.writeFree filp buf oldEntry)) := by
    rw [Place.micro, hadd]
    rfl
  rw [rest_of_moved hmoved]
  dsimp only
  rcases hkfree : (k₁.commitRing ring cmd).kfree oldEntry with stop | k₂
  · refine Calls.rest_of_error ?_
    show Place.micro fixedSizeLlseek _ (.writeFree filp buf oldEntry) = .error stop
    rw [Place.micro, hkfree]
    rfl
  have hmoved : Place.micro fixedSizeLlseek (k₁.commitRing ring cmd)
      (.writeFree filp buf oldEntry) = .ok (k₂, .inl (.writeReset filp buf)) := by
    rw [Place.micro, hkfree]
    rfl
  rw [rest_of_moved hmoved]
  exact rest_of_unlock rfl

/-- `aesd_write` from the search for a newline on. -/
theorem rest_writeSearch (buf : UserBuf) (o : WriteOutcome) :
    (driverCalls fixedSizeLlseek).rest k (.writeSearch filp buf o) =
      (aesdWriteCommit k buf.count filp.fPos o).map (Reply.leave filp) := by
  rw [aesdWriteCommit]
  rcases hload : k.load k.tempBuf.data 0 k.tempBuf.size with stop | pending
  · refine Calls.rest_of_error ?_
    show Place.micro fixedSizeLlseek k (.writeSearch filp buf o) = .error stop
    rw [Place.micro, hload]
    rfl
  rw [ok_bind]
  split
  · rename_i hmem
    have hmoved : Place.micro fixedSizeLlseek k (.writeSearch filp buf o) =
        .ok (k, .inl (.writeCommand filp buf o)) := by
      rw [Place.micro, hload, ok_bind, if_pos hmem]
      rfl
    rw [rest_of_moved hmoved]
    rcases hkmalloc : k.kmalloc k.tempBuf.size o.kmallocCommand with ⟨- | commandData, k₁⟩
    · refine rest_of_unlock ?_
      rw [Place.micro, hkmalloc]
      rfl
    · have hmoved : Place.micro fixedSizeLlseek k (.writeCommand filp buf o) =
          .ok (k₁, .inl (.writeFill filp buf commandData)) := by
        rw [Place.micro, hkmalloc]
        rfl
      have hdevice := k.device_kmalloc k.tempBuf.size o.kmallocCommand
      rw [hkmalloc] at hdevice
      have hbuf : k₁.tempBuf = k.tempBuf := congrArg AesdDev.tempBuf hdevice
      have hload' := Kernel.load_of_kmalloc hkmalloc hload
      rw [← hbuf] at hload'
      rw [rest_of_moved hmoved, rest_writeFill _ _ _ _ _ hload']
  · rename_i hmem
    refine rest_of_unlock ?_
    rw [Place.micro, hload, ok_bind, if_neg hmem]
    rfl

/-- `aesd_write` from `copy_from_user` on. -/
theorem rest_writeCopy (buf : UserBuf) (o : WriteOutcome) :
    (driverCalls fixedSizeLlseek).rest k (.writeCopy filp buf o) =
      (aesdWriteCopy k buf filp.fPos o).map (Reply.leave filp) := by
  rw [aesdWriteCopy]
  rcases hcopy : k.copyFromUser k.tempBuf.data k.tempBuf.size buf o.uncopied with
    stop | ⟨left, k₁⟩
  · refine Calls.rest_of_error ?_
    show Place.micro fixedSizeLlseek k (.writeCopy filp buf o) = .error stop
    rw [Place.micro, hcopy]
    rfl
  rw [ok_bind]
  dsimp only
  split
  · rename_i hleft
    refine rest_of_unlock ?_
    rw [Place.micro, hcopy, ok_bind]
    exact if_pos hleft
  · rename_i hleft
    have hmoved : Place.micro fixedSizeLlseek k (.writeCopy filp buf o) =
        .ok (k₁, .inl (.writeCount filp buf o)) := by
      rw [Place.micro, hcopy, ok_bind]
      exact if_neg hleft
    rw [rest_of_moved hmoved, rest_of_moved rfl, rest_writeSearch]

/-- `aesd_write` under the mutex. -/
theorem rest_writeRoom (buf : UserBuf) (o : WriteOutcome) :
    (driverCalls fixedSizeLlseek).rest k (.writeRoom filp buf o) =
      (aesdWriteLocked k buf filp.fPos o).map (Reply.leave filp) := by
  rw [aesdWriteLocked, Kernel.makeRoom]
  rcases hdata : k.tempBuf.data with - | data
  · have hmoved : Place.micro fixedSizeLlseek k (.writeRoom filp buf o) =
        .ok (k, .inl (.writeFirst filp buf o)) := by
      simp only [Place.micro, hdata]
      rfl
    rw [rest_of_moved hmoved]
    dsimp only
    rcases hkmalloc : k.kmalloc (sizeT (buf.count + 50)) o.kmallocTemp with ⟨- | data, k₁⟩
    · refine rest_of_unlock ?_
      rw [Place.micro, hkmalloc]
      rfl
    · refine (rest_of_moved ?_).trans (rest_writeCopy ..)
      rw [Place.micro, hkmalloc]
      rfl
  · dsimp only
    split
    · rename_i hgrow
      have hmoved : Place.micro fixedSizeLlseek k (.writeRoom filp buf o) =
          .ok (k, .inl (.writeGrow filp buf o)) := by
        simp only [Place.micro, hdata]
        exact if_pos hgrow
      rw [rest_of_moved hmoved]
      rcases hkrealloc : k.krealloc data (sizeT (k.tempBuf.size + buf.count + 50)) o.krealloc with
        stop | ⟨- | newData, k₁⟩
      · refine Calls.rest_of_error ?_
        show Place.micro fixedSizeLlseek k (.writeGrow filp buf o) = .error stop
        simp only [Place.micro, hdata, hkrealloc]
        rfl
      · refine rest_of_unlock ?_
        simp only [Place.micro, hdata, hkrealloc]
        rfl
      · refine (rest_of_moved ?_).trans (rest_writeCopy ..)
        simp only [Place.micro, hdata, hkrealloc]
        rfl
    · rename_i hroom
      refine (rest_of_moved ?_).trans (rest_writeCopy ..)
      simp only [Place.micro, hdata]
      exact if_neg hroom

/-- `aesd_write`. -/
theorem rest_writeLock (buf : UserBuf) (o : WriteOutcome) :
    (driverCalls fixedSizeLlseek).rest k (.writeLock filp buf o) =
      (aesdWrite k filp buf filp.fPos o).map (Reply.leave filp) :=
  rest_of_lock rfl fun k ↦ rest_writeRoom _ k filp buf o

/-- `aesd_llseek`. -/
theorem rest_llseekLock (offset whence : ℤ) :
    (driverCalls fixedSizeLlseek).rest k (.llseekLock filp offset whence) =
      (aesdLlseek fixedSizeLlseek k filp offset whence).map (Reply.leave filp) := by
  refine rest_of_lock rfl fun k ↦ ?_
  rw [rest_of_moved rfl, rest_of_moved rfl, rest_of_moved rfl, rest_leave]
  rfl

/-- The loop of `aesd_unlocked_ioctl`, from its `i`-th round on. -/
theorem rest_ioctlSum (seekto : AesdSeekto) (i : ℕ) (newFPos : ℤ) :
    (driverCalls fixedSizeLlseek).rest k (.ioctlSum filp seekto i newFPos) =
      (driverCalls fixedSizeLlseek).rest k (.ioctlUnlock filp seekto
        ((List.range' i (seekto.writeCmd.toNat - i)).foldl (fun pos i ↦ loffT (pos +
          (k.ring.slot ((k.ring.outOffs + i) % maxWriteOperationsSupported)).size)) newFPos)) := by
  induction hn : seekto.writeCmd.toNat - i generalizing i newFPos with
  | zero =>
    refine rest_of_moved ?_
    rw [Place.micro, if_neg (by omega)]
    rfl
  | succ n ih =>
    have hmoved : Place.micro fixedSizeLlseek k (.ioctlSum filp seekto i newFPos) =
        .ok (k, .inl (.ioctlSum filp seekto (i + 1) (loffT (newFPos +
          (k.ring.slot ((k.ring.outOffs + i) % maxWriteOperationsSupported)).size)))) := by
      rw [Place.micro, if_pos (by omega)]
      rfl
    rw [rest_of_moved hmoved, ih (i + 1) _ (by omega), List.range'_succ, List.foldl_cons]

/-- `aesd_unlocked_ioctl`. -/
theorem rest_ioctlCommand (cmd : ℕ) (seekto : AesdSeekto) (uncopied : ℕ) :
    (driverCalls fixedSizeLlseek).rest k (.ioctlCommand filp cmd seekto uncopied) =
      (aesdUnlockedIoctl k filp cmd seekto uncopied).map (Reply.leave filp) := by
  rw [aesdUnlockedIoctl]
  rcases hdev : filp.dev with stop | dev
  · refine Calls.rest_of_error ?_
    show Place.micro fixedSizeLlseek k (.ioctlCommand filp cmd seekto uncopied) = .error stop
    rw [Place.micro, hdev]
    rfl
  rw [ok_bind]
  split
  · rename_i hcmd
    have hmoved : Place.micro fixedSizeLlseek k (.ioctlCommand filp cmd seekto uncopied) =
        .ok (k, .inl (.ioctlArgument filp seekto uncopied)) := by
      rw [Place.micro, hdev, ok_bind, if_pos hcmd]
      rfl
    rw [rest_of_moved hmoved]
    split
    · rename_i hcopy
      have hmoved : Place.micro fixedSizeLlseek k (.ioctlArgument filp seekto uncopied) =
          .ok (k, .inl (.answer ⟨-EFAULT, []⟩ (some filp))) := by
        rw [Place.micro, if_pos hcopy]
        rfl
      rw [rest_of_moved hmoved]
      exact Calls.rest_of_returned rfl
    · rename_i hcopy
      have hmoved : Place.micro fixedSizeLlseek k (.ioctlArgument filp seekto uncopied) =
          .ok (k, .inl (.ioctlLock filp seekto)) := by
        rw [Place.micro, if_neg hcopy]
        rfl
      rw [rest_of_moved hmoved]
      rcases hlock : k.mutexLock with stop | k₁
      · refine Calls.rest_of_error ?_
        show Place.micro fixedSizeLlseek k (.ioctlLock filp seekto) = .error stop
        rw [Place.micro, hlock]
        rfl
      have hmoved : Place.micro fixedSizeLlseek k (.ioctlLock filp seekto) =
          .ok (k₁, .inl (.ioctlIndex filp seekto)) := by
        rw [Place.micro, hlock]
        rfl
      rw [rest_of_moved hmoved, ok_bind]
      split
      · rename_i hindex
        have hmoved : Place.micro fixedSizeLlseek k₁ (.ioctlIndex filp seekto) =
            .ok (k₁, .inl (.leave filp (-EINVAL) filp.fPos [])) := by
          rw [Place.micro, if_pos hindex]
          rfl
        rw [rest_of_moved hmoved, rest_leave]
        rfl
      · rename_i hindex
        have hmoved : Place.micro fixedSizeLlseek k₁ (.ioctlIndex filp seekto) =
            .ok (k₁, .inl (.ioctlOffset filp seekto)) := by
          rw [Place.micro, if_neg hindex]
          rfl
        rw [rest_of_moved hmoved]
        dsimp only
        split
        · rename_i hoffset
          have hmoved : Place.micro fixedSizeLlseek k₁ (.ioctlOffset filp seekto) =
              .ok (k₁, .inl (.leave filp (-EINVAL) filp.fPos [])) := by
            rw [Place.micro, if_pos hoffset]
            rfl
          rw [rest_of_moved hmoved, rest_leave]
          rfl
        · rename_i hoffset
          have hmoved : Place.micro fixedSizeLlseek k₁ (.ioctlOffset filp seekto) =
              .ok (k₁, .inl (.ioctlSum filp seekto 0 0)) := by
            rw [Place.micro, if_neg hoffset]
            rfl
          rw [rest_of_moved hmoved, rest_ioctlSum, rest_of_moved rfl, rest_of_moved rfl,
            rest_leave, Nat.sub_zero, ← List.range_eq_range']
          rfl
  · rename_i hcmd
    have hmoved : Place.micro fixedSizeLlseek k (.ioctlCommand filp cmd seekto uncopied) =
        .ok (k, .inl (.answer ⟨-ENOTTY, []⟩ (some filp))) := by
      rw [Place.micro, hdev, ok_bind, if_neg hcmd]
      rfl
    rw [rest_of_moved hmoved]
    exact Calls.rest_of_returned rfl

/-- **Statement by statement a call does what it does in one step.** -/
theorem rest_enter (own : Option File) (c : Syscall) :
    (driverCalls fixedSizeLlseek).rest k (c.enter own) = c.alone fixedSizeLlseek k own := by
  rcases own with - | filp
  · cases c <;> exact Calls.rest_of_returned rfl
  · cases c with
    | openFile => exact Calls.rest_of_returned rfl
    | release => exact Calls.rest_of_returned rfl
    | read count uncopied => exact rest_readLock ..
    | write buf o => exact rest_writeLock ..
    | llseek offset whence => exact rest_llseekLock ..
    | ioctl cmd seekto uncopied => exact rest_ioctlCommand ..

end Rest

/-! ### The calls obey the rule -/

/-- The data of the device are in order. -/
def Kernel.Sound (k : Kernel) : Prop :=
  ∃ s : Log Byte, k.Represents s

/-- An open file points to the device. -/
def OwnsDevice (own : Option File) : Prop :=
  ∀ filp, own = some filp → filp.privateData = some .aesdDevice

section Lawful

variable {fixedSizeLlseek : ℤ → ℤ → ℤ → ℤ → ℤ × ℤ} {k k' : Kernel} {own own' : Option File}
  {c : Syscall} {a : Answer}

/-- A whole call on the file `i` of the system. -/
theorem step_op (fixedSizeLlseek : ℤ → ℤ → ℤ → ℤ → ℤ × ℤ) (k : Kernel) (files : ℕ → Option File)
    (i : ℕ) (c : Syscall) :
    step fixedSizeLlseek ⟨k, files⟩ (c.op i) =
      (c.alone fixedSizeLlseek k (files i)).map fun r ↦
        (r.1, ⟨r.2.1, Function.update files i r.2.2⟩) := by
  have hcall : ∀ operation : File → Except Stop Reply,
      System.call ⟨k, files⟩ i operation = (onFile k (files i) operation).map fun r ↦
        (r.1, ⟨r.2.1, Function.update files i r.2.2⟩) := by
    intro operation
    rcases hfile : files i with - | filp
    · have hclosed : (System.mk k files).files i = none := hfile
      rw [System.call_of_closed hclosed]
      show _ = Except.ok (_, System.mk k (Function.update files i none))
      rw [← hfile, Function.update_eq_self]
    · rcases hop : operation filp with stop | reply
      · simp [System.call, hfile, hop, onFile, Except.map]
      · simp [System.call, hfile, hop, onFile, Except.map, Reply.leave, System.setFile]
  cases c with
  | openFile =>
    rcases hfile : files i with - | filp
    · simp [Syscall.op, step, Syscall.alone, hfile, Except.map, System.setFile]
    · have hself : Function.update files i (some filp) = files := by
        rw [← hfile, Function.update_eq_self]
      simp [Syscall.op, step, Syscall.alone, hfile, Except.map, hself]
  | release =>
    rcases hfile : files i with - | filp
    · have hself : Function.update files i none = files := by
        rw [← hfile, Function.update_eq_self]
      simp [Syscall.op, step, Syscall.alone, hfile, Except.map, hself]
    · simp [Syscall.op, step, Syscall.alone, hfile, Except.map, System.setFile]
  | _ => exact hcall _

/-- A call taken alone is a step of the device with one file. -/
theorem step_op_of_alone (h : c.alone fixedSizeLlseek k own = .ok (a, k', own')) :
    step fixedSizeLlseek ⟨k, fun _ ↦ own⟩ (c.op 0) =
      .ok (a, ⟨k', Function.update (fun _ ↦ own) 0 own'⟩) := by
  rw [step_op, h]
  rfl

/-- A sound kernel with one open file of its device is a system that represents some log. -/
theorem Kernel.Sound.represents (hk : k.Sound) (hown : OwnsDevice own) :
    ∃ s, System.Represents ⟨k, fun _ ↦ own⟩ s := by
  obtain ⟨s, hs⟩ := hk
  exact ⟨s, hs, fun _ filp hfilp ↦ hown filp hfilp⟩

/-- A whole call keeps the kernel sound and leaves the process a file of the device, or none. -/
theorem sound_of_alone (hk : k.Sound) (hown : OwnsDevice own)
    (h : c.alone fixedSizeLlseek k own = .ok (a, k', own')) : k'.Sound ∧ OwnsDevice own' := by
  obtain ⟨s, hs⟩ := hk.represents hown
  have hs' := hs.step (step_op_of_alone h)
  refine ⟨⟨_, hs'.kernel⟩, fun filp hfilp ↦ hs'.opened 0 filp ?_⟩
  rw [← hfilp]
  exact Function.update_self 0 own' fun _ ↦ own

/-- With the mutex free a whole call returns: the operations have no other fault and nothing else to
wait for. -/
theorem exists_alone (hk : k.Sound) (hown : OwnsDevice own) (hfree : k.mutex.held = false) :
    ∃ a k' own', c.alone fixedSizeLlseek k own = .ok (a, k', own') := by
  obtain ⟨s, hs⟩ := hk.represents hown
  obtain ⟨a, sys', hstep, -⟩ := hs.exists_step hfree fixedSizeLlseek (c.op 0)
  rw [step_op] at hstep
  obtain ⟨r, hr, -⟩ := exists_of_map_eq_ok hstep
  exact ⟨r.1, r.2.1, r.2.2, hr⟩

/-- A call begins before its `mutex_lock`. -/
theorem phase_enter (own : Option File) (c : Syscall) : (c.enter own).phase = .before := by
  rcases own with - | filp <;> cases c <;> rfl

/-- **The calls of the driver** are calls under one lock. -/
theorem driverCalls_lawful (fixedSizeLlseek : ℤ → ℤ → ℤ → ℤ → ℤ × ℤ) :
    (driverCalls fixedSizeLlseek).Lawful Kernel.Sound OwnsDevice where
  rest_enter k own c := rest_enter fixedSizeLlseek k own c
  phase_enter := phase_enter
  before _ _ _ _ hphase hmicro := (Place.micro_of_before hphase hmicro).2
  inside _ _ _ _ hphase hmicro := (Place.moved_of_inside hphase hmicro).2
  after _ hphase := by
    obtain ⟨r, hr, hsame⟩ := Place.exists_micro_of_after hphase
    exact ⟨r, fun p' hp' ↦ (hr p' hp').1, hsame⟩
  good_alone _ _ _ _ _ _ hk hown halone := sound_of_alone hk hown halone
  total _ _ _ hk hown hfree := exists_alone hk hown hfree

/-- Before the mutex is locked a statement fails for want of the mutex, or for good. -/
theorem Place.blocked_or_fails {p : Place} {stop : Stop} (hphase : p.phase = .before)
    (h : p.micro fixedSizeLlseek k = .error stop) :
    stop = .blocked ∨ ∀ k₂, p.micro fixedSizeLlseek k₂ = .error stop := by
  have hlock : ∀ {q : Kernel → Place}, (do
      let k ← k.mutexLock
      return (k, .inl (q k)) : Except Stop (Kernel × (Place ⊕ (Answer × Option File)))) =
        .error stop → stop = .blocked := by
    intro q hq
    rcases hmutex : k.mutex.held with - | -
    · rw [Kernel.mutexLock_of_free hmutex] at hq
      exact absurd hq (by simp [bind, Except.bind, pure, Except.pure])
    · rw [Kernel.mutexLock_of_held hmutex] at hq
      exact (Except.error.inj hq).symm
  cases p with
  | answer => exact absurd h (by simp [Place.micro, pure, Except.pure])
  | readLock filp | writeLock filp | llseekLock filp =>
    rcases hdev : filp.dev with stop' | dev
    · rw [Place.micro, hdev] at h
      refine Or.inr fun k₂ ↦ ?_
      rw [Place.micro, hdev]
      exact h
    · rw [Place.micro, hdev, ok_bind] at h
      exact Or.inl (hlock h)
  | ioctlCommand filp cmd =>
    rcases hdev : filp.dev with stop' | dev
    · rw [Place.micro, hdev] at h
      refine Or.inr fun k₂ ↦ ?_
      rw [Place.micro, hdev]
      exact h
    · rw [Place.micro, hdev, ok_bind] at h
      split at h <;> exact absurd h (by simp [pure, Except.pure])
  | ioctlArgument =>
    rw [Place.micro] at h
    split at h <;> exact absurd h (by simp [pure, Except.pure])
  | ioctlLock => exact Or.inl (hlock h)
  | _ => exact absurd hphase (by simp [Place.phase])

end Lawful

/-! ### Interleavings -/

section Runs

variable {fixedSizeLlseek : ℤ → ℤ → ℤ → ℤ → ℤ × ℤ} {xs : List (ℕ × Syscall)}
  {trace : List (ℕ × Note Syscall Answer)} {s : State Kernel (Option File) Syscall Place}

/-- The driver after `aesd_init_module`, with no file open and nobody in a call. -/
def noCalls : State Kernel (Option File) Syscall Place :=
  .start aesdInitModule fun _ ↦ none

/-- Whole calls are a run of the driver. -/
theorem run_of_alone {calls : List (ℕ × Syscall)} {as : List Answer}
    {t t' : Kernel × (ℕ → Option File)}
    (h : run (driverCalls fixedSizeLlseek).aloneStep t calls = .ok (as, t')) :
    run (step fixedSizeLlseek) ⟨t.1, t.2⟩ (calls.map fun x ↦ x.2.op x.1) =
      .ok (as, ⟨t'.1, t'.2⟩) := by
  induction calls generalizing t as with
  | nil =>
    obtain ⟨rfl, rfl⟩ := Prod.mk.inj (Except.ok.inj h)
    rfl
  | cons x calls ih =>
    obtain ⟨a, t₁, as', hstep, hrun, rfl⟩ := run_cons_eq_ok_iff.1 h
    refine run_cons_of_ok (r := a) ?_ (ih hrun)
    show step fixedSizeLlseek ⟨t.1, t.2⟩ (x.2.op x.1) = _
    have hone : (driverCalls fixedSizeLlseek).alone t.1 (t.2 x.1) x.2 =
        x.2.alone fixedSizeLlseek t.1 (t.2 x.1) := rfl
    rw [Calls.aloneStep, hone] at hstep
    rw [step_op]
    rcases halone : x.2.alone fixedSizeLlseek t.1 (t.2 x.1) with stop | ⟨a', k, own⟩
    · simp [halone] at hstep
    · simp only [halone] at hstep
      obtain ⟨rfl, rfl⟩ := Prod.mk.inj (Except.ok.inj hstep)
      rfl

/-- **Every interleaving has its sequence of whole calls**, by the general theorem about calls whose
middle part is under one mutex. -/
theorem exists_linearized (h : run (driverCalls fixedSizeLlseek).step noCalls xs = .ok (trace, s)) :
    ∃ calls t, Linearized (driverCalls fixedSizeLlseek) Kernel.Sound OwnsDevice
      (aesdInitModule, fun _ ↦ none) trace s calls t :=
  exists_linearization (driverCalls_lawful fixedSizeLlseek) ⟨Log.empty, represents_init⟩
    (fun _ _ hfilp ↦ absurd hfilp (by simp)) h

/-- **Calls that run at the same time are linearizable.** Any number of processes open files on the
device, each its own, and call `aesd_read`, `aesd_write`, `aesd_llseek` and `aesd_unlocked_ioctl` on
them; their statements are taken in any order, and whatever fails. There is a sequence of whole
calls that the driver takes one after the other, each in one step, such that

* the sequence has the calls in the order in which they locked the mutex, or returned if they did
  not lock it;
* every process has in it the calls that have returned to it, in its order and with the answers
  they gave, and after them at most the call it is in;
* a process that is in no call has its file where the sequence leaves it, and if nobody is inside
  the mutex, the data of the device are as the sequence leaves them. -/
theorem calls_linearizable
    (h : run (driverCalls fixedSizeLlseek).step noCalls xs = .ok (trace, s)) :
    ∃ (calls : List (ℕ × Syscall × Answer)) (sys : System),
      run (step fixedSizeLlseek) .init ((inputs calls).map fun x ↦ x.2.op x.1) =
        .ok (answers calls, sys) ∧
      inputs calls = effects trace ∧
      (∀ i, ∃ pending : List (Syscall × Answer),
        MutualExclusion.own i calls = completed (MutualExclusion.own i trace) ++ pending ∧
        pending.length ≤ 1 ∧
        ((s.caller i).call = none → pending = [] ∧ sys.files i = (s.caller i).own)) ∧
      ((∀ i, ¬ (driverCalls fixedSizeLlseek).Inside (s.caller i)) → s.shared = sys.kernel) := by
  obtain ⟨calls, t, hlin⟩ := exists_linearized h
  refine ⟨calls, ⟨t.1, t.2⟩, run_of_alone hlin.run, hlin.order, fun i ↦ ?_, hlin.free⟩
  obtain ⟨pending, hstands, hcalls⟩ := hlin.caller i
  refine ⟨pending, hcalls, ?_⟩
  generalize s.caller i = k at hstands
  cases hstands with
  | idle => exact ⟨Nat.zero_le 1, fun _ ↦ ⟨rfl, rfl⟩⟩
  | before => exact ⟨Nat.zero_le 1, fun hcall ↦ absurd hcall (by simp)⟩
  | inside => exact ⟨le_rfl, fun hcall ↦ absurd hcall (by simp)⟩
  | after => exact ⟨le_rfl, fun hcall ↦ absurd hcall (by simp)⟩

/-- Two processes write at the same time: the second waits for the mutex while the first is inside,
and takes it before the first has returned. -/
theorem calls_linearizable_two_writes :
    let first : Syscall := .write ⟨[97, newline], by decide⟩ .granting
    let second : Syscall := .write ⟨[98, newline], by decide⟩ .granting
    let xs := List.replicate 2 (0, .openFile) ++ List.replicate 2 (1, .openFile) ++
      List.replicate 2 (0, first) ++ [(1, second)] ++ List.replicate 11 (0, first) ++
      [(1, second), (0, first)] ++ List.replicate 11 (1, second)
    ∃ trace s, run (driverCalls stayPut).step noCalls xs = .ok (trace, s) ∧
      s.shared.committed = [[97, newline], [98, newline]] ∧
      ∃ (calls : List (ℕ × Syscall × Answer)) (sys : System),
        run (step stayPut) .init ((inputs calls).map fun x ↦ x.2.op x.1) =
          .ok (answers calls, sys) ∧ inputs calls = effects trace := by
  intro first second xs
  have heval : (run (driverCalls stayPut).step noCalls xs).map (fun z ↦ z.2.shared.committed) =
      .ok [[97, newline], [98, newline]] := by
    decide +kernel
  obtain ⟨⟨trace, s⟩, hrun, hcommitted⟩ := exists_of_map_eq_ok heval
  obtain ⟨calls, sys, hcalls, horder, -⟩ := calls_linearizable hrun
  exact ⟨trace, s, hrun, hcommitted, calls, sys, hcalls, horder⟩

/-- **No interleaving faults.** However the statements of calls on the driver are interleaved, and
whatever fails: at most one process is between its `mutex_lock` and its `mutex_unlock`; and a
process whose next statement cannot be taken is about to lock the mutex, which is held. So no
statement uses memory that is `NULL`, retired or too short. -/
theorem interleavings_never_fault
    (h : run (driverCalls fixedSizeLlseek).step noCalls xs = .ok (trace, s)) :
    (∀ i j, (driverCalls fixedSizeLlseek).Inside (s.caller i) →
      (driverCalls fixedSizeLlseek).Inside (s.caller j) → i = j) ∧
    ∀ x stop, (driverCalls fixedSizeLlseek).step s x = .error stop →
      stop = .blocked ∧ s.shared.mutex.held = true ∧
        ∃ c p, (s.caller x.1).call = some (c, p) ∧ p.phase = .before := by
  obtain ⟨calls, t, hlin⟩ := exists_linearized h
  refine ⟨fun i j hi hj ↦ ?_, fun x stop hstep ↦ ?_⟩
  · by_contra hne
    exact (hlin.held i hi).2 j (Ne.symm hne) hj
  · have hC := driverCalls_lawful fixedSizeLlseek
    obtain ⟨hheld, c, p, hcall, hphase, hmicro⟩ := hlin.waits_of_error hC hstep
    refine ⟨?_, hheld, c, p, hcall, hphase⟩
    rcases Place.blocked_or_fails hphase hmicro with hblocked | hfails
    · exact hblocked
    · -- on the fresh device the call would not fail
      obtain ⟨pending, hstands, -⟩ := hlin.caller x.1
      have hown := hlin.goodOwn x.1
      generalize s.caller x.1 = k at hstands hcall
      cases hstands with
      | idle => exact absurd hcall (by simp)
      | @before c' p' _ hrest =>
        obtain ⟨rfl, rfl⟩ := Prod.mk.inj (Option.some.inj hcall)
        obtain ⟨a, k', own', halone⟩ : ∃ a k' own',
            c'.alone fixedSizeLlseek aesdInitModule (t.2 x.1) = .ok (a, k', own') :=
          exists_alone ⟨Log.empty, represents_init⟩ hown rfl
        have herror := Calls.rest_of_error (C := driverCalls fixedSizeLlseek)
          (hfails aesdInitModule)
        rw [hrest] at herror
        exact absurd (halone.symm.trans herror) (by simp)
      | inside hphase' =>
        obtain ⟨rfl, rfl⟩ := Prod.mk.inj (Option.some.inj hcall)
        exact absurd (hphase.symm.trans hphase') (by simp)
      | after hphase' =>
        obtain ⟨rfl, rfl⟩ := Prod.mk.inj (Option.some.inj hcall)
        exact absurd (hphase.symm.trans hphase') (by simp)

/-- While one process is inside, another cannot lock the mutex. -/
theorem interleavings_never_fault_waiting :
    let first : Syscall := .write ⟨[97, newline], by decide⟩ .granting
    let second : Syscall := .read 10 0
    let xs := List.replicate 2 (0, .openFile) ++ List.replicate 2 (1, .openFile) ++
      List.replicate 2 (0, first) ++ [(1, second)]
    ∃ trace s stop, run (driverCalls stayPut).step noCalls xs = .ok (trace, s) ∧
      (driverCalls stayPut).step s (1, second) = .error stop ∧ stop = .blocked := by
  intro first second xs
  have heval : (run (driverCalls stayPut).step noCalls xs).map
      (fun z ↦ ((driverCalls stayPut).step z.2 (1, second)).isOk) = .ok false := by
    decide +kernel
  obtain ⟨⟨trace, s⟩, hrun, hwaits⟩ := exists_of_map_eq_ok heval
  rcases hstep : (driverCalls stayPut).step s (1, second) with stop | z
  · exact ⟨trace, s, stop, hrun, hstep, ((interleavings_never_fault hrun).2 _ stop hstep).1⟩
  · simp only [hstep] at hwaits
    exact absurd hwaits.symm Bool.false_ne_true

end Runs

end Aesd
