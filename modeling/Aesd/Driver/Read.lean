import Mathlib.Data.Int.ModEq
import Aesd.Driver.Lookup
import Aesd.Driver.Write

/-!
# What reading and seeking do

On a device that represents a log, `aesd_read` returns a piece of the command that holds the
position (`readPiece`, `aesdRead_eq`), and `AESDCHAR_IOCSEEKTO` moves to the position of an offset
in a command (`seekTarget`, `aesdUnlockedIoctl_of_target`). Neither changes the log.

Reading, seeking by offset and writing leave the mutex as they found it, one lock and one unlock
later (`Kernel.cycled`). Seeking to a command does too, but not when the arguments name no byte of
the ring: then the mutex stays held (`aesdUnlockedIoctl_of_no_target`).
-/

namespace Aesd

open Memory Framing BoundedFifo Positions

/-- The kernel after the mutex was locked and unlocked once. -/
def Kernel.cycled (k : Kernel) : Kernel :=
  k.setMutex ⟨false, k.mutex.locks + 1, k.mutex.unlocks + 1⟩

@[simp]
theorem Kernel.setMutex_ring (k : Kernel) (m : Mutex) : (k.setMutex m).ring = k.ring :=
  rfl

@[simp]
theorem Kernel.load_setMutex (k : Kernel) (m : Mutex) (p : Option Addr) (off len : ℕ) :
    (k.setMutex m).load p off len = k.load p off len :=
  rfl

theorem Kernel.mutexUnlock_locked (k : Kernel) :
    (k.setMutex ⟨true, k.mutex.locks + 1, k.mutex.unlocks⟩).mutexUnlock = k.cycled :=
  rfl

theorem File.dev_of_open {filp : File} (hopen : filp.privateData = some .aesdDevice) :
    filp.dev = .ok .aesdDevice := by
  rw [File.dev, hopen]

namespace Kernel.Represents

variable {k : Kernel} {s : Log Byte}

/-- The sizes of the entries are the lengths of the last ten commands. -/
theorem sizes_walk (h : k.Represents s) :
    sizes k.ring.walk = (s.committed.rtake 10).map List.length := by
  have hlengths : ∀ {q cmds}, List.Forall₂ (Stored k.heap) q cmds →
      sizes q = cmds.map List.length := by
    intro q cmds hq
    induction hq with
    | nil => rfl
    | cons he _ ih =>
      obtain ⟨a, -, -, hlen, -⟩ := he
      rw [List.map_cons, hlen, ← ih]
      rfl
  exact hlengths h.stored

/-- The slot of the `i`-th command. -/
theorem exists_stored (h : k.Represents s) {i : ℕ} {cmd : List Byte}
    (hcmd : (s.committed.rtake 10)[i]? = some cmd) :
    Stored k.heap (k.ring.slot (k.ring.walkIndex i)) cmd := by
  obtain ⟨hi, rfl⟩ := List.getElem?_eq_some_iff.1 hcmd
  have hi' : i < k.ring.walk.length := by rw [h.stored.length_eq]; exact hi
  rw [h.holds.slot_eq (List.getElem?_eq_getElem hi')]
  exact (List.forall₂_iff_get.1 h.stored).2 i hi' hi

theorem exists_of_mem_walk (h : k.Represents s) {e : AesdBufferEntry} (he : e ∈ k.ring.walk) :
    ∃ cmd, Stored k.heap e cmd := by
  obtain ⟨i, hi, rfl⟩ := List.mem_iff_getElem.1 he
  have hi' : i < (s.committed.rtake 10).length := by rw [← h.stored.length_eq]; exact hi
  exact ⟨_, (List.forall₂_iff_get.1 h.stored).2 i hi hi'⟩

theorem size_lt (h : k.Represents s) {e : AesdBufferEntry} (he : e ∈ k.ring.walk) :
    e.size < 2 ^ 64 := by
  obtain ⟨cmd, a, -, -, hlen, hmax⟩ := h.exists_of_mem_walk he
  exact Nat.lt_of_le_of_lt (hlen ▸ hmax) (by decide)

/-- The scan counts the commands in the ring. -/
theorem size_eq (h : k.Represents s) :
    aesdCircularBufferSize k.ring = (s.committed.rtake 10).length := by
  rw [h.holds.aesdCircularBufferSize_eq, h.stored.length_eq]

theorem cycled (h : k.Represents s) : k.cycled.Represents s :=
  h.setMutex _

end Kernel.Represents

/-! ### Reading -/

section Read

variable {k : Kernel} {s : Log Byte} {filp : File} {count uncopied : ℕ} {fPos : ℤ}

/-- How `aesd_read` answers, from the bytes it is to copy. -/
def readReply (k : Kernel) (piece : List Byte) (uncopied : ℕ) (fPos : ℤ) : Reply :=
  if min uncopied piece.length ≠ 0 then ⟨-EFAULT, fPos, [], k.cycled⟩
  else ⟨piece.length, fPos + piece.length, piece, k.cycled⟩

@[simp]
theorem readReply_kernel (k : Kernel) (piece : List Byte) (uncopied : ℕ) (fPos : ℤ) :
    (readReply k piece uncopied fPos).kernel = k.cycled := by
  rw [readReply]
  split <;> rfl

theorem readReply_zero (k : Kernel) (piece : List Byte) (fPos : ℤ) :
    readReply k piece 0 fPos = ⟨piece.length, fPos + piece.length, piece, k.cycled⟩ := by
  rw [readReply, Nat.zero_min]
  exact if_neg (by simp)

/-- The bytes at position `p`: at most `count`, and from one command only. -/
def readPiece (cmds : List (List Byte)) (p count : ℕ) : List Byte :=
  match locate (cmds.map List.length) p with
  | none => []
  | some (i, o) => (((cmds[i]?).getD []).drop o).take count

/-- No entry holds the position. -/
theorem aesdRead_of_none (hfree : k.mutex.held = false)
    (hopen : filp.privateData = some .aesdDevice) {rtn : ℕ}
    (hfind : aesdCircularBufferFindEntryOffsetForFpos k.ring (fPos % 2 ^ 64).toNat 0 =
      (none, rtn)) :
    aesdRead k filp count uncopied fPos = .ok (readReply k [] uncopied fPos) := by
  have hreply : readReply k [] uncopied fPos = ⟨0, fPos, [], k.cycled⟩ := by simp [readReply]
  simp only [aesdRead, File.dev_of_open hopen, ok_bind, Kernel.mutexLock_of_free hfree,
    Kernel.setMutex_ring, hfind, Kernel.mutexUnlock_locked, hreply]
  rfl

/-- An entry that stores `cmd` holds the position, at offset `o`. -/
theorem aesdRead_of_some (hfree : k.mutex.held = false)
    (hopen : filp.privateData = some .aesdDevice) {slot o : ℕ} {cmd : List Byte}
    (hfind : aesdCircularBufferFindEntryOffsetForFpos k.ring (fPos % 2 ^ 64).toNat 0 =
      (some slot, o))
    (hstored : Stored k.heap (k.ring.slot slot) cmd) (ho : o < cmd.length) :
    aesdRead k filp count uncopied fPos =
      .ok (readReply k ((cmd.drop o).take count) uncopied fPos) := by
  obtain ⟨a, ha, hblock, hlen, hmax⟩ := hstored
  have hmax' : kmallocMaxSize < 2 ^ 64 := by decide
  have havail : sizeT ((k.ring.slot slot).size + 2 ^ 64 - o) = cmd.length - o := by
    rw [← hlen, sizeT]
    omega
  have hinside : o + min count (cmd.length - o) ≤ cmd.length := by omega
  have hload : k.load (k.ring.slot slot).buffptr o (min count (cmd.length - o)) =
      .ok ((cmd.drop o).take count) := by
    simp only [Kernel.load, ha, Option.bind_some, Heap.load_eq hblock hinside]
    rw [← List.length_drop, ← List.take_eq_take_min]
  have hpiece : ((cmd.drop o).take count).length = min count (cmd.length - o) := by
    rw [List.length_take, List.length_drop]
  simp only [aesdRead, File.dev_of_open hopen, ok_bind, Kernel.mutexLock_of_free hfree,
    Kernel.setMutex_ring, Kernel.load_setMutex, hfind, havail, hload,
    Kernel.mutexUnlock_locked, readReply, hpiece]
  split <;> rfl

/-- **`aesd_read` always returns**, with the mutex unlocked as often as locked. -/
theorem exists_aesdRead (h : k.Represents s) (hfree : k.mutex.held = false)
    (hopen : filp.privateData = some .aesdDevice) (count uncopied : ℕ) (fPos : ℤ) :
    ∃ piece, aesdRead k filp count uncopied fPos = .ok (readReply k piece uncopied fPos) := by
  rcases hfind : aesdCircularBufferFindEntryOffsetForFpos k.ring (fPos % 2 ^ 64).toNat 0 with
    ⟨slot | slot, o⟩
  · exact ⟨[], aesdRead_of_none hfree hopen hfind⟩
  · obtain ⟨e, he, heq, ho⟩ := h.holds.findEntry_bound (fun e he ↦ h.size_lt he) hfind
    obtain ⟨cmd, hstored⟩ := h.exists_of_mem_walk he
    obtain ⟨a, -, -, hlen, -⟩ := id hstored
    exact ⟨_, aesdRead_of_some hfree hopen hfind (heq ▸ hstored) (hlen ▸ ho)⟩

/-- Nothing is read from an empty ring. -/
theorem aesdRead_of_empty (h : k.Represents s) (hempty : s.committed = [])
    (hfree : k.mutex.held = false) (hopen : filp.privateData = some .aesdDevice)
    (count uncopied : ℕ) (fPos : ℤ) :
    aesdRead k filp count uncopied fPos = .ok (readReply k [] uncopied fPos) := by
  rcases hfind : aesdCircularBufferFindEntryOffsetForFpos k.ring (fPos % 2 ^ 64).toNat 0 with
    ⟨slot | slot, o⟩
  · exact aesdRead_of_none hfree hopen hfind
  · obtain ⟨e, he, -, -⟩ := h.holds.findEntry_bound (fun e he ↦ h.size_lt he) hfind
    have hwalk := h.stored.length_eq
    rw [hempty, BoundedFifo.length_rtake] at hwalk
    exact absurd (List.length_pos_of_mem he) (by rw [hwalk]; decide)

/-- **What `aesd_read` returns**: the bytes of the log's last ten commands from the position on,
up to the end of the command that holds it. -/
theorem aesdRead_eq (h : k.Represents s) (hfree : k.mutex.held = false)
    (hopen : filp.privateData = some .aesdDevice)
    (hsum : ((s.committed.rtake 10).map List.length).sum < 2 ^ 64) {p : ℕ} (hp : p < 2 ^ 64)
    (count uncopied : ℕ) :
    aesdRead k filp count uncopied p =
      .ok (readReply k (readPiece (s.committed.rtake 10) p count) uncopied p) := by
  have hpos : ((p : ℤ) % 2 ^ 64).toNat = p := by omega
  have hfind := h.holds.findEntry_eq (h.sizes_walk ▸ hsum) p 0
  rw [h.sizes_walk] at hfind
  rw [readPiece]
  rcases hlocate : locate ((s.committed.rtake 10).map List.length) p with - | ⟨i, o⟩
  · rw [hlocate] at hfind
    exact aesdRead_of_none hfree hopen (hpos.symm ▸ hfind)
  · rw [hlocate] at hfind
    obtain ⟨n, hn, ho, -⟩ := locate_eq_some_iff.1 hlocate
    obtain ⟨cmd, hcmd, rfl⟩ := List.getElem?_map .. ▸ hn |> Option.map_eq_some_iff.1
    simp only [hcmd, Option.getD_some]
    exact aesdRead_of_some hfree hopen (hpos.symm ▸ hfind) (h.exists_stored hcmd) ho

end Read

/-! ### Seeking to a command -/

section Seek

variable {k : Kernel} {s : Log Byte} {filp : File} {seekto : AesdSeekto} {uncopied : ℕ}

/-- The position of an offset in a command; there is none if the command does not exist or ends
before the offset. -/
def seekTarget (cmds : List (List Byte)) (seekto : AesdSeekto) : Option ℕ :=
  match cmds[seekto.writeCmd.toNat]? with
  | none => none
  | some cmd =>
    if seekto.writeCmdOffset.toNat < cmd.length then
      some (((cmds.map List.length).take seekto.writeCmd.toNat).sum +
        seekto.writeCmdOffset.toNat)
    else none

theorem loffT_natCast {q : ℕ} (hq : q < 2 ^ 63) : loffT q = q :=
  Int.bmod_eq_of_le (by omega) (by omega)

theorem loffT_loffT_add (a b : ℤ) : loffT (loffT a + b) = loffT (a + b) :=
  Int.bmod_add_bmod

/-- The sum of the entries before the command, taken in an `loff_t`. -/
theorem foldl_loffT (g : ℕ → ℕ) (l : List ℕ) (a : ℤ) :
    loffT (l.foldl (fun pos i ↦ loffT (pos + g i)) a) = loffT (a + (l.map g).sum) := by
  induction l generalizing a with
  | nil => simp
  | cons i l ih =>
    rw [List.foldl_cons, ih, loffT_loffT_add, List.map_cons, List.sum_cons, Nat.cast_add,
      add_assoc]

/-- The sizes the seek adds up are those of the commands before the one it seeks. -/
theorem map_size_range (h : k.Represents s) {n : ℕ} (hn : n ≤ (s.committed.rtake 10).length) :
    (List.range n).map (fun i ↦ (k.ring.slot (k.ring.walkIndex i)).size) =
      ((s.committed.rtake 10).map List.length).take n := by
  refine List.ext_getElem? fun i ↦ ?_
  rw [List.getElem?_map]
  rcases Nat.lt_or_ge i n with hi | hi
  · have hlt : i < (s.committed.rtake 10).length := by omega
    have hget := List.getElem?_eq_getElem hlt
    obtain ⟨a, -, -, hlen, -⟩ := h.exists_stored hget
    rw [List.getElem?_range hi, List.getElem?_take_of_lt hi, List.getElem?_map, hget,
      Option.map_some, Option.map_some, hlen]
  · rw [List.getElem?_eq_none (by simpa using hi), List.getElem?_take_eq_none hi, Option.map_none]

/-- A request the driver does not know. -/
theorem aesdUnlockedIoctl_of_ne (hopen : filp.privateData = some .aesdDevice) {cmd : ℕ}
    (hcmd : cmd ≠ aesdcharIocseekto) :
    aesdUnlockedIoctl k filp cmd seekto uncopied = .ok ⟨-ENOTTY, filp.fPos, [], k⟩ := by
  rw [aesdUnlockedIoctl, File.dev_of_open hopen, ok_bind, if_neg hcmd]
  rfl

/-- The argument could not be copied. -/
theorem aesdUnlockedIoctl_of_uncopied (hopen : filp.privateData = some .aesdDevice)
    (hcopy : min uncopied 8 ≠ 0) :
    aesdUnlockedIoctl k filp aesdcharIocseekto seekto uncopied =
      .ok ⟨-EFAULT, filp.fPos, [], k⟩ := by
  rw [aesdUnlockedIoctl, File.dev_of_open hopen, ok_bind, if_pos rfl, if_pos hcopy]
  rfl

/-- **Seeking to a byte of the ring** moves there. -/
theorem aesdUnlockedIoctl_of_target (h : k.Represents s) (hfree : k.mutex.held = false)
    (hopen : filp.privateData = some .aesdDevice) (hcopy : min uncopied 8 = 0) {p : ℕ}
    (htarget : seekTarget (s.committed.rtake 10) seekto = some p) :
    aesdUnlockedIoctl k filp aesdcharIocseekto seekto uncopied =
      .ok ⟨0, loffT p, [], k.cycled⟩ := by
  rw [seekTarget] at htarget
  rcases hcmd : (s.committed.rtake 10)[seekto.writeCmd.toNat]? with - | cmd
  · rw [hcmd] at htarget
    exact absurd htarget (by simp)
  simp only [hcmd, Option.ite_none_right_eq_some, Option.some.injEq] at htarget
  obtain ⟨ho, rfl⟩ := htarget
  obtain ⟨hlt, -⟩ := List.getElem?_eq_some_iff.1 hcmd
  obtain ⟨a, -, -, hlen, -⟩ := h.exists_stored hcmd
  have hscan := h.size_eq
  have hsum := foldl_loffT (fun i ↦ (k.ring.slot (k.ring.walkIndex i)).size)
    (List.range seekto.writeCmd.toNat) 0
  rw [map_size_range h (Nat.le_of_lt hlt), zero_add] at hsum
  rw [aesdUnlockedIoctl, File.dev_of_open hopen, ok_bind, if_pos rfl, if_neg (by omega),
    Kernel.mutexLock_of_free hfree, ok_bind, Kernel.setMutex_ring, if_neg (by omega)]
  show (if seekto.writeCmdOffset.toNat ≥
    (k.ring.slot (k.ring.walkIndex seekto.writeCmd.toNat)).size then _ else _) = _
  rw [if_neg (by omega), Nat.cast_add, ← loffT_loffT_add, ← hsum, loffT_loffT_add]
  rfl

/-- **Seeking past the ring or past a command** fails and leaves the mutex held. -/
theorem aesdUnlockedIoctl_of_no_target (h : k.Represents s) (hfree : k.mutex.held = false)
    (hopen : filp.privateData = some .aesdDevice) (hcopy : min uncopied 8 = 0)
    (htarget : seekTarget (s.committed.rtake 10) seekto = none) :
    aesdUnlockedIoctl k filp aesdcharIocseekto seekto uncopied =
      .ok ⟨-EINVAL, filp.fPos, [], k.setMutex ⟨true, k.mutex.locks + 1, k.mutex.unlocks⟩⟩ := by
  have hscan := h.size_eq
  rw [aesdUnlockedIoctl, File.dev_of_open hopen, ok_bind, if_pos rfl, if_neg (by omega),
    Kernel.mutexLock_of_free hfree, ok_bind, Kernel.setMutex_ring]
  rw [seekTarget] at htarget
  rcases Nat.lt_or_ge seekto.writeCmd.toNat (s.committed.rtake 10).length with hlt | hge
  · have hcmd := List.getElem?_eq_getElem hlt
    obtain ⟨a, -, -, hlen, -⟩ := h.exists_stored hcmd
    simp only [hcmd, ite_eq_right_iff, reduceCtorEq, imp_false] at htarget
    rw [if_neg (by omega)]
    show (if seekto.writeCmdOffset.toNat ≥
      (k.ring.slot (k.ring.walkIndex seekto.writeCmd.toNat)).size then _ else _) = _
    rw [if_pos (by omega)]
    rfl
  · rw [if_pos (by omega)]
    rfl

/-- What a control call answers, with the mutex free. -/
inductive IoctlReply (k : Kernel) (s : Log Byte) (filp : File) (cmd : ℕ) (seekto : AesdSeekto)
    (uncopied : ℕ) : Reply → Prop
  | unknown (hcmd : cmd ≠ aesdcharIocseekto) :
      IoctlReply k s filp cmd seekto uncopied ⟨-ENOTTY, filp.fPos, [], k⟩
  | uncopied (hcmd : cmd = aesdcharIocseekto) (hcopy : min uncopied 8 ≠ 0) :
      IoctlReply k s filp cmd seekto uncopied ⟨-EFAULT, filp.fPos, [], k⟩
  | found (hcmd : cmd = aesdcharIocseekto) (hcopy : min uncopied 8 = 0) {p : ℕ}
      (htarget : seekTarget (s.committed.rtake 10) seekto = some p) :
      IoctlReply k s filp cmd seekto uncopied ⟨0, loffT p, [], k.cycled⟩
  | notFound (hcmd : cmd = aesdcharIocseekto) (hcopy : min uncopied 8 = 0)
      (htarget : seekTarget (s.committed.rtake 10) seekto = none) :
      IoctlReply k s filp cmd seekto uncopied
        ⟨-EINVAL, filp.fPos, [], k.setMutex ⟨true, k.mutex.locks + 1, k.mutex.unlocks⟩⟩

/-- **The control call** returns, in one of four ways. -/
theorem exists_ioctlReply (h : k.Represents s) (hfree : k.mutex.held = false)
    (hopen : filp.privateData = some .aesdDevice) (cmd : ℕ) (seekto : AesdSeekto)
    (uncopied : ℕ) :
    ∃ reply, aesdUnlockedIoctl k filp cmd seekto uncopied = .ok reply ∧
      IoctlReply k s filp cmd seekto uncopied reply := by
  by_cases hcmd : cmd = aesdcharIocseekto
  · subst hcmd
    by_cases hcopy : min uncopied 8 = 0
    · rcases htarget : seekTarget (s.committed.rtake 10) seekto with - | p
      · exact ⟨_, aesdUnlockedIoctl_of_no_target h hfree hopen hcopy htarget,
          .notFound rfl hcopy htarget⟩
      · exact ⟨_, aesdUnlockedIoctl_of_target h hfree hopen hcopy htarget,
          .found rfl hcopy htarget⟩
    · exact ⟨_, aesdUnlockedIoctl_of_uncopied hopen hcopy, .uncopied rfl hcopy⟩
  · exact ⟨_, aesdUnlockedIoctl_of_ne hopen hcmd, .unknown hcmd⟩

/-- With the mutex held, it waits for it, or it has nothing to do with the data of the device. -/
theorem aesdUnlockedIoctl_of_held (hheld : k.mutex.held = true)
    (hopen : filp.privateData = some .aesdDevice) (cmd : ℕ) (seekto : AesdSeekto)
    (uncopied : ℕ) :
    aesdUnlockedIoctl k filp cmd seekto uncopied = .error .blocked ∨
      ∃ ret, aesdUnlockedIoctl k filp cmd seekto uncopied = .ok ⟨ret, filp.fPos, [], k⟩ := by
  by_cases hcmd : cmd = aesdcharIocseekto
  · subst hcmd
    by_cases hcopy : min uncopied 8 = 0
    · refine Or.inl ?_
      rw [aesdUnlockedIoctl, File.dev_of_open hopen, ok_bind, if_pos rfl, if_neg (by omega),
        Kernel.mutexLock_of_held hheld]
      rfl
    · exact Or.inr ⟨_, aesdUnlockedIoctl_of_uncopied hopen hcopy⟩
  · exact Or.inr ⟨_, aesdUnlockedIoctl_of_ne hopen hcmd⟩

end Seek

end Aesd
