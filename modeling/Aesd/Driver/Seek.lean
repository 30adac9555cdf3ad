import Aesd.Driver.System

/-!
# Seeking and finding

The two ways to name a byte of the ring are inverse to each other: `AESDCHAR_IOCSEEKTO` goes from a
command and an offset in it to a position (`seekTarget`), the lookup from a position to the slot of
a command and an offset. The pairs that the control call accepts and the positions below the total
size correspond one to one (`seek_and_find_inverse`).

The driver judges positions by two scans over all ten slots, and finds bytes by a walk of the ring.
Both see the same entries, so that `lseek` accepts exactly the positions up to the one where reading
ends (`scans_agree_with_walk`). `fixed_size_llseek` of the kernel is a parameter, and `SeeksWithin`
what is assumed of it.
-/

namespace Aesd

open Memory Framing BoundedFifo Positions Execution

/-- A control call. -/
def Op.controls : Op → Bool
  | .ioctl .. => true
  | _ => false

theorem Op.strands_of_not_controls {sys : System} {op : Op} (h : op.controls = false) :
    op.strands sys = false := by
  cases op with
  | ioctl => exact absurd h (by simp [Op.controls])
  | _ => rfl

/-- After a run without control calls the device represents a log and its mutex is free. -/
theorem System.exists_represents_free {fixedSizeLlseek : ℤ → ℤ → ℤ → ℤ → ℤ × ℤ} {ops : List Op}
    {answers : List Answer} {sys : System}
    (hrun : run (step fixedSizeLlseek) .init ops = .ok (answers, sys))
    (hops : ∀ op ∈ ops, op.controls = false) :
    ∃ s, sys.Represents s ∧ sys.kernel.mutex.held = false := by
  refine invariant_of_along (I := fun sys ↦ ∃ s, sys.Represents s ∧ sys.kernel.mutex.held = false)
    (C := fun _ op ↦ op.controls = false) (D := fun _ ↦ True) ?_
    ⟨_, System.represents_init, rfl⟩ hrun (along_of_forall hops) fun _ _ ↦ trivial
  rintro sys op a sys' ⟨s, hs, hfree⟩ hop - hstep
  obtain ⟨a₁, sys₁, hstep₁, hrep, hmutex, -⟩ := hs.exists_step hfree fixedSizeLlseek op
  obtain ⟨rfl, rfl⟩ := Prod.mk.inj (Except.ok.inj (hstep.symm.trans hstep₁))
  exact ⟨_, hrep, (hmutex (Op.strands_of_not_controls hop)).1⟩

/-! ### Commands and positions -/

theorem seekTarget_eq_some_iff {cmds : List (List Byte)} {seekto : AesdSeekto} {p : ℕ} :
    seekTarget cmds seekto = some p ↔
      ∃ cmd, cmds[seekto.writeCmd.toNat]? = some cmd ∧ seekto.writeCmdOffset.toNat < cmd.length ∧
        p = ((cmds.map List.length).take seekto.writeCmd.toNat).sum +
          seekto.writeCmdOffset.toNat := by
  rw [seekTarget]
  rcases hcmd : cmds[seekto.writeCmd.toNat]? with - | cmd
  · simp
  · simp only [Option.ite_none_right_eq_some, Option.some.injEq]
    constructor
    · rintro ⟨ho, rfl⟩
      exact ⟨cmd, rfl, ho, rfl⟩
    · rintro ⟨_, rfl, ho, rfl⟩
      exact ⟨ho, rfl⟩

/-- The position sought is where the command and the offset are found again. -/
theorem locate_of_seekTarget {cmds : List (List Byte)} {seekto : AesdSeekto} {p : ℕ}
    (h : seekTarget cmds seekto = some p) :
    locate (cmds.map List.length) p =
      some (seekto.writeCmd.toNat, seekto.writeCmdOffset.toNat) := by
  obtain ⟨cmd, hcmd, ho, rfl⟩ := seekTarget_eq_some_iff.1 h
  refine locate_sum_take_add ?_ ho
  rw [List.getElem?_map, hcmd, Option.map_some]

/-- It is inside the ring. -/
theorem seekTarget_lt {cmds : List (List Byte)} {seekto : AesdSeekto} {p : ℕ}
    (h : seekTarget cmds seekto = some p) : p < (cmds.map List.length).sum := by
  have hfound := locate_of_seekTarget h
  by_contra hge
  rw [locate_eq_none_iff.2 (Nat.le_of_not_lt hge)] at hfound
  exact absurd hfound (by simp)

/-- **Every position is sought by exactly one pair**, when the pairs can count that far. -/
theorem existsUnique_seekTarget {cmds : List (List Byte)} (hlen : cmds.length < 2 ^ 32)
    (hcmds : ∀ cmd ∈ cmds, cmd.length < 2 ^ 32) {p : ℕ} (hp : p < (cmds.map List.length).sum) :
    ∃! seekto, seekTarget cmds seekto = some p := by
  rcases hlocate : locate (cmds.map List.length) p with - | ⟨i, o⟩
  · exact absurd (locate_eq_none_iff.1 hlocate) (by omega)
  obtain ⟨n, hn, ho, hsum⟩ := locate_eq_some_iff.1 hlocate
  obtain ⟨cmd, hcmd, rfl⟩ := Option.map_eq_some_iff.1 (List.getElem?_map .. ▸ hn)
  have hi : i < 2 ^ 32 := Nat.lt_trans (List.getElem?_eq_some_iff.1 hcmd).1 hlen
  have ho' : o < 2 ^ 32 := Nat.lt_trans ho (hcmds cmd (List.mem_of_getElem? hcmd))
  have hi' : (UInt32.ofNat i).toNat = i := UInt32.toNat_ofNat_of_lt' hi
  have ho'' : (UInt32.ofNat o).toNat = o := UInt32.toNat_ofNat_of_lt' ho'
  refine ⟨⟨UInt32.ofNat i, UInt32.ofNat o⟩, ?_, fun seekto hseek ↦ ?_⟩
  · refine seekTarget_eq_some_iff.2 ⟨cmd, ?_, ?_, ?_⟩
    · show cmds[(UInt32.ofNat i).toNat]? = _
      rw [hi', hcmd]
    · show (UInt32.ofNat o).toNat < _
      rw [ho'']
      exact ho
    · show p = (((cmds.map List.length).take (UInt32.ofNat i).toNat).sum + (UInt32.ofNat o).toNat)
      rw [hi', ho'', hsum]
  · have hback := locate_of_seekTarget hseek
    rw [hlocate, Option.some.injEq, Prod.mk.injEq] at hback
    obtain ⟨rfl, rfl⟩ := hback
    rw [UInt32.ofNat_toNat, UInt32.ofNat_toNat]

section Ring

variable {k : Kernel} {s : Log Byte} {filp : File} {seekto : AesdSeekto}

/-- The control call on a device with a free mutex accepts exactly the pairs that name a byte. -/
theorem exists_seek (h : k.Represents s) (hfree : k.mutex.held = false)
    (hopen : filp.privateData = some .aesdDevice)
    (hsum : ((s.committed.rtake 10).map List.length).sum < 2 ^ 63) (seekto : AesdSeekto) :
    ∃ reply, aesdUnlockedIoctl k filp aesdcharIocseekto seekto 0 = .ok reply ∧
      ∀ p : ℕ, (reply.ret = 0 ∧ reply.fPos = p) ↔
        seekTarget (s.committed.rtake 10) seekto = some p := by
  rcases htarget : seekTarget (s.committed.rtake 10) seekto with - | q
  · refine ⟨_, aesdUnlockedIoctl_of_no_target h hfree hopen (Nat.zero_min 8) htarget, fun p ↦ ?_⟩
    exact iff_of_false (fun hret ↦ absurd (show (-EINVAL : ℤ) = 0 from hret.1) (by decide))
      (by simp)
  · refine ⟨_, aesdUnlockedIoctl_of_target h hfree hopen (Nat.zero_min 8) htarget, fun p ↦ ?_⟩
    have hpos : loffT q = q := loffT_natCast (Nat.lt_trans (seekTarget_lt htarget) hsum)
    simp only [hpos, Option.some.injEq, Nat.cast_inj, true_and]

/-- A control call that does not succeed moves no file and changes no ring. -/
theorem unchanged_of_ioctl_ne_zero (h : k.Represents s) (hfree : k.mutex.held = false)
    (hopen : filp.privateData = some .aesdDevice) {cmd uncopied : ℕ} {reply : Reply}
    (hioctl : aesdUnlockedIoctl k filp cmd seekto uncopied = .ok reply) (hret : reply.ret ≠ 0) :
    reply.fPos = filp.fPos ∧ reply.kernel.ring = k.ring := by
  obtain ⟨reply', hioctl', hreply⟩ := exists_ioctlReply h hfree hopen cmd seekto uncopied
  obtain rfl := Except.ok.inj (hioctl.symm.trans hioctl')
  cases hreply with
  | found => exact absurd rfl hret
  | _ => exact ⟨rfl, rfl⟩

end Ring

/-- **Seeking to a command and finding a position are inverse.** On every device reached without
control calls whose retained commands are shorter than `2 ^ 32` bytes each and than `2 ^ 63`
together: `AESDCHAR_IOCSEEKTO` returns, with 0 exactly when the pair names a byte of a retained
command; the position is then that of the byte, and the lookup there finds the slot of that
command and the offset; every position below the total size is that of exactly one accepted pair;
and a control call that does not return 0 changes neither the position nor the ring. -/
theorem seek_and_find_inverse {fixedSizeLlseek : ℤ → ℤ → ℤ → ℤ → ℤ × ℤ} {ops : List Op}
    {answers : List Answer} {sys : System}
    (hrun : run (step fixedSizeLlseek) .init ops = .ok (answers, sys))
    (hops : ∀ op ∈ ops, op.controls = false)
    (hlen : ∀ cmd ∈ sys.kernel.commands, cmd.length < 2 ^ 32)
    (hsum : (sys.kernel.commands.map List.length).sum < 2 ^ 63) {filp : File}
    (hopen : filp.privateData = some .aesdDevice) (rtn : ℕ) :
    (∀ seekto, ∃ reply,
      aesdUnlockedIoctl sys.kernel filp aesdcharIocseekto seekto 0 = .ok reply ∧
      (reply.ret = 0 ↔ ∃ cmd, sys.kernel.commands[seekto.writeCmd.toNat]? = some cmd ∧
        seekto.writeCmdOffset.toNat < cmd.length) ∧
      (reply.ret = 0 → ∃ (p slot : ℕ) (cmd : List Byte), reply.fPos = p ∧
        p = ((sys.kernel.commands.map List.length).take seekto.writeCmd.toNat).sum +
          seekto.writeCmdOffset.toNat ∧
        aesdCircularBufferFindEntryOffsetForFpos sys.kernel.ring p rtn =
          (some slot, seekto.writeCmdOffset.toNat) ∧
        sys.kernel.commands[seekto.writeCmd.toNat]? = some cmd ∧
        slot = sys.kernel.ring.walkIndex seekto.writeCmd.toNat ∧
        Stored sys.kernel.heap (sys.kernel.ring.slot slot) cmd)) ∧
    (∀ p : ℕ, p < aesdCircularBufferTotalSize sys.kernel.ring → ∃! seekto, ∃ reply,
      aesdUnlockedIoctl sys.kernel filp aesdcharIocseekto seekto 0 = .ok reply ∧
        reply.ret = 0 ∧ reply.fPos = p) ∧
    ∀ cmd seekto uncopied reply,
      aesdUnlockedIoctl sys.kernel filp cmd seekto uncopied = .ok reply → reply.ret ≠ 0 →
        reply.fPos = filp.fPos ∧ reply.kernel.ring = sys.kernel.ring := by
  obtain ⟨s, hs, hfree⟩ := System.exists_represents_free hrun hops
  rw [hs.kernel.commands_eq] at hlen hsum ⊢
  have hsizes := hs.kernel.sizes_walk
  refine ⟨fun seekto ↦ ?_, fun p hp ↦ ?_, fun cmd seekto uncopied reply ↦
    unchanged_of_ioctl_ne_zero hs.kernel hfree hopen⟩
  · obtain ⟨reply, hioctl, hreply⟩ := exists_seek hs.kernel hfree hopen hsum seekto
    have hnames : reply.ret = 0 → ∃ p : ℕ, reply.fPos = p ∧
        seekTarget (s.committed.rtake 10) seekto = some p := by
      intro hret
      rcases htarget : seekTarget (s.committed.rtake 10) seekto with - | p
      · rw [aesdUnlockedIoctl_of_no_target hs.kernel hfree hopen (Nat.zero_min 8) htarget] at hioctl
        obtain rfl := Except.ok.inj hioctl
        exact absurd (show (-EINVAL : ℤ) = 0 from hret) (by decide)
      · exact ⟨p, ((hreply p).2 htarget).2, rfl⟩
    refine ⟨reply, hioctl, ⟨fun hret ↦ ?_, fun ⟨cmd, hcmd, ho⟩ ↦ ?_⟩, fun hret ↦ ?_⟩
    · obtain ⟨p, -, htarget⟩ := hnames hret
      obtain ⟨cmd, hcmd, ho, -⟩ := seekTarget_eq_some_iff.1 htarget
      exact ⟨cmd, hcmd, ho⟩
    · exact ((hreply _).2 (seekTarget_eq_some_iff.2 ⟨cmd, hcmd, ho, rfl⟩)).1
    · obtain ⟨p, hpos, htarget⟩ := hnames hret
      obtain ⟨cmd, hcmd, ho, hp⟩ := seekTarget_eq_some_iff.1 htarget
      have hfind := hs.kernel.holds.findEntry_eq (hsizes ▸ Nat.lt_trans hsum (by decide)) p rtn
      rw [hsizes, locate_of_seekTarget htarget] at hfind
      exact ⟨p, _, cmd, hpos, hp, hfind, hcmd, rfl, hs.kernel.exists_stored hcmd⟩
  · rw [hs.kernel.holds.aesdCircularBufferTotalSize_eq (hsizes ▸ Nat.lt_trans hsum (by decide)),
      hsizes] at hp
    have hcount : (s.committed.rtake 10).length < 2 ^ 32 := by
      rw [length_rtake]
      omega
    obtain ⟨seekto, htarget, hunique⟩ := existsUnique_seekTarget hcount hlen hp
    obtain ⟨reply, hioctl, hreply⟩ := exists_seek hs.kernel hfree hopen hsum seekto
    refine ⟨seekto, ⟨reply, hioctl, (hreply p).2 htarget⟩, ?_⟩
    rintro seekto' ⟨reply', hioctl', hret'⟩
    obtain ⟨reply₁, hioctl₁, hreply₁⟩ := exists_seek hs.kernel hfree hopen hsum seekto'
    obtain rfl := Except.ok.inj (hioctl'.symm.trans hioctl₁)
    exact hunique seekto' ((hreply₁ p).1 hret')

/-- Two commands; offset 1 of the second one is position 4. -/
theorem seek_and_find_inverse_two_commands :
    let ops : List Op := [.openFile 0, .write 0 ⟨[97, 98, newline], by decide⟩ .granting,
      .write 0 ⟨[99, newline], by decide⟩ .granting]
    ∃ answers sys, run (step stayPut) .init ops = .ok (answers, sys) ∧
      ∃ reply slot, aesdUnlockedIoctl sys.kernel ⟨some .aesdDevice, 0⟩ aesdcharIocseekto ⟨1, 1⟩ 0 =
          .ok reply ∧ reply.fPos = (4 : ℕ) ∧
        aesdCircularBufferFindEntryOffsetForFpos sys.kernel.ring 4 0 = (some slot, 1) := by
  intro ops
  have hopen : (⟨some .aesdDevice, 0⟩ : File).privateData = some .aesdDevice := rfl
  obtain ⟨hseek, -⟩ := @seek_and_find_inverse stayPut ops _ _ rfl (by decide) (by decide)
    (by decide) _ hopen 0
  obtain ⟨reply, hioctl, hret, hfound⟩ := hseek ⟨1, 1⟩
  obtain ⟨p, slot, cmd, hpos, hp, hfind, -⟩ := hfound (hret.2 ⟨[99, newline], rfl, by decide⟩)
  obtain rfl : p = 4 := hp
  exact ⟨_, _, rfl, reply, slot, hioctl, hpos, hfind⟩

/-! ### Seeking by offset -/

/-- The position that `lseek` is asked for: from the start, from the current position or from the
end. -/
def lseekTarget (fPos offset whence size : ℤ) : ℤ :=
  if whence = 0 then offset else if whence = 1 then fPos + offset else size + offset

/-- What `fixed_size_llseek` does for `SEEK_SET`, `SEEK_CUR` and `SEEK_END`: it moves to a position
up to the size and refuses any other. Asking for the current position (`SEEK_CUR` with offset 0) is
never refused. -/
structure SeeksWithin (fixedSizeLlseek : ℤ → ℤ → ℤ → ℤ → ℤ × ℤ) : Prop where
  accept : ∀ fPos offset whence size, whence = 0 ∨ whence = 1 ∨ whence = 2 →
    0 ≤ lseekTarget fPos offset whence size → lseekTarget fPos offset whence size ≤ size →
      fixedSizeLlseek fPos offset whence size =
        (lseekTarget fPos offset whence size, lseekTarget fPos offset whence size)
  refuse : ∀ fPos offset whence size, whence = 0 ∨ whence = 1 ∨ whence = 2 →
    ¬ (whence = 1 ∧ offset = 0) →
    ¬ (0 ≤ lseekTarget fPos offset whence size ∧ lseekTarget fPos offset whence size ≤ size) →
      fixedSizeLlseek fPos offset whence size = (-EINVAL, fPos)

section Walk

variable {k : Kernel} {filp : File} {q : List AesdBufferEntry}

/-- Reading with a positive count returns 0 exactly behind the last byte. -/
theorem aesdRead_eq_zero_iff (h : Holds k.ring q) (hlive : ∀ e ∈ q, ∃ cmd, Stored k.heap e cmd)
    (hsum : (sizes q).sum < 2 ^ 63) (hfree : k.mutex.held = false)
    (hopen : filp.privateData = some .aesdDevice) {p count : ℕ} (hp : p < 2 ^ 63)
    (hcount : 0 < count) (uncopied : ℕ) :
    ∃ reply, aesdRead k filp count uncopied p = .ok reply ∧
      (reply.ret = 0 ↔ (sizes q).sum ≤ p) := by
  have hpos : ((p : ℤ) % 2 ^ 64).toNat = p := by omega
  have hfind := h.findEntry_eq (Nat.lt_trans hsum (by decide)) p 0
  rcases hlocate : locate (sizes q) p with - | ⟨i, o⟩
  · rw [hlocate] at hfind
    refine ⟨_, aesdRead_of_none hfree hopen (hpos.symm ▸ hfind), ?_⟩
    have hret : (readReply k [] uncopied p).ret = 0 := by simp [readReply]
    exact iff_of_true hret (locate_eq_none_iff.1 hlocate)
  · rw [hlocate] at hfind
    obtain ⟨n, hn, ho, hsplit⟩ := locate_eq_some_iff.1 hlocate
    obtain ⟨e, he, rfl⟩ := Option.map_eq_some_iff.1 (List.getElem?_map .. ▸ hn)
    obtain ⟨cmd, hstored⟩ := hlive e (List.mem_of_getElem? he)
    obtain ⟨a, -, -, hlen, -⟩ := id hstored
    refine ⟨_, aesdRead_of_some hfree hopen (hpos.symm ▸ hfind) ((h.slot_eq he).symm ▸ hstored)
      (by omega), ?_⟩
    have hbelow : ¬ (sizes q).sum ≤ p := fun hge ↦ by
      rw [locate_eq_none_iff.2 hge] at hlocate
      exact absurd hlocate (by simp)
    refine iff_of_false ?_ hbelow
    have hpiece : 0 < ((cmd.drop o).take count).length := by
      rw [List.length_take, List.length_drop]
      omega
    rw [readReply]
    split
    · exact fun hret ↦ absurd (show (-EFAULT : ℤ) = 0 from hret) (by decide)
    · exact fun hret ↦ absurd (Int.natCast_eq_zero.1 hret) (Nat.ne_of_gt hpiece)

end Walk

/-- **The scans over the slots agree with the walk.** On the buffer after any run of calls of
`aesd_circular_buffer_add_entry` with non-null entries, whose last ten sizes sum to less than
`2 ^ 63`: the number of slots in use is the number of entries the lookup walks, and the total size
is the sum of their sizes. So on a device with that ring, a free mutex and its entries in memory,
`aesd_llseek` moves to a position exactly when it is at least 0 and at most the total; at such a
position a read with a positive count returns 0 exactly when the position is the total; and
`SEEK_END` moves there. -/
theorem scans_agree_with_walk {l : List AesdBufferEntry} (hl : ∀ e ∈ l, e.buffptr ≠ none)
    (hsum : (sizes (l.rtake 10)).sum < 2 ^ 63) {fixedSizeLlseek : ℤ → ℤ → ℤ → ℤ → ℤ × ℤ}
    (hseek : SeeksWithin fixedSizeLlseek) {k : Kernel}
    (hring : k.ring = (addAll aesdCircularBufferInit l).2)
    (hlive : ∀ e ∈ l.rtake 10, ∃ cmd, Stored k.heap e cmd) (hfree : k.mutex.held = false)
    {filp : File} (hopen : filp.privateData = some .aesdDevice) :
    let total := (sizes k.ring.walk).sum
    aesdCircularBufferSize k.ring = k.ring.totalEntries ∧
    k.ring.walk = l.rtake 10 ∧ aesdCircularBufferTotalSize k.ring = total ∧
    (∀ offset whence, whence = 0 ∨ whence = 1 ∨ whence = 2 →
      ∃ reply, aesdLlseek fixedSizeLlseek k filp offset whence = .ok reply ∧
        (0 ≤ lseekTarget filp.fPos offset whence total ∧
            lseekTarget filp.fPos offset whence total ≤ total →
          reply.ret = lseekTarget filp.fPos offset whence total ∧
            reply.fPos = lseekTarget filp.fPos offset whence total ∧
          ∀ count uncopied, 0 < count →
            ∃ reply', aesdRead reply.kernel { filp with fPos := reply.fPos } count uncopied
                reply.fPos = .ok reply' ∧ (reply'.ret = 0 ↔ reply.fPos = total)) ∧
        (¬ (0 ≤ lseekTarget filp.fPos offset whence total ∧
            lseekTarget filp.fPos offset whence total ≤ total) →
          ¬ (whence = 1 ∧ offset = 0) → reply.ret = -EINVAL ∧ reply.fPos = filp.fPos)) ∧
    ∃ reply, aesdLlseek fixedSizeLlseek k filp 0 2 = .ok reply ∧ reply.ret = total ∧
      reply.fPos = total := by
  intro total
  have hholds : Holds k.ring (l.rtake 10) := hring ▸ holds_addAll hl
  have htotal : total = (sizes (l.rtake 10)).sum := by
    show (sizes k.ring.walk).sum = _
    rw [hholds.walk_eq]
  have hscan : aesdCircularBufferTotalSize k.ring = total := by
    rw [htotal]
    exact hholds.aesdCircularBufferTotalSize_eq (Nat.lt_trans hsum (by decide))
  have hsize : loffT (aesdCircularBufferTotalSize k.ring) = total := by
    rw [hscan]
    exact loffT_natCast (htotal ▸ hsum)
  have hllseek : ∀ offset whence, aesdLlseek fixedSizeLlseek k filp offset whence =
      .ok ⟨(fixedSizeLlseek filp.fPos offset whence total).1,
        (fixedSizeLlseek filp.fPos offset whence total).2, [], k.cycled⟩ := fun offset whence ↦ by
    rw [System.aesdLlseek_eq hfree hopen, hsize]
  refine ⟨?_, hholds.walk_eq, hscan, fun offset whence hwhence ↦ ⟨_, hllseek offset whence, ?_, ?_⟩,
    _, hllseek 0 2, ?_⟩
  · rw [hholds.aesdCircularBufferSize_eq, hholds.totalEntries_eq]
  · rintro ⟨hnonneg, hle⟩
    simp only [hseek.accept _ _ _ _ hwhence hnonneg hle, true_and]
    intro count uncopied hcount
    obtain ⟨p, hp⟩ := Int.eq_ofNat_of_zero_le hnonneg
    rw [hp, htotal] at hle
    rw [hp, htotal]
    have hopen' : ({ filp with fPos := p } : File).privateData = some .aesdDevice := hopen
    have hp63 : p < 2 ^ 63 := by omega
    obtain ⟨reply', hread, hreply'⟩ := aesdRead_eq_zero_iff (k := k.cycled) hholds hlive hsum rfl
      hopen' hp63 hcount uncopied
    refine ⟨reply', hread, hreply'.trans ?_⟩
    omega
  · intro hout hmoves
    simp only [hseek.refuse _ _ _ _ hwhence hmoves hout, true_and]
  · have hend : lseekTarget filp.fPos 0 2 total = total := by
      show (total : ℤ) + 0 = total
      omega
    have haccept := hseek.accept filp.fPos 0 2 total (by decide) (by omega) (by omega)
    rw [hend] at haccept
    simp only [haccept, true_and]

/-- A `fixed_size_llseek` that knows `SEEK_SET`, `SEEK_CUR` and `SEEK_END`. -/
def seekWithin (fPos offset whence size : ℤ) : ℤ × ℤ :=
  if whence = 0 ∨ whence = 1 ∨ whence = 2 then
    if whence = 1 ∧ offset = 0 then (fPos, fPos)
    else if 0 ≤ lseekTarget fPos offset whence size ∧
        lseekTarget fPos offset whence size ≤ size then
      (lseekTarget fPos offset whence size, lseekTarget fPos offset whence size)
    else (-EINVAL, fPos)
  else (-EINVAL, fPos)

theorem seeksWithin_seekWithin : SeeksWithin seekWithin where
  accept fPos offset whence size hwhence hnonneg hle := by
    rw [seekWithin, if_pos hwhence, if_pos (⟨hnonneg, hle⟩ : _ ∧ _)]
    split
    · next hcur =>
      obtain ⟨rfl, rfl⟩ := hcur
      simp [lseekTarget]
    · rfl
  refuse fPos offset whence size hwhence hmoves hout := by
    rw [seekWithin, if_pos hwhence, if_neg hmoves, if_neg hout]

/-- Eleven entries, of one to eleven bytes: the ring has wrapped, the first entry is overwritten and
its command freed. `SEEK_SET` to the last byte is accepted and a read there returns one, behind the
end it is refused, and `SEEK_END` moves to the 65 bytes that are left. -/
theorem scans_agree_with_walk_wrapped :
    let l := (List.range 11).map fun i ↦ (⟨some i, i + 1⟩ : AesdBufferEntry)
    let k : Kernel := { (aesdInitModule) with
      heap := ⟨none :: (List.range 10).map fun i ↦ some (List.replicate (i + 2) newline)⟩
      aesdDevice := { aesdInitModule.aesdDevice with
        aesdWriteBuffer := (addAll aesdCircularBufferInit l).2 } }
    let filp : File := ⟨some .aesdDevice, 0⟩
    k.ring.inOffs = 1 ∧ aesdCircularBufferSize k.ring = k.ring.totalEntries ∧
    k.ring.walk = l.rtake 10 ∧ aesdCircularBufferTotalSize k.ring = 65 ∧
    (∃ reply, aesdLlseek seekWithin k filp 64 0 = .ok reply ∧ reply.fPos = 64 ∧
      ∃ reply', aesdRead reply.kernel { filp with fPos := reply.fPos } 8 0 reply.fPos =
        .ok reply' ∧ reply'.ret ≠ 0) ∧
    (∃ reply, aesdLlseek seekWithin k filp 66 0 = .ok reply ∧ reply.ret = -EINVAL) ∧
    ∃ reply, aesdLlseek seekWithin k filp 0 2 = .ok reply ∧ reply.ret = 65 := by
  intro l k filp
  have hopen : filp.privateData = some .aesdDevice := rfl
  have hl : ∀ e ∈ l, e.buffptr ≠ none := by
    decide
  have hlast : l.rtake 10 = (List.range 10).map fun i ↦ ⟨some (i + 1), i + 2⟩ := by
    decide
  have hsum : (sizes (l.rtake 10)).sum = 65 := by
    decide
  have hblocks : ∀ i < 10, k.heap.block (i + 1) = some (List.replicate (i + 2) newline) := by
    decide
  have hlive : ∀ e ∈ l.rtake 10, ∃ cmd, Stored k.heap e cmd := by
    intro e he
    rw [hlast] at he
    obtain ⟨i, hi, rfl⟩ := List.mem_map.1 he
    have hi' : i < 10 := List.mem_range.1 hi
    have hlen : (List.replicate (i + 2) newline).length ≤ kmallocMaxSize := by
      rw [List.length_replicate, kmallocMaxSize]
      omega
    exact ⟨_, i + 1, rfl, hblocks i hi', List.length_replicate, hlen⟩
  obtain ⟨hsize, hwalk, htotal, hmoves, reply, hend, hret, -⟩ := scans_agree_with_walk hl
    (by rw [hsum]; decide) seeksWithin_seekWithin (k := k) rfl hlive rfl hopen
  have htotal' : (sizes k.ring.walk).sum = 65 := by
    rw [hwalk, hsum]
  rw [htotal'] at hret htotal hmoves
  obtain ⟨reply₁, hseek₁, hat, -⟩ := hmoves 64 0 (by decide)
  obtain ⟨reply₂, hseek₂, -, hout⟩ := hmoves 66 0 (by decide)
  obtain ⟨-, hpos, hread⟩ := hat (by decide)
  obtain ⟨reply', hread', hzero⟩ := hread 8 0 (by decide)
  have hpos' : reply₁.fPos = 64 := hpos
  refine ⟨by decide, hsize, hwalk, htotal, ⟨reply₁, hseek₁, hpos', reply', hread', ?_⟩,
    ⟨reply₂, hseek₂, (hout (by decide) (by decide)).1⟩, reply, hend, hret⟩
  rw [Ne, hzero, hpos']
  decide

end Aesd
