import Aesd.Driver.Ownership

/-!
# The buffer of the pending bytes

`aesd_write` begins by making room in the temporary buffer (`Kernel.makeRoom`): it allocates a
buffer, lets it grow, or finds that it is large enough.
Whatever the services did before, the buffer then has room for the bytes to be copied
(`Kernel.Represents.room_of_makeRoom`), and its size and capacity are those of a block
(`pending_buffer_in_bounds`). No sum of sizes wraps: a buffer is never longer than the allocator
grants, and a call never brings more than `MAX_RW_COUNT` bytes (`Kernel.Represents.no_wrap`).
-/

namespace Aesd

open Memory Framing BoundedFifo Execution

namespace Kernel.Represents

variable {k : Kernel} {s : Log Byte}

/-- The temporary buffer is `NULL`, or a block of the recorded capacity. -/
theorem temp_block (h : k.Represents s) :
    (k.tempBuf.data = none ∧ k.tempBuf.capacity = 0) ∨
      ∃ a blk, k.tempBuf.data = some a ∧ k.heap.block a = some blk ∧
        blk.length = k.tempBuf.capacity := by
  rcases hdata : k.tempBuf.data with - | a
  · refine Or.inl ⟨rfl, ?_⟩
    rw [(h.temp.of_none hdata).1]
  · obtain ⟨blk, hblk, -, hcapacity, -⟩ := h.temp.of_some hdata
    exact Or.inr ⟨a, blk, rfl, hblk, hcapacity⟩

/-- **Room was made**: the state before `copy_from_user` represents the same log, and the bytes fit
behind the pending ones. -/
theorem room_of_makeRoom (h : k.Represents s) {buf : UserBuf} {o : WriteOutcome} {k' : Kernel}
    (hroom : k.makeRoom buf.count o = .ok (true, k')) :
    k'.Represents s ∧ k'.tempBuf.data ≠ none ∧
      k'.tempBuf.size + buf.count ≤ k'.tempBuf.capacity := by
  obtain ⟨a, k₁, hmake, hrep, hdata, hfits, -⟩ := h.exists_makeRoom (h.roomFor_of_makeRoom hroom)
  obtain ⟨-, rfl⟩ := Prod.mk.inj (Except.ok.inj (hmake.symm.trans hroom))
  exact ⟨hrep, by rw [hdata]; simp, hfits⟩

end Kernel.Represents

/-- A granted block has the size asked for. -/
theorem Kernel.length_of_kmalloc {k k' : Kernel} {size : ℕ} {o : Option Junk} {a : Addr}
    (h : k.kmalloc size o = (some a, k')) :
    ∃ blk, k'.heap.block a = some blk ∧ blk.length = size := by
  rcases hgrant : granted size o with - | -
  · rw [Kernel.kmalloc_of_not_granted hgrant] at h
    exact absurd (Prod.mk.inj h).1 (by simp)
  · obtain ⟨junk, hkmalloc⟩ := Kernel.kmalloc_of_granted (k := k) hgrant
    obtain ⟨hp, rfl⟩ := Prod.mk.inj (hkmalloc.symm.trans h)
    obtain rfl := Option.some.inj hp
    exact ⟨resize [] size junk, by rw [Heap.block_alloc, if_pos rfl], length_resize _ _ _⟩

/-- **The pending buffer is never over-run.** In every state reached by any calls with any failures
of allocations and copies:

* the pending bytes fit the capacity, and the capacity is the length of the block that the buffer
  points to, or 0 if it points to none;
* no sum of sizes in a call wraps;
* when a call gets to `copy_from_user`, the bytes to be copied fit behind the pending ones into the
  block there is then;
* the block for the command has the size of the pending bytes, and no call reads or writes outside
  a block. -/
theorem pending_buffer_in_bounds {fixedSizeLlseek : ℤ → ℤ → ℤ → ℤ → ℤ × ℤ} {sys : System}
    (hreach : Reachable (step fixedSizeLlseek) .init sys) :
    sys.kernel.tempBuf.size ≤ sys.kernel.tempBuf.capacity ∧
    ((sys.kernel.tempBuf.data = none ∧ sys.kernel.tempBuf.capacity = 0) ∨
      ∃ a blk, sys.kernel.tempBuf.data = some a ∧ sys.kernel.heap.block a = some blk ∧
        blk.length = sys.kernel.tempBuf.capacity) ∧
    (∀ buf : UserBuf, sizeT (buf.count + 50) = buf.count + 50 ∧
      sizeT (sys.kernel.tempBuf.size + buf.count) = sys.kernel.tempBuf.size + buf.count ∧
      sizeT (sys.kernel.tempBuf.size + buf.count + 50) =
        sys.kernel.tempBuf.size + buf.count + 50) ∧
    (∀ (m : Mutex) (buf : UserBuf) (o : WriteOutcome) (k' : Kernel),
      (sys.kernel.setMutex m).makeRoom buf.count o = .ok (true, k') →
      ∃ a blk, k'.tempBuf.data = some a ∧ k'.heap.block a = some blk ∧
        blk.length = k'.tempBuf.capacity ∧ k'.tempBuf.size + buf.count ≤ blk.length ∧
        sizeT (k'.tempBuf.size + buf.count) = k'.tempBuf.size + buf.count) ∧
    (∀ (k k' : Kernel) (size : ℕ) (o : Option Junk) (a : Addr), k.kmalloc size o = (some a, k') →
      ∃ blk, k'.heap.block a = some blk ∧ blk.length = size) ∧
    ∀ op, step fixedSizeLlseek sys op ≠ .error .fault := by
  obtain ⟨s, hs⟩ := System.exists_represents hreach
  refine ⟨hs.kernel.temp.size_le, hs.kernel.temp_block, hs.kernel.no_wrap,
    fun m buf o k' hroom ↦ ?_, fun _ _ _ _ _ ↦ Kernel.length_of_kmalloc,
    System.step_ne_fault hs⟩
  obtain ⟨hrep, hdata, hfits⟩ := (hs.kernel.setMutex m).room_of_makeRoom hroom
  rcases hrep.temp_block with ⟨hnone, -⟩ | ⟨a, blk, ha, hblk, hlen⟩
  · exact absurd hnone hdata
  · exact ⟨a, blk, ha, hblk, hlen, hlen ▸ hfits, (hrep.no_wrap buf).2.1⟩

/-- After a failed `krealloc`, a failed copy and a failed allocation of the command. -/
theorem pending_buffer_in_bounds_failures :
    let ops : List Op := [.openFile 0,
      .write 0 ⟨List.replicate 60 97, by decide⟩ .granting,
      .write 0 ⟨List.replicate 60 98, by decide⟩ ⟨none, none, 0, none⟩,
      .write 0 ⟨[99, newline], by decide⟩ ⟨none, none, 0, none⟩,
      .write 0 ⟨[100], by decide⟩ ⟨none, none, 1, none⟩]
    ∃ answers sys, run (step stayPut) .init ops = .ok (answers, sys) ∧
      answers.map Answer.ret = [0, 60, -ENOMEM, -ENOMEM, -EFAULT] ∧
      sys.kernel.tempBuf.size ≤ sys.kernel.tempBuf.capacity := by
  intro ops
  have heval : (run (step stayPut) .init ops).map (fun z ↦ z.1.map Answer.ret) =
      .ok [0, 60, -ENOMEM, -ENOMEM, -EFAULT] := by
    decide +kernel
  obtain ⟨⟨answers, sys⟩, hrun, hret⟩ := exists_of_map_eq_ok heval
  exact ⟨answers, sys, hrun, hret, (pending_buffer_in_bounds ⟨ops, answers, hrun⟩).1⟩

end Aesd
