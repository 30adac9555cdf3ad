import Mathlib.Data.List.Forall2
import Mathlib.Data.List.Nodup
import Aesd.Foundation.Framing
import Aesd.Driver.RingFifo
import Aesd.Driver.Device

/-!
# The device represents a log of commands

The purpose of the device, put abstractly, is a `Framing.Log`: a list of commands and the bytes
pending for the next one, of which the last ten commands can be read back.
`Kernel.Represents k s` says that the memory of the kernel represents the log `s`:

* the entries of the ring point to blocks that hold exactly the last ten commands;
* the temporary buffer is `NULL`, or a block that begins with the pending bytes;
* these blocks are distinct, and no other block is live.

The two views `Kernel.commands` and `Kernel.pending` of the memory then are the last ten commands
and the pending bytes of the log (`Represents.commands_eq`, `Represents.pending_eq`). The lemmas
after that are the two ways in which the driver changes the memory: it exchanges the temporary
buffer (`Represents.exchangeTemp`) and it adds an entry to the ring (`Represents.addEntry`).
-/

namespace Aesd

open Memory Framing BoundedFifo

namespace Kernel

variable (k : Kernel)

/-- The commands of the ring, oldest first: the contents of the entries on the walk. -/
def commands : List (List Byte) :=
  k.ring.walk.map fun e ↦ ((e.buffptr.bind k.heap.block).getD []).take e.size

/-- The pending bytes `temp_buf.data[0..temp_buf.size)`. -/
def pending : List Byte :=
  ((k.tempBuf.data.bind k.heap.block).getD []).take k.tempBuf.size

/-- The pointers of the ring. -/
def ringPointers : List Addr :=
  k.ring.walk.filterMap AesdBufferEntry.buffptr

end Kernel

/-! ### The representation -/

/-- The entry points to a block that holds exactly `cmd`. -/
def Stored (heap : Heap Byte) (e : AesdBufferEntry) (cmd : List Byte) : Prop :=
  ∃ a, e.buffptr = some a ∧ heap.block a = some cmd ∧ cmd.length = e.size ∧
    cmd.length ≤ kmallocMaxSize

/-- The temporary buffer holds the pending bytes. -/
inductive TempStores (heap : Heap Byte) : TempBuffer → List Byte → Prop
  /-- No buffer yet. -/
  | null : TempStores heap ⟨none, 0, 0⟩ []
  /-- A block of the recorded capacity. -/
  | block {a : Addr} {blk : List Byte} {size : ℕ} (hblock : heap.block a = some blk)
      (hsize : size ≤ blk.length) (hcapacity : blk.length ≤ kmallocMaxSize) :
      TempStores heap ⟨some a, size, blk.length⟩ (blk.take size)

/-- The memory of the kernel represents the log. -/
structure Kernel.Represents (k : Kernel) (s : Log Byte) : Prop where
  /-- The ring lays out its walk. -/
  holds : Holds k.ring k.ring.walk
  /-- Its entries hold the last ten commands. -/
  stored : List.Forall₂ (Stored k.heap) k.ring.walk (s.committed.rtake 10)
  /-- The temporary buffer holds the pending bytes. -/
  temp : TempStores k.heap k.tempBuf s.pending
  /-- What was ever added to the ring is what was committed. -/
  committed_eq : k.committed = s.committed
  /-- No block is referred to twice. -/
  nodup : (k.ringPointers ++ k.tempBuf.data.toList).Nodup
  /-- The live blocks are the ones referred to. -/
  live_iff : ∀ a, (∃ blk, k.heap.block a = some blk) ↔
    a ∈ k.ringPointers ∨ k.tempBuf.data = some a

theorem Stored.frame {heap heap' : Heap Byte} {e : AesdBufferEntry} {cmd : List Byte}
    (h : Stored heap e cmd) (hframe : ∀ a, e.buffptr = some a → heap'.block a = heap.block a) :
    Stored heap' e cmd := by
  obtain ⟨a, ha, hblock, hlen⟩ := h
  exact ⟨a, ha, by rw [hframe a ha, hblock], hlen⟩

theorem TempStores.frame {heap heap' : Heap Byte} {t : TempBuffer} {p : List Byte}
    (h : TempStores heap t p) (hframe : ∀ a, t.data = some a → heap'.block a = heap.block a) :
    TempStores heap' t p := by
  cases h with
  | null => exact TempStores.null
  | block hblock hsize hcapacity =>
    exact TempStores.block ((hframe _ rfl).trans hblock) hsize hcapacity

/-- A block of the recorded capacity that begins with `p`. -/
theorem TempStores.of_block {heap : Heap Byte} {a : Addr} {blk p : List Byte}
    {size capacity : ℕ} (hblock : heap.block a = some blk) (hcapacity : blk.length = capacity)
    (hsize : size ≤ capacity) (hmax : capacity ≤ kmallocMaxSize) (hp : p = blk.take size) :
    TempStores heap ⟨some a, size, capacity⟩ p := by
  subst hcapacity hp
  exact TempStores.block hblock hsize hmax

theorem TempStores.of_none {heap : Heap Byte} {t : TempBuffer} {p : List Byte}
    (h : TempStores heap t p) (ht : t.data = none) : t = ⟨none, 0, 0⟩ ∧ p = [] := by
  cases h with
  | null => exact ⟨rfl, rfl⟩
  | block => exact absurd ht (by simp)

theorem TempStores.of_some {heap : Heap Byte} {t : TempBuffer} {p : List Byte} {a : Addr}
    (h : TempStores heap t p) (ht : t.data = some a) :
    ∃ blk, heap.block a = some blk ∧ t.size ≤ blk.length ∧ blk.length = t.capacity ∧
      blk.length ≤ kmallocMaxSize ∧ p = blk.take t.size := by
  cases h with
  | null => exact absurd ht (by simp)
  | block hblock hsize hcapacity =>
    obtain rfl := Option.some.inj ht
    exact ⟨_, hblock, hsize, rfl, hcapacity, rfl⟩

theorem TempStores.size_le {heap : Heap Byte} {t : TempBuffer} {p : List Byte}
    (h : TempStores heap t p) : t.size ≤ t.capacity := by
  cases h with
  | null => exact Nat.le_refl 0
  | block hblock hsize hcapacity => exact hsize

theorem TempStores.capacity_le {heap : Heap Byte} {t : TempBuffer} {p : List Byte}
    (h : TempStores heap t p) : t.capacity ≤ kmallocMaxSize := by
  cases h with
  | null => exact Nat.zero_le _
  | block hblock hsize hcapacity => exact hcapacity

theorem TempStores.length_eq {heap : Heap Byte} {t : TempBuffer} {p : List Byte}
    (h : TempStores heap t p) : p.length = t.size := by
  cases h with
  | null => rfl
  | block hblock hsize hcapacity => rw [List.length_take, Nat.min_eq_left hsize]

theorem TempStores.eq_take {heap : Heap Byte} {t : TempBuffer} {p : List Byte}
    (h : TempStores heap t p) : ((t.data.bind heap.block).getD []).take t.size = p := by
  cases h with
  | null => rfl
  | block hblock hsize hcapacity => rw [Option.bind_some, hblock, Option.getD_some]

/-- Freeing `NULL` or a live block succeeds and changes no other block. -/
theorem Kernel.exists_kfree {k : Kernel} {p : Option Addr}
    (hlive : ∀ a, p = some a → ∃ blk, k.heap.block a = some blk) :
    ∃ k', k.kfree p = .ok k' ∧
      (∀ a, k'.heap.block a = if p = some a then none else k.heap.block a) ∧
      k'.aesdDevice = k.aesdDevice ∧ k'.committed = k.committed := by
  rcases p with - | a
  · exact ⟨k, rfl, fun a ↦ (if_neg (by simp)).symm, rfl, rfl⟩
  · obtain ⟨blk, hblk⟩ := hlive a rfl
    obtain ⟨heap, hfree, hblock⟩ := Heap.exists_free hblk
    refine ⟨{ k with heap }, ?_, fun c ↦ ?_, rfl, rfl⟩
    · rw [Kernel.kfree, hfree]
    · simp only [hblock, Option.some.injEq, eq_comm]

/-- The initialised device represents the empty log. -/
theorem represents_init : aesdInitModule.Represents Log.empty where
  holds := holds_init
  stored := List.Forall₂.nil
  temp := TempStores.null
  committed_eq := rfl
  nodup := List.nodup_nil
  live_iff a := by simp [aesdInitModule, Kernel.ringPointers, holds_init.walk_eq]

namespace Kernel.Represents

variable {k : Kernel} {s : Log Byte}

theorem buffptr_mem_ringPointers {k : Kernel} {e : AesdBufferEntry} (he : e ∈ k.ring.walk)
    {a : Addr} (ha : e.buffptr = some a) : a ∈ k.ringPointers :=
  List.mem_filterMap.2 ⟨e, he, ha⟩

/-- **The commands of the ring are the last ten of the log.** -/
theorem commands_eq (h : k.Represents s) : k.commands = s.committed.rtake 10 := by
  have hread : ∀ {q cmds}, List.Forall₂ (Stored k.heap) q cmds →
      (q.map fun e ↦ ((e.buffptr.bind k.heap.block).getD []).take e.size) = cmds := by
    intro q cmds hq
    induction hq with
    | nil => rfl
    | cons he _ ih =>
      obtain ⟨a, ha, hblock, hlen, -⟩ := he
      rw [List.map_cons, ih, ha, Option.bind_some, hblock, Option.getD_some, ← hlen,
        List.take_length]
  exact hread h.stored

/-- **The pending bytes are those of the log.** -/
theorem pending_eq (h : k.Represents s) : k.pending = s.pending :=
  h.temp.eq_take

theorem length_pending (h : k.Represents s) : s.pending.length = k.tempBuf.size :=
  h.temp.length_eq

theorem ring_live (h : k.Represents s) {a : Addr} (ha : a ∈ k.ringPointers) :
    ∃ blk, k.heap.block a = some blk :=
  (h.live_iff a).2 (Or.inl ha)

/-- The temporary buffer is not a block of the ring. -/
theorem temp_not_mem (h : k.Represents s) {a : Addr} (ha : k.tempBuf.data = some a) :
    a ∉ k.ringPointers := by
  intro hmem
  refine (List.nodup_append.1 h.nodup).2.2 a hmem a ?_ rfl
  rw [ha]
  exact List.mem_singleton.2 rfl

/-- The mutex is no part of the representation. -/
theorem setMutex (h : k.Represents s) (m : Mutex) : (k.setMutex m).Represents s :=
  ⟨h.holds, h.stored, h.temp, h.committed_eq, h.nodup, h.live_iff⟩

/-- **Exchanging the temporary buffer.** The blocks of the ring stay as they are, and of the others
exactly the new temporary buffer is live. -/
theorem exchangeTemp (h : k.Represents s) {heap : Heap Byte} {t : TempBuffer} {p : List Byte}
    (hframe : ∀ a ∈ k.ringPointers, heap.block a = k.heap.block a)
    (htemp : TempStores heap t p) (hfresh : ∀ a, t.data = some a → a ∉ k.ringPointers)
    (hlive : ∀ a ∉ k.ringPointers, (∃ blk, heap.block a = some blk) ↔ t.data = some a) :
    (({ k with heap } : Kernel).setTempBuf t).Represents ⟨s.committed, p⟩ where
  holds := h.holds
  stored := by
    refine List.forall₂_iff_get.2 ⟨h.stored.length_eq, fun i hi hi' ↦ ?_⟩
    refine ((List.forall₂_iff_get.1 h.stored).2 i hi hi').frame fun a ha ↦ hframe a ?_
    exact buffptr_mem_ringPointers (List.get_mem _ _) ha
  temp := htemp
  committed_eq := h.committed_eq
  nodup := by
    refine List.nodup_append.2 ⟨(List.nodup_append.1 h.nodup).1, ?_, ?_⟩
    · show t.data.toList.Nodup
      rcases t.data with - | a
      · exact List.nodup_nil
      · exact List.nodup_singleton a
    · intro a ha b hb hab
      exact hfresh b (Option.mem_toList.1 hb) (hab ▸ ha)
  live_iff a := by
    show (∃ blk, heap.block a = some blk) ↔ a ∈ k.ringPointers ∨ t.data = some a
    rcases Decidable.em (a ∈ k.ringPointers) with ha | ha
    · rw [hframe a ha]
      exact ⟨fun _ ↦ Or.inl ha, fun _ ↦ h.ring_live ha⟩
    · rw [hlive a ha]
      exact ⟨Or.inr, fun ho ↦ ho.resolve_left ha⟩

/-- Changing only the size of the temporary buffer changes only the pending bytes. -/
theorem setTempSize (h : k.Represents s) {a : Addr} {blk : List Byte} {size : ℕ}
    (ha : k.tempBuf.data = some a) (hblock : k.heap.block a = some blk)
    (hsize : size ≤ blk.length) :
    (k.setTempSize size).Represents ⟨s.committed, blk.take size⟩ := by
  have hframe : ∀ b ∈ k.ringPointers, k.heap.block b = k.heap.block b := fun _ _ ↦ rfl
  refine h.exchangeTemp hframe ?_ (fun b hb ↦ h.temp_not_mem hb) fun b hb ↦
    (h.live_iff b).trans (or_iff_right hb)
  obtain ⟨blk', hblock', -, hcapacity, hmax, -⟩ := h.temp.of_some ha
  obtain rfl : blk = blk' := Option.some.inj (hblock.symm.trans hblock')
  show TempStores k.heap ⟨k.tempBuf.data, size, k.tempBuf.capacity⟩ (blk.take size)
  rw [ha]
  exact TempStores.of_block hblock hcapacity (hcapacity ▸ hsize) (hcapacity ▸ hmax) rfl

/-! ### Adding an entry to the ring -/

end Kernel.Represents

namespace Kernel

/-- The blocks that leave the ring when an entry is added. -/
def leaving (k : Kernel) : List Addr :=
  (k.ring.walk.take (k.ring.walk.length + 1 - 10)).filterMap AesdBufferEntry.buffptr

/-- The blocks that stay. -/
def staying (k : Kernel) : List Addr :=
  (k.ring.walk.drop (k.ring.walk.length + 1 - 10)).filterMap AesdBufferEntry.buffptr

theorem leaving_append_staying (k : Kernel) : k.leaving ++ k.staying = k.ringPointers := by
  rw [leaving, staying, ← List.filterMap_append, List.take_append_drop]
  rfl

/-- `k'` is `k` with an entry for the block `c` added to the ring, which now holds `cmd`, and the
block that left the ring retired. -/
structure TakesIn (k : Kernel) (c : Addr) (cmd : List Byte) (k' : Kernel) : Prop where
  ring : k'.ring = (aesdCircularBufferAddEntry k.ring ⟨some c, cmd.length⟩).2
  tempBuf : k'.tempBuf = k.tempBuf
  committed : k'.committed = k.committed ++ [cmd]
  block : ∀ a, k'.heap.block a =
    if a ∈ k.leaving then none else if a = c then some cmd else k.heap.block a

end Kernel

namespace Kernel.Represents

variable {k k' : Kernel} {s : Log Byte} {a c : Addr} {cmd : List Byte}

/-- What `aesd_circular_buffer_add_entry` hands back is the pointer of the entry that leaves. -/
theorem addEntry_fst_eq_some_iff (h : k.Represents s) {e : AesdBufferEntry} :
    (aesdCircularBufferAddEntry k.ring e).1 = some a ↔ a ∈ k.leaving := by
  rw [h.holds.addEntry_fst, dropped, leaving]
  rcases Nat.lt_or_eq_of_le h.holds.length_le with hlt | hfull
  · rw [if_pos hlt, show k.ring.walk.length + 1 - 10 = 0 by omega]
    simp
  · rw [if_neg (by omega), show k.ring.walk.length + 1 - 10 = 1 by omega, List.take_one]
    rcases k.ring.walk.head? with - | e₀ <;> simp

theorem live_of_leaving (h : k.Represents s) (ha : a ∈ k.leaving) :
    ∃ blk, k.heap.block a = some blk := by
  refine h.ring_live ?_
  rw [← k.leaving_append_staying]
  exact List.mem_append_left _ ha

theorem live_of_staying (h : k.Represents s) (ha : a ∈ k.staying) :
    ∃ blk, k.heap.block a = some blk := by
  refine h.ring_live ?_
  rw [← k.leaving_append_staying]
  exact List.mem_append_right _ ha

/-- What leaves is neither in the ring any more nor the temporary buffer. -/
theorem not_mem_leaving (h : k.Represents s)
    (ha : a ∈ k.staying ++ k.tempBuf.data.toList) : a ∉ k.leaving := by
  have hnodup := h.nodup
  rw [← k.leaving_append_staying, List.append_assoc] at hnodup
  exact fun hleaving ↦ List.disjoint_of_nodup_append hnodup hleaving ha

/-- A block that is not live is none of those in use. -/
theorem ne_of_live (hc : k.heap.block c = none) (ha : ∃ blk, k.heap.block a = some blk) :
    a ≠ c := by
  rintro rfl
  obtain ⟨blk, hblk⟩ := ha
  exact absurd (hc.symm.trans hblk) (by simp)

end Kernel.Represents

namespace Kernel.TakesIn

variable {k k' : Kernel} {s : Log Byte} {c : Addr} {cmd : List Byte}

/-- The entry is pushed. -/
theorem push (h : k.Represents s) (ht : k.TakesIn c cmd k') :
    Holds k'.ring (k.ring.walk.drop (k.ring.walk.length + 1 - 10) ++ [⟨some c, cmd.length⟩]) := by
  rw [ht.ring, ← push_eq_drop (by decide)]
  exact h.holds.addEntry (by simp)

theorem ringPointers_eq (h : k.Represents s) (ht : k.TakesIn c cmd k') :
    k'.ringPointers = k.staying ++ [c] := by
  rw [ringPointers, (ht.push h).walk_eq, List.filterMap_append]
  rfl

/-- A block that stays in use is not touched. -/
theorem block_of_used (h : k.Represents s) (ht : k.TakesIn c cmd k')
    (hc : k.heap.block c = none) {a : Addr} (ha : a ∈ k.staying ++ k.tempBuf.data.toList) :
    k'.heap.block a = k.heap.block a := by
  have hlive : ∃ blk, k.heap.block a = some blk := by
    rcases List.mem_append.1 ha with hstaying | htemp
    · exact h.live_of_staying hstaying
    · exact (h.live_iff a).2 (Or.inr (Option.mem_toList.1 htemp))
  rw [ht.block, if_neg (h.not_mem_leaving ha), if_neg (Represents.ne_of_live hc hlive)]

theorem block_self (h : k.Represents s) (ht : k.TakesIn c cmd k') (hc : k.heap.block c = none) :
    k'.heap.block c = some cmd := by
  have hnot : c ∉ k.leaving := fun hmem ↦ Represents.ne_of_live hc (h.live_of_leaving hmem) rfl
  rw [ht.block, if_neg hnot, if_pos rfl]

/-- The ring holds the last ten commands. -/
theorem stored (h : k.Represents s) (ht : k.TakesIn c cmd k') (hc : k.heap.block c = none)
    (hmax : cmd.length ≤ kmallocMaxSize) :
    List.Forall₂ (Stored k'.heap) k'.ring.walk ((s.committed ++ [cmd]).rtake 10) := by
  have hstored := List.forall₂_drop (k.ring.walk.length + 1 - 10) h.stored
  have hdrop : (s.committed ++ [cmd]).rtake 10 =
      (s.committed.rtake 10).drop (k.ring.walk.length + 1 - 10) ++ [cmd] := by
    rw [← push_rtake (by decide), push_eq_drop (by decide), ← h.stored.length_eq]
  rw [(ht.push h).walk_eq, hdrop]
  refine List.rel_append (List.forall₂_iff_get.2 ⟨hstored.length_eq, fun i hi hi' ↦ ?_⟩)
    (List.Forall₂.cons ⟨c, rfl, ht.block_self h hc, rfl, hmax⟩ List.Forall₂.nil)
  refine ((List.forall₂_iff_get.1 hstored).2 i hi hi').frame fun a ha ↦ ?_
  have hmem : a ∈ k.staying := List.mem_filterMap.2 ⟨_, List.get_mem _ _, ha⟩
  exact ht.block_of_used h hc (List.mem_append_left _ hmem)

theorem nodup (h : k.Represents s) (ht : k.TakesIn c cmd k') (hc : k.heap.block c = none) :
    (k'.ringPointers ++ k'.tempBuf.data.toList).Nodup := by
  have hnodup := h.nodup
  rw [← k.leaving_append_staying, List.append_assoc] at hnodup
  have hstay := (List.nodup_append.1 hnodup).2.1
  have hnew : c ∉ k.staying ++ k.tempBuf.data.toList := by
    intro hmem
    have hsame := ht.block_of_used h hc hmem
    rw [ht.block_self h hc, hc] at hsame
    exact absurd hsame (by simp)
  rw [ht.ringPointers_eq h, ht.tempBuf, List.append_assoc]
  exact List.nodup_middle.2 (List.nodup_cons.2 ⟨hnew, hstay⟩)

theorem live_iff (h : k.Represents s) (ht : k.TakesIn c cmd k') (hc : k.heap.block c = none)
    (a : Addr) : (∃ blk, k'.heap.block a = some blk) ↔
      a ∈ k'.ringPointers ∨ k'.tempBuf.data = some a := by
  have hused : a ∈ k'.ringPointers ∨ k'.tempBuf.data = some a ↔
      a = c ∨ a ∈ k.staying ++ k.tempBuf.data.toList := by
    rw [ht.ringPointers_eq h, ht.tempBuf]
    simp only [List.mem_append, List.mem_singleton, Option.mem_toList]
    tauto
  rw [hused, ht.block]
  split
  · -- what left is not in use any more
    rename_i hleaving
    refine iff_of_false (by simp) ?_
    rintro (rfl | hmem)
    · exact Represents.ne_of_live hc (h.live_of_leaving hleaving) rfl
    · exact h.not_mem_leaving hmem hleaving
  · rename_i hleaving
    split
    · rename_i hself
      exact iff_of_true ⟨cmd, rfl⟩ (Or.inl hself)
    · rename_i hne
      rw [h.live_iff a, ← k.leaving_append_staying, List.mem_append, or_iff_right hleaving,
        or_iff_right hne, List.mem_append, Option.mem_toList]

/-- The device represents the log with one command more. -/
theorem represents (h : k.Represents s) (ht : k.TakesIn c cmd k') (hc : k.heap.block c = none)
    (hmax : cmd.length ≤ kmallocMaxSize) : k'.Represents ⟨s.committed ++ [cmd], s.pending⟩ where
  holds := by
    rw [(ht.push h).walk_eq]
    exact ht.push h
  stored := ht.stored h hc hmax
  temp := by
    rw [ht.tempBuf]
    refine h.temp.frame fun a ha ↦ ht.block_of_used h hc ?_
    exact List.mem_append_right _ (Option.mem_toList.2 ha)
  committed_eq := by
    rw [ht.committed, h.committed_eq]
  nodup := ht.nodup h hc
  live_iff := ht.live_iff h hc

end Kernel.TakesIn

/-- **Adding an entry.** A fresh block `c` that holds `cmd` enters the ring, the block that the ring
hands back is freed, and the log has committed `cmd`. -/
theorem Kernel.Represents.addEntry {k : Kernel} {s : Log Byte} (h : k.Represents s) {c : Addr}
    {cmd : List Byte} {heap : Heap Byte} (hc : k.heap.block c = none)
    (hheap : ∀ a, heap.block a = if a = c then some cmd else k.heap.block a)
    (hmax : cmd.length ≤ kmallocMaxSize) :
    ∃ k', (({ k with heap } : Kernel).commitRing
        (aesdCircularBufferAddEntry k.ring ⟨some c, cmd.length⟩).2 cmd).kfree
          (aesdCircularBufferAddEntry k.ring ⟨some c, cmd.length⟩).1 = .ok k' ∧
      k'.Represents ⟨s.committed ++ [cmd], s.pending⟩ ∧ k'.tempBuf = k.tempBuf ∧
      k'.mutex = k.mutex := by
  have hfreed : ∀ a, (aesdCircularBufferAddEntry k.ring ⟨some c, cmd.length⟩).1 = some a →
      ∃ blk, heap.block a = some blk := by
    intro a ha
    have hlive := h.live_of_leaving (h.addEntry_fst_eq_some_iff.1 ha)
    rwa [hheap a, if_neg (Represents.ne_of_live hc hlive)]
  obtain ⟨k', hkfree, hblock, hdevice, hcommitted⟩ :=
    Kernel.exists_kfree (k := ({ k with heap } : Kernel).commitRing
      (aesdCircularBufferAddEntry k.ring ⟨some c, cmd.length⟩).2 cmd) hfreed
  have htemp : k'.tempBuf = k.tempBuf := by
    rw [Kernel.tempBuf, hdevice]
    rfl
  have hmutex : k'.mutex = k.mutex := by
    rw [Kernel.mutex, hdevice]
    rfl
  have htakes : k.TakesIn c cmd k' := by
    refine ⟨congrArg AesdDev.aesdWriteBuffer hdevice, htemp, hcommitted, fun a ↦ ?_⟩
    rw [← hheap a]
    exact (hblock a).trans (if_congr h.addEntry_fst_eq_some_iff rfl rfl)
  exact ⟨k', hkfree, htakes.represents h hc hmax, htemp, hmutex⟩

end Aesd
