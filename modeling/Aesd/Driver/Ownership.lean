import Aesd.Driver.System

/-!
# Who owns a block

Every block of memory has one owner: a slot of the ring or the temporary buffer. That is part of
`Kernel.Represents` and so of every reachable state. What follows from it for the life of a block:

* no call uses or retires a block that is not live (`System.step_ne_fault`);
* a block that was retired never comes back (`System.later_of_step`), so it is retired only once;
* what the ring hands back on an eviction is owned by nobody when `aesd_write` comes to its `kfree`
  (`Kernel.FreesNext`, `Kernel.Represents.freed_unowned`);
* `aesd_cleanup_module` retires what is left (`Kernel.Represents.exists_cleanup`).

Only there does the pointer go first. A `krealloc` that moves the temporary buffer retires the old
block while `temp_buf.data` still points to it, and the next statement of `aesd_write` replaces the
pointer; `aesd_cleanup_module` frees what a slot or `temp_buf.data` points to, and its next
statement sets the pointer to `NULL`. Each of the two is one operation here.
-/

namespace Aesd

open Memory Framing BoundedFifo Execution

section Slots

variable {buffer : AesdCircularBuffer} {q : List AesdBufferEntry}

/-- The pointers on the walk are those of all slots. -/
theorem Holds.mem_pointers_iff (h : Holds buffer q) {a : Addr} :
    a ∈ q.filterMap AesdBufferEntry.buffptr ↔ ∃ j < 10, (buffer.slot j).buffptr = some a := by
  rw [List.mem_filterMap]
  constructor
  · rintro ⟨e, he, ha⟩
    obtain ⟨i, hi⟩ := List.mem_iff_getElem?.1 he
    exact ⟨buffer.walkIndex i, buffer.walkIndex_lt i, by rw [h.slot_eq hi, ha]⟩
  · rintro ⟨j, hj, ha⟩
    obtain ⟨i, hi, rfl⟩ := buffer.exists_walkIndex_eq hj
    rcases Nat.lt_or_ge i q.length with hlt | hge
    · have hget := List.getElem?_eq_getElem hlt
      rw [h.slot_eq hget] at ha
      exact ⟨q[i], List.getElem_mem hlt, ha⟩
    · rw [h.buffptr_eq_none i hge hi] at ha
      exact absurd ha (by simp)

/-- Different slots have different pointers. -/
theorem Holds.slot_unique (h : Holds buffer q)
    (hnodup : (q.filterMap AesdBufferEntry.buffptr).Nodup) {i j : ℕ} (hi : i < 10) (hj : j < 10)
    {a : Addr} (ha : (buffer.slot i).buffptr = some a) (ha' : (buffer.slot j).buffptr = some a) :
    i = j := by
  have hwalked : ∀ n < 10, (buffer.slot (buffer.walkIndex n)).buffptr = some a →
      ∃ e, q[n]? = some e ∧ e.buffptr = some a := by
    intro n hn hptr
    rcases Nat.lt_or_ge n q.length with hlt | hge
    · have hget := List.getElem?_eq_getElem hlt
      rw [h.slot_eq hget] at hptr
      exact ⟨q[n], hget, hptr⟩
    · rw [h.buffptr_eq_none n hge hn] at hptr
      exact absurd hptr (by simp)
  obtain ⟨m, hm, rfl⟩ := buffer.exists_walkIndex_eq hi
  obtain ⟨n, hn, rfl⟩ := buffer.exists_walkIndex_eq hj
  obtain ⟨e, he, hptr⟩ := hwalked m hm ha
  obtain ⟨e', he', hptr'⟩ := hwalked n hn ha'
  have hpairwise := List.pairwise_iff_getElem.1 (List.pairwise_filterMap.1 hnodup)
  obtain ⟨hm', rfl⟩ := List.getElem?_eq_some_iff.1 he
  obtain ⟨hn', rfl⟩ := List.getElem?_eq_some_iff.1 he'
  rcases Nat.lt_trichotomy m n with hlt | rfl | hgt
  · exact absurd rfl (hpairwise m n hm' hn' hlt a hptr a hptr')
  · rfl
  · exact absurd rfl (hpairwise n m hn' hm' hgt a hptr' a hptr)

end Slots

/-! ### Retired for good -/

section Later

variable {k k' : Kernel} {reply : Reply}

/-- `kmalloc` makes a new block or none. -/
theorem Kernel.later_kmalloc (k : Kernel) (size : ℕ) (o : Option Junk) :
    k.heap.Later (k.kmalloc size o).2.heap := by
  rcases o with - | junk
  · exact Heap.Later.refl _
  · rw [Kernel.kmalloc]
    split
    · exact Heap.later_alloc _ _
    · exact Heap.Later.refl _

/-- `kfree` ends the life of one block. -/
theorem Kernel.later_of_kfree {p : Option Addr} (h : k.kfree p = .ok k') :
    k.heap.Later k'.heap := by
  rcases p with - | a
  · obtain rfl := Except.ok.inj h
    exact Heap.Later.refl _
  · rcases hfree : k.heap.free a with - | heap
    · simp [Kernel.kfree, hfree] at h
    · simp only [Kernel.kfree, hfree, Except.ok.injEq] at h
      subst h
      exact Heap.later_of_free hfree

/-- `krealloc` makes a new block and frees the old one, or does nothing. -/
theorem Kernel.later_of_krealloc {p : Addr} {size : ℕ} {o : Option Junk} {p' : Option Addr}
    (h : k.krealloc p size o = .ok (p', k')) : k.heap.Later k'.heap := by
  rcases hblk : k.heap.block p with - | blk
  · simp [Kernel.krealloc, hblk] at h
  rcases o with - | junk
  · simp only [Kernel.krealloc, hblk, Except.ok.injEq, Prod.mk.injEq] at h
    rw [← h.2]
    exact Heap.Later.refl _
  · simp only [Kernel.krealloc, hblk] at h
    split at h
    · obtain ⟨k₁, hfree, hk₁⟩ := exists_of_bind_eq_ok h
      obtain ⟨-, rfl⟩ := Prod.mk.inj (Except.ok.inj hk₁)
      exact (Heap.later_alloc _ _).trans (Kernel.later_of_kfree hfree)
    · obtain ⟨-, rfl⟩ := Prod.mk.inj (Except.ok.inj h)
      exact Heap.Later.refl _

/-- A store begins and ends no life. -/
theorem Kernel.later_of_store {p : Option Addr} {off : ℕ} {bytes : List Byte}
    (h : k.store p off bytes = .ok k') : k.heap.Later k'.heap := by
  rw [Kernel.store] at h
  split at h
  · next heap hstore =>
    obtain rfl := Except.ok.inj h
    obtain ⟨a, -, hstore⟩ := Option.bind_eq_some_iff.1 hstore
    exact Heap.later_of_store hstore
  · exact absurd h (by simp)

/-- The blocks of a commit, whatever it returns: the command is new, and what the ring hands back is
freed. -/
theorem later_of_aesdWriteCommit {count : ℕ} {fPos : ℤ} {o : WriteOutcome}
    (h : aesdWriteCommit k count fPos o = .ok reply) : k.heap.Later reply.kernel.heap := by
  obtain ⟨pending, -, h⟩ := exists_of_bind_eq_ok h
  split at h
  · have hkmalloc := k.later_kmalloc k.tempBuf.size o.kmallocCommand
    rcases hresult : k.kmalloc k.tempBuf.size o.kmallocCommand with ⟨- | commandData, k₁⟩
    · simp only [hresult] at h hkmalloc
      obtain rfl := Except.ok.inj h
      exact hkmalloc
    · simp only [hresult] at h hkmalloc
      obtain ⟨k₂, hstore, h⟩ := exists_of_bind_eq_ok h
      obtain ⟨k₃, hkfree, h⟩ := exists_of_bind_eq_ok h
      obtain rfl := Except.ok.inj h
      have hretired := Kernel.later_of_kfree hkfree
      exact hkmalloc.trans ((Kernel.later_of_store hstore).trans hretired)
  · obtain rfl := Except.ok.inj h
    exact Heap.Later.refl _

/-- So are those of a write that has its room. -/
theorem later_of_aesdWriteCopy {buf : UserBuf} {fPos : ℤ} {o : WriteOutcome}
    (h : aesdWriteCopy k buf fPos o = .ok reply) : k.heap.Later reply.kernel.heap := by
  obtain ⟨⟨left, k₁⟩, hcopy, h⟩ := exists_of_bind_eq_ok h
  have hlater : k.heap.Later k₁.heap := by
    obtain ⟨k₂, hstore, hk₂⟩ := exists_of_bind_eq_ok hcopy
    obtain ⟨-, rfl⟩ := Prod.mk.inj (Except.ok.inj hk₂)
    exact Kernel.later_of_store hstore
  dsimp only at h
  split at h
  · obtain rfl := Except.ok.inj h
    exact hlater
  · have hcommit := later_of_aesdWriteCommit h
    exact hlater.trans hcommit

/-- Making room replaces the temporary buffer, or leaves it. -/
theorem Kernel.later_of_makeRoom {count : ℕ} {o : WriteOutcome} {room : Bool}
    (h : k.makeRoom count o = .ok (room, k')) : k.heap.Later k'.heap := by
  rw [Kernel.makeRoom] at h
  split at h
  · have hkmalloc := k.later_kmalloc (sizeT (count + 50)) o.kmallocTemp
    rcases hresult : k.kmalloc (sizeT (count + 50)) o.kmallocTemp with ⟨- | data, k₁⟩
    · simp only [hresult] at h hkmalloc
      obtain ⟨-, rfl⟩ := Prod.mk.inj (Except.ok.inj h)
      exact hkmalloc
    · simp only [hresult] at h hkmalloc
      obtain ⟨-, rfl⟩ := Prod.mk.inj (Except.ok.inj h)
      exact hkmalloc
  · split at h
    · obtain ⟨⟨newData, k₁⟩, hkrealloc, h⟩ := exists_of_bind_eq_ok h
      have hlater := Kernel.later_of_krealloc hkrealloc
      rcases newData with - | newData
      · obtain ⟨-, rfl⟩ := Prod.mk.inj (Except.ok.inj h)
        exact hlater
      · obtain ⟨-, rfl⟩ := Prod.mk.inj (Except.ok.inj h)
        exact hlater
    · obtain ⟨-, rfl⟩ := Prod.mk.inj (Except.ok.inj h)
      exact Heap.Later.refl _

/-- **A write** brings no block back to life. -/
theorem later_of_aesdWrite {filp : File} {buf : UserBuf} {fPos : ℤ} {o : WriteOutcome}
    (h : aesdWrite k filp buf fPos o = .ok reply) : k.heap.Later reply.kernel.heap := by
  obtain ⟨-, -, h⟩ := exists_of_bind_eq_ok h
  obtain ⟨k₁, hlock, h⟩ := exists_of_bind_eq_ok h
  obtain ⟨m, -, hm⟩ := exists_of_bind_eq_ok hlock
  obtain rfl := Except.ok.inj hm
  show (k.setMutex m).heap.Later _
  generalize k.setMutex m = k at h
  obtain ⟨⟨room, k₁⟩, hroom, h⟩ := exists_of_bind_eq_ok h
  refine (Kernel.later_of_makeRoom hroom).trans ?_
  dsimp only at h
  split at h
  · exact later_of_aesdWriteCopy h
  · obtain rfl := Except.ok.inj h
    exact Heap.Later.refl _

end Later

namespace System

variable {fixedSizeLlseek : ℤ → ℤ → ℤ → ℤ → ℤ × ℤ} {sys sys' : System} {s : Log Byte} {op : Op}
  {a : Answer}

/-- A call on a file does to the heap what its operation does. -/
theorem later_of_call {f : ℕ} {operation : File → Except Stop Reply}
    (hoperation : ∀ filp reply, sys.files f = some filp → operation filp = .ok reply →
      sys.kernel.heap.Later reply.kernel.heap)
    (hcall : sys.call f operation = .ok (a, sys')) : sys.kernel.heap.Later sys'.kernel.heap := by
  obtain ⟨-, -, rfl⟩ | ⟨filp, reply, hf, hreply, -, rfl⟩ := call_cases hcall
  · exact Heap.Later.refl _
  · exact hoperation filp reply hf hreply

/-- **No call brings a retired block back.** -/
theorem later_of_step (h : sys.Represents s)
    (hstep : step fixedSizeLlseek sys op = .ok (a, sys')) :
    sys.kernel.heap.Later sys'.kernel.heap := by
  rcases hmutex : sys.kernel.mutex.held with - | -
  swap
  · rw [(h.step_of_held hmutex hstep).2]
    exact Heap.Later.refl _
  cases op with
  | openFile f =>
    rcases step_openFile_cases hstep with rfl | ⟨-, rfl⟩ <;> exact Heap.Later.refl _
  | release f =>
    rcases step_release_cases hstep with rfl | rfl <;> exact Heap.Later.refl _
  | read f count uncopied =>
    refine later_of_call (fun filp reply hf hread ↦ ?_) hstep
    obtain ⟨piece, hpiece⟩ :=
      exists_aesdRead h.kernel hmutex (h.opened f filp hf) count uncopied filp.fPos
    obtain rfl := Except.ok.inj (hread.symm.trans hpiece)
    rw [readReply_kernel]
    exact Heap.Later.refl _
  | write f buf o => exact later_of_call (fun _ _ _ ↦ later_of_aesdWrite) hstep
  | llseek f offset whence =>
    refine later_of_call (fun filp reply hf hseek ↦ ?_) hstep
    rw [aesdLlseek_eq hmutex (h.opened f filp hf)] at hseek
    obtain rfl := Except.ok.inj hseek
    exact Heap.Later.refl _
  | ioctl f cmd seekto uncopied =>
    refine later_of_call (fun filp reply hf hioctl ↦ ?_) hstep
    obtain ⟨reply', hioctl', hreply⟩ :=
      exists_ioctlReply h.kernel hmutex (h.opened f filp hf) cmd seekto uncopied
    obtain rfl := Except.ok.inj (hioctl.symm.trans hioctl')
    cases hreply <;> exact Heap.Later.refl _

/-- A run brings no retired block back. -/
theorem later_of_run (h : sys.Represents s) {ops : List Op} {answers : List Answer}
    (hrun : run (step fixedSizeLlseek) sys ops = .ok (answers, sys')) :
    sys.kernel.heap.Later sys'.kernel.heap := by
  refine (invariant_of_run (I := fun t : System ↦
    (∃ s, t.Represents s) ∧ sys.kernel.heap.Later t.kernel.heap) ?_ ⟨⟨s, h⟩, Heap.Later.refl _⟩
    hrun).2
  rintro t op a t' ⟨⟨s, hs⟩, hlater⟩ hstep
  exact ⟨⟨_, hs.step hstep⟩, hlater.trans (later_of_step hs hstep)⟩

/-- A call on a file faults only if its operation does; one on a closed file does not. -/
theorem call_ne_fault {f : ℕ} {operation : File → Except Stop Reply}
    (hoperation : ∀ filp, sys.files f = some filp → operation filp ≠ .error .fault) :
    sys.call f operation ≠ .error .fault := by
  rcases hf : sys.files f with - | filp
  · rw [call_of_closed hf]
    simp
  · rcases hreply : operation filp with stop | reply
    · simp only [call, hf, hreply, ne_eq, Except.error.injEq]
      rintro rfl
      exact hoperation filp hf hreply
    · rw [call_of_ok hf hreply]
      simp

/-- **No call uses or retires a block that is not live.** -/
theorem step_ne_fault (h : sys.Represents s) (op : Op) :
    step fixedSizeLlseek sys op ≠ .error .fault := by
  rcases hmutex : sys.kernel.mutex.held with - | -
  · obtain ⟨a, sys', hstep, -⟩ := h.exists_step hmutex fixedSizeLlseek op
    rw [hstep]
    simp
  -- with the mutex held a call waits for it before it gets to any block
  have hlock := Kernel.mutexLock_of_held hmutex
  cases op with
  | openFile f =>
    rcases hf : sys.files f with - | filp
    · rw [step_openFile_of_none hf]
      simp
    · rw [step_openFile_of_some hf]
      simp
  | release f =>
    rcases hf : sys.files f with - | filp
    · rw [step_release_of_none hf]
      simp
    · rw [step_release_of_some hf]
      simp
  | read f count uncopied =>
    refine call_ne_fault fun filp hf ↦ ?_
    rw [aesdRead, File.dev_of_open (h.opened f filp hf), ok_bind, hlock]
    simp [bind, Except.bind]
  | write f buf o =>
    refine call_ne_fault fun filp hf ↦ ?_
    rw [aesdWrite, File.dev_of_open (h.opened f filp hf), ok_bind, hlock]
    simp [bind, Except.bind]
  | llseek f offset whence =>
    refine call_ne_fault fun filp hf ↦ ?_
    rw [aesdLlseek, File.dev_of_open (h.opened f filp hf), ok_bind, hlock]
    simp [bind, Except.bind]
  | ioctl f cmd seekto uncopied =>
    refine call_ne_fault fun filp hf ↦ ?_
    rcases aesdUnlockedIoctl_of_held hmutex (h.opened f filp hf) cmd seekto uncopied with
      hblocked | ⟨ret, hret⟩
    · rw [hblocked]
      simp
    · rw [hret]
      simp

end System

/-! ### Cleaning up -/

section Cleanup

/-- The slots of the ring own the live blocks. -/
structure Kernel.SlotsOwn (k : Kernel) : Prop where
  live_iff : ∀ a, (∃ blk, k.heap.block a = some blk) ↔
    ∃ j < 10, (k.ring.slot j).buffptr = some a
  unique : ∀ i j a, i < 10 → j < 10 → (k.ring.slot i).buffptr = some a →
    (k.ring.slot j).buffptr = some a → i = j

variable {k : Kernel} {s : Log Byte}

/-- One pass of the loop retires the block of its slot. -/
theorem Kernel.SlotsOwn.exists_cleanupSlot (h : k.SlotsOwn) {i : ℕ} (hi : i < 10) :
    ∃ k', cleanupSlot k i = .ok k' ∧ k'.SlotsOwn ∧
      ∀ j, (k'.ring.slot j).buffptr = if i = j then none else (k.ring.slot j).buffptr := by
  rcases hptr : (k.ring.slot i).buffptr with - | a
  · refine ⟨k, by rw [cleanupSlot, hptr]; rfl, h, fun j ↦ ?_⟩
    split
    · next heq => rw [← heq, hptr]
    · rfl
  · obtain ⟨k₁, hkfree, hblock, hdevice, -⟩ := Kernel.exists_kfree (k := k) (p := some a)
      fun b hb ↦ (h.live_iff b).2 ⟨i, hi, hb ▸ hptr⟩
    have hring : k₁.ring = k.ring := congrArg AesdDev.aesdWriteBuffer hdevice
    have hslots : ∀ j, ((k₁.setRing (k₁.ring.setSlot i ⟨none, 0⟩)).ring.slot j).buffptr =
        if i = j then none else (k.ring.slot j).buffptr := by
      intro j
      show ((k₁.ring.setSlot i ⟨none, 0⟩).slot j).buffptr = _
      rw [AesdCircularBuffer.slot_setSlot _ hi, hring]
      split <;> rfl
    refine ⟨_, by rw [cleanupSlot, hptr]; exact bind_of_eq_ok hkfree _, ⟨fun b ↦ ?_, ?_⟩, hslots⟩
    · show (∃ blk, k₁.heap.block b = some blk) ↔ _
      simp only [hslots, hblock, Option.some.injEq]
      rcases eq_or_ne a b with rfl | hne
      · simp only [if_true]
        refine iff_of_false (by simp) ?_
        rintro ⟨j, hj, hslot⟩
        rw [Option.ite_none_left_eq_some] at hslot
        exact hslot.1 (h.unique i j a hi hj hptr hslot.2)
      · rw [if_neg hne, h.live_iff b]
        refine exists_congr fun j ↦ and_congr_right fun _ ↦ ?_
        rcases eq_or_ne i j with rfl | hij
        · rw [if_pos rfl, hptr, Option.some.injEq]
          exact iff_of_false hne (by simp)
        · rw [if_neg hij]
    · intro m n b hm hn hslot hslot'
      rw [hslots, Option.ite_none_left_eq_some] at hslot hslot'
      exact h.unique m n b hm hn hslot.2 hslot'.2

/-- Over any of the slots, in the order of `AESD_CIRCULAR_BUFFER_FOREACH`, each block is freed once
and its slot is cleared. -/
theorem Kernel.SlotsOwn.exists_foldlM (h : k.SlotsOwn) {l : List ℕ} (hl : ∀ i ∈ l, i < 10) :
    ∃ k', l.foldlM cleanupSlot k = .ok k' ∧ k'.SlotsOwn ∧
      ∀ j, (k'.ring.slot j).buffptr = if j ∈ l then none else (k.ring.slot j).buffptr := by
  induction l generalizing k with
  | nil => exact ⟨k, rfl, h, fun j ↦ (if_neg (by simp)).symm⟩
  | cons i l ih =>
    rw [List.forall_mem_cons] at hl
    obtain ⟨k₁, hslot, hown, hslots⟩ := h.exists_cleanupSlot hl.1
    obtain ⟨k', hfold, hown', hslots'⟩ := ih hown hl.2
    refine ⟨k', ?_, hown', fun j ↦ ?_⟩
    · rw [List.foldlM_cons, hslot]
      exact hfold
    · rw [hslots', hslots]
      rcases eq_or_ne i j with rfl | hij
      · simp
      · rw [if_neg hij]
        exact if_congr (by rw [List.mem_cons, or_iff_right hij.symm]) rfl rfl

/-- Once the temporary buffer is retired, the slots own what is left. -/
theorem Kernel.Represents.exists_cleanupTempBuf (h : k.Represents s) :
    ∃ k', cleanupTempBuf k = .ok k' ∧ k'.SlotsOwn := by
  have hptrs : ∀ a, a ∈ k.ringPointers ↔ ∃ j < 10, (k.ring.slot j).buffptr = some a :=
    fun a ↦ h.holds.mem_pointers_iff
  have hunique : ∀ i j a, i < 10 → j < 10 → (k.ring.slot i).buffptr = some a →
      (k.ring.slot j).buffptr = some a → i = j := fun i j a hi hj ↦
    h.holds.slot_unique (List.nodup_append.1 h.nodup).1 hi hj
  rcases hdata : k.tempBuf.data with - | data
  · refine ⟨k, by rw [cleanupTempBuf, hdata]; rfl, ⟨fun a ↦ ?_, hunique⟩⟩
    rw [h.live_iff, hptrs, hdata]
    simp
  · obtain ⟨k₁, hkfree, hblock, hdevice, -⟩ := Kernel.exists_kfree (k := k) (p := some data)
      fun b hb ↦ (h.live_iff b).2 (Or.inr (hdata.trans hb))
    have hring : k₁.ring = k.ring := congrArg AesdDev.aesdWriteBuffer hdevice
    refine ⟨_, by rw [cleanupTempBuf, hdata]; exact bind_of_eq_ok hkfree _, ⟨fun a ↦ ?_, ?_⟩⟩
    · show (∃ blk, k₁.heap.block a = some blk) ↔ ∃ j < 10, (k₁.ring.slot j).buffptr = some a
      rw [hring, ← hptrs, hblock]
      rcases eq_or_ne data a with rfl | hne
      · rw [if_pos rfl]
        exact iff_of_false (by simp) (h.temp_not_mem hdata)
      · rw [if_neg (by simpa using hne), h.live_iff, hdata, or_iff_left (by simpa using hne)]
    · show ∀ i j a, i < 10 → j < 10 → (k₁.ring.slot i).buffptr = some a →
        (k₁.ring.slot j).buffptr = some a → i = j
      rw [hring]
      exact hunique

/-- **`aesd_cleanup_module` retires every live block, each once.** -/
theorem Kernel.Represents.exists_cleanup (h : k.Represents s) :
    ∃ k', aesdCleanupModule k = .ok k' ∧ ∀ a, k'.heap.block a = none := by
  obtain ⟨k₁, htemp, hown⟩ := h.exists_cleanupTempBuf
  obtain ⟨k', hfold, hown', hslots⟩ := hown.exists_foldlM (l := List.range 10)
    fun i hi ↦ List.mem_range.1 hi
  refine ⟨k', (bind_of_eq_ok htemp _).trans hfold, fun a ↦ ?_⟩
  rcases hblock : k'.heap.block a with - | blk
  · rfl
  · obtain ⟨j, hj, hslot⟩ := (hown'.live_iff a).1 ⟨blk, hblock⟩
    rw [hslots, if_pos (List.mem_range.2 hj)] at hslot
    exact absurd hslot (by simp)

/-- What the ring hands back for a new entry is owned by nobody any more. -/
theorem Kernel.Represents.handed_back (h : k.Represents s) {e : AesdBufferEntry} {c a : Addr}
    (he : e.buffptr = some c) (hc : a ≠ c)
    (hold : (aesdCircularBufferAddEntry k.ring e).1 = some a) :
    (∀ j < 10, ((aesdCircularBufferAddEntry k.ring e).2.slot j).buffptr ≠ some a) ∧
      k.tempBuf.data ≠ some a := by
  have hleave := h.addEntry_fst_eq_some_iff.1 hold
  have hholds : Holds (aesdCircularBufferAddEntry k.ring e).2 (push 10 k.ring.walk e) :=
    h.holds.addEntry (by rw [he]; simp)
  rw [push_eq_drop (by decide)] at hholds
  have hsplit : k.ringPointers =
      (k.ring.walk.take (k.ring.walk.length + 1 - 10)).filterMap AesdBufferEntry.buffptr ++
        (k.ring.walk.drop (k.ring.walk.length + 1 - 10)).filterMap AesdBufferEntry.buffptr := by
    rw [← List.filterMap_append, List.take_append_drop]
    rfl
  have hnodup := h.nodup
  rw [hsplit, List.append_assoc] at hnodup
  have hapart := (List.nodup_append.1 hnodup).2.2 a hleave
  refine ⟨fun j hj hslot ↦ ?_, fun hdata ↦ ?_⟩
  · have hmem := hholds.mem_pointers_iff.2 ⟨j, hj, hslot⟩
    rw [List.filterMap_append, List.mem_append] at hmem
    rcases hmem with hstay | hnew
    · exact hapart a (List.mem_append_left _ hstay) rfl
    · rw [List.filterMap_cons_some he] at hnew
      exact hc (List.mem_singleton.1 hnew)
  · exact hapart a (List.mem_append_right _ (Option.mem_toList.2 hdata)) rfl

end Cleanup

/-! ### What `aesd_write` frees -/

/-- A call of `aesd_write` gets to the `kfree` of what the ring has handed back: the old entry, and
the kernel then. -/
inductive Kernel.FreesNext (k : Kernel) (buf : UserBuf) (o : WriteOutcome) :
    Option Addr → Kernel → Prop
  | intro {locked room copied counted fresh filled : Kernel} {pending : List Byte}
      {commandData : Addr} {oldEntry : Option Addr} {ring : AesdCircularBuffer}
      (hlock : k.mutexLock = .ok locked) (hroom : locked.makeRoom buf.count o = .ok (true, room))
      (hcopy : room.copyFromUser room.tempBuf.data room.tempBuf.size buf o.uncopied =
        .ok (0, copied))
      (hcounted : counted = copied.setTempSize (sizeT (copied.tempBuf.size + buf.count)))
      (hload : counted.load counted.tempBuf.data 0 counted.tempBuf.size = .ok pending)
      (hnewline : newline ∈ pending)
      (hkmalloc : counted.kmalloc counted.tempBuf.size o.kmallocCommand =
        (some commandData, fresh))
      (hstore : fresh.store (some commandData) 0 pending = .ok filled)
      (hadd : aesdCircularBufferAddEntry filled.ring ⟨some commandData, filled.tempBuf.size⟩ =
        (oldEntry, ring)) :
      FreesNext k buf o oldEntry (filled.commitRing ring pending)

section Frees

variable {k k' : Kernel} {s : Log Byte} {buf : UserBuf} {o : WriteOutcome} {oldEntry : Option Addr}

/-- **The `kfree` is the next thing the call does**, and after it the call returns. -/
theorem Kernel.FreesNext.aesdWrite_eq (h : k.FreesNext buf o oldEntry k') {filp : File}
    (hopen : filp.privateData = some .aesdDevice) (fPos : ℤ) :
    aesdWrite k filp buf fPos o = (do
      let k ← k'.kfree oldEntry
      return ⟨buf.count, fPos + buf.count, [], (k.setTempSize 0).mutexUnlock⟩) := by
  obtain ⟨hlock, hroom, hcopy, rfl, hload, hnewline, hkmalloc, hstore, hadd⟩ := h
  have hdev : filp.dev = .ok .aesdDevice := by rw [File.dev, hopen]
  rw [aesdWrite, hdev, ok_bind, hlock, ok_bind, aesdWriteLocked, hroom, ok_bind]
  simp only [if_true, aesdWriteCopy, hcopy, ok_bind, ne_eq, not_true_eq_false, if_false,
    aesdWriteCommit, hload, hnewline, hkmalloc, hstore, hadd]

/-- A call that commits a command comes there. -/
theorem Kernel.Represents.exists_freesNext (h : k.Represents s) (hfree : k.mutex.held = false)
    (hfate : k.writeFate buf o = .committed) : ∃ oldEntry k', k.FreesNext buf o oldEntry k' := by
  have hlock := Kernel.mutexLock_of_free hfree
  rw [writeFate_eq h] at hfate
  rcases hroom : k.roomFor buf.count o with - | -
  · rw [hroom, if_neg Bool.false_ne_true] at hfate
    cases hfate
  rw [hroom, if_pos rfl, copyFate] at hfate
  obtain ⟨p, room, hmake, hrep, hdata, hfits, -⟩ :=
    (h.setMutex ⟨true, k.mutex.locks + 1, k.mutex.unlocks⟩).exists_makeRoom hroom
  obtain ⟨heap, hcopied, -, hall⟩ := hrep.copyFromUser hdata buf hfits o.uncopied
  split at hfate
  · rename_i hzero
    have hcounted := hall hzero
    rw [hzero] at hcopied
    rw [← (hrep.no_wrap buf).2.1] at hcounted
    rw [commitFate] at hfate
    split at hfate
    · rename_i hnewline
      split at hfate
      · rename_i hgrant
        rw [hcounted.length_pending] at hgrant
        obtain ⟨k₁, heap', hfresh, -, hfilled, -⟩ := hcounted.storeCommand hgrant
        exact ⟨_, _, .intro hlock hmake hcopied rfl (hcounted.load_pending hdata) hnewline hfresh
          hfilled rfl⟩
      · cases hfate
    · cases hfate
  · cases hfate

/-- What `kmalloc` returns it has granted. -/
theorem granted_of_kmalloc {size : ℕ} {o : Option Junk} {c : Addr}
    (h : k.kmalloc size o = (some c, k')) : granted size o = true := by
  rcases hgrant : granted size o with - | -
  · rw [Kernel.kmalloc_of_not_granted hgrant] at h
    exact absurd (Prod.mk.inj h).1 (by simp)
  · rfl

/-- **What the call frees** is live, and no slot and not the temporary buffer points to it. -/
theorem Kernel.Represents.freed_unowned (h : k.Represents s)
    (hfrees : k.FreesNext buf o oldEntry k') {a : Addr} (ha : oldEntry = some a) :
    (∃ blk, k'.heap.block a = some blk) ∧
      (∀ j < 10, (k'.ring.slot j).buffptr ≠ some a) ∧ k'.tempBuf.data ≠ some a := by
  obtain ⟨hlock, hroom, hcopy, rfl, hload, hnewline, hkmalloc, hstore, hadd⟩ := hfrees
  obtain ⟨m, -, hm⟩ := exists_of_bind_eq_ok hlock
  obtain rfl := Except.ok.inj hm
  -- there is room, and the bytes are copied
  obtain ⟨p, room, hmake, hrep, hdata, hfits, -⟩ :=
    (h.setMutex m).exists_makeRoom ((h.setMutex m).roomFor_of_makeRoom hroom)
  obtain ⟨-, rfl⟩ := Prod.mk.inj (Except.ok.inj (hmake.symm.trans hroom))
  obtain ⟨heap, hcopied, -, hall⟩ := hrep.copyFromUser hdata buf hfits o.uncopied
  obtain ⟨hzero, rfl⟩ := Prod.mk.inj (Except.ok.inj (hcopied.symm.trans hcopy))
  have hcounted := hall hzero
  rw [← (hrep.no_wrap buf).2.1] at hcounted
  -- the pending bytes are in the fresh block
  obtain rfl := Except.ok.inj ((hcounted.load_pending hdata).symm.trans hload)
  obtain ⟨k₁, heap', hfresh, -, hfilled, hblock⟩ :=
    hcounted.storeCommand (granted_of_kmalloc hkmalloc)
  obtain ⟨hc, rfl⟩ := Prod.mk.inj (hfresh.symm.trans hkmalloc)
  obtain rfl := Option.some.inj hc
  obtain rfl := Except.ok.inj (hfilled.symm.trans hstore)
  obtain ⟨rfl, rfl⟩ := Prod.mk.inj hadd
  have hlive := hcounted.live_of_leaving (hcounted.addEntry_fst_eq_some_iff.1 ha)
  have hne := fun heq ↦ Heap.ne_next_of_block hlive.choose_spec heq
  refine ⟨?_, hcounted.handed_back rfl hne ha⟩
  obtain ⟨blk, hblk⟩ := hlive
  exact ⟨blk, (hblock a).trans ((if_neg hne).trans hblk)⟩

end Frees

/-- **Every command buffer is freed exactly once.** In every state reached by any calls with any
failures of allocations and copies:

* the live blocks are exactly the ones that a slot of the ring or the temporary buffer points to,
  and no two of these point to the same block;
* no call uses or retires a block that is not live, and a block that was retired is never live
  again;
* what the ring hands back when a fresh block enters it, is in no slot any more, nor the temporary
  buffer;
* a call of `aesd_write` that commits a command comes to its `kfree`, after which it only returns;
  what it frees there is live, and neither a slot nor the temporary buffer points to it;
* `aesd_cleanup_module` comes to its end, and then no block is live. -/
theorem command_buffers_freed_once {fixedSizeLlseek : ℤ → ℤ → ℤ → ℤ → ℤ × ℤ} {sys : System}
    (hreach : Reachable (step fixedSizeLlseek) .init sys) :
    (∀ a, (∃ blk, sys.kernel.heap.block a = some blk) ↔
      (∃ j < 10, (sys.kernel.ring.slot j).buffptr = some a) ∨ sys.kernel.tempBuf.data = some a) ∧
    (∀ i j a, i < 10 → j < 10 → (sys.kernel.ring.slot i).buffptr = some a →
      (sys.kernel.ring.slot j).buffptr = some a → i = j) ∧
    (∀ j a, j < 10 → (sys.kernel.ring.slot j).buffptr = some a →
      sys.kernel.tempBuf.data ≠ some a) ∧
    (∀ op, step fixedSizeLlseek sys op ≠ .error .fault) ∧
    (∀ ops answers sys', run (step fixedSizeLlseek) sys ops = .ok (answers, sys') →
      sys.kernel.heap.Later sys'.kernel.heap) ∧
    (∀ (e : AesdBufferEntry) c a, e.buffptr = some c → sys.kernel.heap.block c = none →
      (aesdCircularBufferAddEntry sys.kernel.ring e).1 = some a →
      (∀ j < 10, ((aesdCircularBufferAddEntry sys.kernel.ring e).2.slot j).buffptr ≠ some a) ∧
        sys.kernel.tempBuf.data ≠ some a) ∧
    (∀ buf o, sys.kernel.mutex.held = false → sys.kernel.writeFate buf o = .committed →
      ∃ oldEntry k', sys.kernel.FreesNext buf o oldEntry k') ∧
    (∀ buf o a k', sys.kernel.FreesNext buf o (some a) k' →
      (∀ f filp fPos, sys.files f = some filp → aesdWrite sys.kernel filp buf fPos o = (do
        let k ← k'.kfree (some a)
        return ⟨buf.count, fPos + buf.count, [], (k.setTempSize 0).mutexUnlock⟩)) ∧
      (∃ blk, k'.heap.block a = some blk) ∧
        (∀ j < 10, (k'.ring.slot j).buffptr ≠ some a) ∧ k'.tempBuf.data ≠ some a) ∧
    ∃ k', aesdCleanupModule sys.kernel = .ok k' ∧ ∀ a, k'.heap.block a = none := by
  obtain ⟨s, hs⟩ := System.exists_represents hreach
  have hptrs := fun a ↦ hs.kernel.holds.mem_pointers_iff (a := a)
  refine ⟨fun a ↦ ?_, fun i j a hi hj ↦
    hs.kernel.holds.slot_unique (List.nodup_append.1 hs.kernel.nodup).1 hi hj,
    fun j a hj hslot hdata ↦ hs.kernel.temp_not_mem hdata ((hptrs a).2 ⟨j, hj, hslot⟩),
    System.step_ne_fault hs, fun _ _ _ ↦ System.later_of_run hs, fun e c a he hc hold ↦ ?_,
    fun _ _ ↦ hs.kernel.exists_freesNext, fun _ _ _ _ hfrees ↦
    ⟨fun f filp fPos hf ↦ hfrees.aesdWrite_eq (hs.opened f filp hf) fPos,
      hs.kernel.freed_unowned hfrees rfl⟩, hs.kernel.exists_cleanup⟩
  · rw [hs.kernel.live_iff, ← hptrs]
    rfl
  · refine hs.kernel.handed_back he ?_ hold
    -- the block handed back was live, the fresh one was not
    rintro rfl
    obtain ⟨e₀, he₀, ha₀⟩ := List.mem_filterMap.1 (hs.kernel.addEntry_fst_eq_some_iff.1 hold)
    obtain ⟨blk, hblk⟩ := hs.kernel.ring_live
      (Kernel.Represents.buffptr_mem_ringPointers (List.mem_of_mem_take he₀) ha₀)
    rw [hc] at hblk
    exact absurd hblk (by simp)

/-- After a write that fails and one that does not. -/
theorem command_buffers_freed_once_retry :
    let ops : List Op := [.openFile 0,
      .write 0 ⟨[97, newline], by decide⟩ ⟨some fun _ ↦ 0, none, 0, none⟩,
      .write 0 ⟨[98, newline], by decide⟩ .granting]
    ∃ answers sys, run (step stayPut) .init ops = .ok (answers, sys) ∧
      ∃ k', aesdCleanupModule sys.kernel = .ok k' ∧ ∀ a, k'.heap.block a = none := by
  intro ops
  have hclean := @command_buffers_freed_once stayPut _ ⟨ops, _, rfl⟩
  exact ⟨_, _, rfl, hclean.2.2.2.2.2.2.2.2⟩

end Aesd
