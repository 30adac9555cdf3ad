import Aesd.Driver.System

/-!
# Runs of writes

A successful write acts on the log as `Framing.Log.write newline` (`log_eq_write`), so a run of
calls in which every write succeeds acts as `Framing.Log.writeAll` on what was written
(`represents_writeAll`). From the laws of that function: nothing is lost, repeated or reordered
(`writes_frame_stream`), and the cut of a stream into writes shows only in where the writes that
hold a newline end (`ring_eq_of_gaps_eq`).

A failed write is not always without effect. `Kernel.FailsClean` is the exact condition under
which it is (`failed_write_unchanged_iff`): a failed copy drops the pending bytes, and a failed
allocation of the command keeps the new bytes pending.
-/

namespace Aesd

open Memory Framing BoundedFifo Execution

section Writes

variable {fixedSizeLlseek : ℤ → ℤ → ℤ → ℤ → ℤ × ℤ} {sys sys' : System} {s : Log Byte}
  {k : Kernel} {buf : UserBuf} {o : WriteOutcome}

/-- The bytes of a call, if it is a write. -/
def Op.written : Op → Option (List Byte)
  | .write _ buf _ => some buf.bytes
  | _ => none

/-- What the writes of a run contribute, call by call. -/
def written (ops : List Op) : List (List Byte) :=
  ops.filterMap Op.written

/-- A write does not fail. -/
def Op.Succeeds (op : Op) (a : Answer) : Prop :=
  op.written.isSome → 0 ≤ a.ret

/-! ### Successful writes -/

theorem WriteFate.eq_of_ret_nonneg {fate : WriteFate} {count : ℕ} (h : 0 ≤ fate.ret count) :
    fate = .kept ∨ fate = .committed := by
  have hmem : ¬ (0 : ℤ) ≤ -ENOMEM := by decide
  have hfault : ¬ (0 : ℤ) ≤ -EFAULT := by decide
  cases fate with
  | noRoom => exact absurd h hmem
  | badCopy => exact absurd h hfault
  | noCommand => exact absurd h hmem
  | kept => exact Or.inl rfl
  | committed => exact Or.inr rfl

/-- A call that does not fail returns `count` and adds it to the position. -/
theorem WriteFate.ret_fPos_of_nonneg {fate : WriteFate} {count : ℕ} (h : 0 ≤ fate.ret count)
    (fPos : ℤ) : fate.ret count = count ∧ fate.fPos fPos count = fPos + count := by
  rcases WriteFate.eq_of_ret_nonneg h with rfl | rfl
  · exact ⟨rfl, rfl⟩
  · exact ⟨rfl, rfl⟩

/-- A call that fails commits nothing and leaves the position alone. -/
theorem WriteFate.log_fPos_of_neg {fate : WriteFate} {count : ℕ} (h : fate.ret count < 0)
    (s : Log Byte) (bytes : List Byte) (fPos : ℤ) :
    (fate.log s bytes).committed = s.committed ∧ fate.fPos fPos count = fPos := by
  cases fate with
  | kept => exact absurd h (by simp [WriteFate.ret])
  | committed => exact absurd h (by simp [WriteFate.ret])
  | _ => exact ⟨rfl, rfl⟩

theorem mem_of_writeFate_committed (hfate : k.writeFate buf o = .committed) :
    newline ∈ k.pending ++ buf.bytes := by
  rw [Kernel.writeFate] at hfate
  split_ifs at hfate with hroom hcopy hmem hgrant
  exact hmem

theorem not_mem_of_writeFate_kept (hfate : k.writeFate buf o = .kept) :
    newline ∉ k.pending ++ buf.bytes := by
  rw [Kernel.writeFate] at hfate
  split_ifs at hfate with hroom hcopy hmem hgrant
  exact hmem

/-- **A successful write** acts on the log as the abstract write. -/
theorem log_eq_write (h : k.Represents s) (hret : 0 ≤ (k.writeFate buf o).ret buf.count) :
    (k.writeFate buf o).log s buf.bytes = s.write newline buf.bytes := by
  rcases WriteFate.eq_of_ret_nonneg hret with hfate | hfate
  · have hmem := not_mem_of_writeFate_kept hfate
    rw [h.pending_eq] at hmem
    rw [hfate, Log.write_of_not_mem hmem]
    rfl
  · have hmem := mem_of_writeFate_committed hfate
    rw [h.pending_eq] at hmem
    rw [hfate, Log.write_of_mem hmem]
    rfl

/-- A write that returned found the mutex free. -/
theorem free_of_aesdWrite {filp : File} (hopen : filp.privateData = some .aesdDevice) {fPos : ℤ}
    {reply : Reply} (hwrite : aesdWrite k filp buf fPos o = .ok reply) :
    k.mutex.held = false := by
  rcases hheld : k.mutex.held with - | -
  · rfl
  · rw [aesdWrite, File.dev_of_open hopen, ok_bind, Kernel.mutexLock_of_held hheld] at hwrite
    exact absurd hwrite (by simp [bind, Except.bind])

/-- What a write that returned did. -/
theorem aesdWrite_cases (h : k.Represents s) {filp : File}
    (hopen : filp.privateData = some .aesdDevice) {fPos : ℤ} {reply : Reply}
    (hwrite : aesdWrite k filp buf fPos o = .ok reply) :
    reply.ret = (k.writeFate buf o).ret buf.count ∧
      reply.fPos = (k.writeFate buf o).fPos fPos buf.count ∧ reply.data = [] ∧
      reply.kernel.Represents ((k.writeFate buf o).log s buf.bytes) := by
  obtain ⟨k', hspec, hrep, -⟩ :=
    aesdWrite_spec h (free_of_aesdWrite hopen hwrite) hopen buf fPos o
  obtain rfl := Except.ok.inj (hspec.symm.trans hwrite)
  exact ⟨rfl, rfl, rfl, hrep⟩

/-- What a write call of the system answers. -/
theorem step_write_cases (h : sys.Represents s) {f : ℕ} {a : Answer}
    (hstep : step fixedSizeLlseek sys (.write f buf o) = .ok (a, sys')) (hret : 0 ≤ a.ret) :
    a = ⟨buf.count, []⟩ ∧ sys'.Represents (s.write newline buf.bytes) ∧
      ∃ filp, sys.files f = some filp ∧
        sys'.files f = some { filp with fPos := filp.fPos + buf.count } := by
  obtain ⟨-, rfl, -⟩ | ⟨filp, reply, hf, hwrite, rfl, rfl⟩ := System.call_cases hstep
  · exact absurd hret (by decide)
  obtain ⟨hreply, hfPos, hdata, hrep⟩ := aesdWrite_cases h.kernel (h.opened f filp hf) hwrite
  have hfate : 0 ≤ (sys.kernel.writeFate buf o).ret buf.count := hreply ▸ hret
  rw [log_eq_write h.kernel hfate] at hrep
  obtain ⟨hcount, hpos⟩ := WriteFate.ret_fPos_of_nonneg hfate filp.fPos
  refine ⟨by rw [hreply, hcount, hdata], h.of_call hf hrep _, filp, hf, ?_⟩
  rw [System.setFile_files, if_pos rfl, hfPos, hpos]

/-- **A run in which every write succeeds** acts on the log as the abstract writes. -/
theorem represents_writeAll (h : sys.Represents s) {ops : List Op} {answers : List Answer}
    (hrun : run (step fixedSizeLlseek) sys ops = .ok (answers, sys'))
    (hsucc : List.Forall₂ Op.Succeeds ops answers) :
    sys'.Represents (s.writeAll newline (written ops)) := by
  rw [written, Log.writeAll, List.foldl_filterMap]
  refine simulates_of_run (fun sys s op a sys' hrep hret hstep ↦ ?_) h hrun hsucc
  rcases hop : op.written with - | bytes
  · have hlog := hrep.step hstep
    cases op with
    | write f buf o => exact absurd hop (by simp [Op.written])
    | _ => exact hlog
  · cases op with
    | write f buf o =>
      obtain rfl := Option.some.inj hop
      exact (step_write_cases hrep hstep (hret rfl)).2.1
    | _ => exact absurd hop (by simp [Op.written])

/-- A device that represents a log keeps its pending bytes and its last ten commands. -/
theorem committed_eq_and_pending_eq (h : sys.Represents s) :
    (⟨sys.kernel.committed, sys.kernel.pending⟩ : Log Byte) = s := by
  rw [h.kernel.committed_eq, h.kernel.pending_eq]

theorem rel_of_getElem? {α β : Type} {R : α → β → Prop} {l : List α} {l' : List β}
    (h : List.Forall₂ R l l') {n : ℕ} {x : α} {y : β} (hx : l[n]? = some x)
    (hy : l'[n]? = some y) : R x y := by
  obtain ⟨hn, rfl⟩ := List.getElem?_eq_some_iff.1 hx
  obtain ⟨hn', rfl⟩ := List.getElem?_eq_some_iff.1 hy
  exact (List.forall₂_iff_get.1 h).2 n hn hn'

/-- **Writing loses, duplicates and reorders nothing.** In a run from the fresh device in which
every write succeeds: what was committed and is pending is what was written; the commands are
groups of whole calls, of which only the last holds a newline; no newline is pending; the ring
holds the last ten commands; and each write returns its `count` and moves its file on by that. -/
theorem writes_frame_stream (fixedSizeLlseek : ℤ → ℤ → ℤ → ℤ → ℤ × ℤ) {ops : List Op}
    {answers : List Answer} {sys : System}
    (hrun : run (step fixedSizeLlseek) .init ops = .ok (answers, sys))
    (hsucc : List.Forall₂ Op.Succeeds ops answers) :
    sys.kernel.committed.flatten ++ sys.kernel.pending = (written ops).flatten ∧
    (∃ groups rest, Log.Grouped newline ⟨sys.kernel.committed, sys.kernel.pending⟩ (written ops)
      groups rest) ∧
    newline ∉ sys.kernel.pending ∧
    sys.kernel.commands = sys.kernel.committed.rtake 10 ∧
    ∀ n f buf o, ops[n]? = some (.write f buf o) → answers[n]? = some ⟨buf.count, []⟩ ∧
      ∃ sys₁ sys₂ filp, run (step fixedSizeLlseek) .init (ops.take n) = .ok (answers.take n, sys₁) ∧
        step fixedSizeLlseek sys₁ (.write f buf o) = .ok (⟨buf.count, []⟩, sys₂) ∧
        sys₁.files f = some filp ∧
        sys₂.files f = some { filp with fPos := filp.fPos + buf.count } := by
  have hrep := represents_writeAll System.represents_init hrun hsucc
  have hlog := committed_eq_and_pending_eq hrep
  have hbytes := Log.bytes_writeAll newline .empty (written ops)
  refine ⟨?_, ?_, ?_, ?_, fun n f buf o hn ↦ ?_⟩
  · rw [← hlog] at hbytes
    exact hbytes
  · rw [hlog]
    exact Log.exists_grouped_writeAll newline (written ops)
  · rw [hrep.kernel.pending_eq]
    exact Log.not_mem_pending_writeAll List.not_mem_nil (written ops)
  · rw [hrep.kernel.commands_eq, hrep.kernel.committed_eq]
  · obtain ⟨sys₁, a, sys₂, htake, hstep, ha⟩ := exists_step_of_run hrun hn
    obtain ⟨s, hs⟩ := System.exists_represents ((Reachable.refl _).of_run htake)
    have hret : 0 ≤ a.ret := rel_of_getElem? hsucc hn ha rfl
    obtain ⟨rfl, -, filp, hf, hf'⟩ := step_write_cases hs hstep hret
    exact ⟨ha, sys₁, sys₂, filp, htake, hstep, hf, hf'⟩

/-- Two files write three pieces of a stream: one command and a rest. -/
theorem writes_frame_stream_two_files :
    let ops : List Op := [.openFile 0, .openFile 1, .write 0 ⟨[97], by decide⟩ .granting,
      .write 1 ⟨[], by decide⟩ .granting, .write 1 ⟨[98, newline, 99], by decide⟩ .granting,
      .write 0 ⟨[100], by decide⟩ .granting]
    ∃ answers sys, run (step stayPut) .init ops = .ok (answers, sys) ∧
      sys.kernel.committed = [[97, 98, newline, 99]] ∧
      sys.kernel.committed.flatten ++ sys.kernel.pending = (written ops).flatten ∧
      sys.kernel.commands = sys.kernel.committed.rtake 10 := by
  intro ops
  have hsucc : List.Forall₂ Op.Succeeds ops
      [⟨0, []⟩, ⟨0, []⟩, ⟨1, []⟩, ⟨0, []⟩, ⟨3, []⟩, ⟨1, []⟩] := by
    simp [ops, Op.Succeeds]
  obtain ⟨hbytes, -, -, hring, -⟩ := writes_frame_stream stayPut rfl hsucc
  exact ⟨_, _, rfl, rfl, hbytes, hring⟩

/-! ### Cutting a stream into writes -/

/-- **What of a cut shows.** Two runs from one reachable state with no newline pending, in which
every write succeeds and which write the same stream, commit the same commands and leave the same
bytes pending if and only if the writes that hold a newline end at the same places. Then the rings
agree too. This is so when in both runs every newline is the last byte of its write. -/
theorem ring_eq_of_gaps_eq (fixedSizeLlseek : ℤ → ℤ → ℤ → ℤ → ℤ × ℤ) {sys sys₁ sys₂ : System}
    (hreach : Reachable (step fixedSizeLlseek) .init sys) (hpending : newline ∉ sys.kernel.pending)
    {ops₁ ops₂ : List Op} {answers₁ answers₂ : List Answer}
    (hrun₁ : run (step fixedSizeLlseek) sys ops₁ = .ok (answers₁, sys₁))
    (hrun₂ : run (step fixedSizeLlseek) sys ops₂ = .ok (answers₂, sys₂))
    (hsucc₁ : List.Forall₂ Op.Succeeds ops₁ answers₁)
    (hsucc₂ : List.Forall₂ Op.Succeeds ops₂ answers₂)
    (hstream : (written ops₁).flatten = (written ops₂).flatten) :
    (sys₁.kernel.committed = sys₂.kernel.committed ∧ sys₁.kernel.pending = sys₂.kernel.pending ↔
      Log.gaps newline 0 (written ops₁) = Log.gaps newline 0 (written ops₂)) ∧
    (Log.gaps newline 0 (written ops₁) = Log.gaps newline 0 (written ops₂) →
      sys₁.kernel.commands = sys₂.kernel.commands ∧ sys₁.kernel.pending = sys₂.kernel.pending) ∧
    ((∀ b ∈ written ops₁, newline ∉ b.dropLast) → (∀ b ∈ written ops₂, newline ∉ b.dropLast) →
      Log.gaps newline 0 (written ops₁) = Log.gaps newline 0 (written ops₂)) := by
  obtain ⟨s, hs⟩ := System.exists_represents hreach
  rw [hs.kernel.pending_eq] at hpending
  have hrep₁ := represents_writeAll hs hrun₁ hsucc₁
  have hrep₂ := represents_writeAll hs hrun₂ hsucc₂
  have hiff := Log.writeAll_eq_iff hpending hstream
  refine ⟨?_, fun hgaps ↦ ?_, fun h₁ h₂ ↦ Log.gaps_eq_of_flatten_eq h₁ h₂ hstream⟩
  · rw [← hiff, ← committed_eq_and_pending_eq hrep₁, ← committed_eq_and_pending_eq hrep₂,
      Log.mk.injEq]
  · have heq := hiff.2 hgaps
    rw [hrep₁.kernel.commands_eq, hrep₂.kernel.commands_eq, hrep₁.kernel.pending_eq,
      hrep₂.kernel.pending_eq, heq]
    exact ⟨rfl, rfl⟩

/-- One stream in two cuts in which each newline ends its write: the rings agree. -/
theorem ring_eq_of_gaps_eq_two_cuts :
    let ops₁ : List Op :=
      [.openFile 0, .write 0 ⟨[97, newline], by decide⟩ .granting,
        .write 0 ⟨[98, newline], by decide⟩ .granting]
    let ops₂ : List Op :=
      [.openFile 0, .write 0 ⟨[97], by decide⟩ .granting,
        .write 0 ⟨[newline], by decide⟩ .granting, .write 0 ⟨[98, newline], by decide⟩ .granting]
    ∃ answers₁ sys₁ answers₂ sys₂, run (step stayPut) .init ops₁ = .ok (answers₁, sys₁) ∧
      run (step stayPut) .init ops₂ = .ok (answers₂, sys₂) ∧
      sys₁.kernel.commands = sys₂.kernel.commands ∧
      sys₁.kernel.pending = sys₂.kernel.pending := by
  intro ops₁ ops₂
  have hsucc₁ : List.Forall₂ Op.Succeeds ops₁ [⟨0, []⟩, ⟨2, []⟩, ⟨2, []⟩] := by
    simp [ops₁, Op.Succeeds]
  have hsucc₂ : List.Forall₂ Op.Succeeds ops₂ [⟨0, []⟩, ⟨1, []⟩, ⟨1, []⟩, ⟨2, []⟩] := by
    simp [ops₂, Op.Succeeds]
  obtain ⟨-, hrings, -⟩ := ring_eq_of_gaps_eq stayPut (Reachable.refl _) (by decide) rfl rfl
    hsucc₁ hsucc₂ rfl
  exact ⟨_, _, _, _, rfl, rfl, hrings (by decide)⟩

/-- One write of two lines makes one command, two writes make two: the same stream from the same
state, every call succeeds, and the rings differ. -/
theorem two_lines_in_one_write :
    let ops₁ : List Op := [.write 0 ⟨[97, newline, 98, newline], by decide⟩ .granting]
    let ops₂ : List Op := [.write 0 ⟨[97, newline], by decide⟩ .granting,
      .write 0 ⟨[98, newline], by decide⟩ .granting]
    ∃ sys answers₁ sys₁ answers₂ sys₂, Reachable (step stayPut) .init sys ∧
      run (step stayPut) sys ops₁ = .ok (answers₁, sys₁) ∧
      run (step stayPut) sys ops₂ = .ok (answers₂, sys₂) ∧
      List.Forall₂ Op.Succeeds ops₁ answers₁ ∧ List.Forall₂ Op.Succeeds ops₂ answers₂ ∧
      (written ops₁).flatten = (written ops₂).flatten ∧
      sys₁.kernel.commands = [[97, newline, 98, newline]] ∧
      sys₂.kernel.commands = [[97, newline], [98, newline]] := by
  intro ops₁ ops₂
  have hopen : step stayPut .init (.openFile 0) =
      .ok (⟨0, []⟩, System.init.setFile 0 (some ⟨some .aesdDevice, 0⟩)) := rfl
  refine ⟨_, _, _, _, _, (Reachable.refl System.init).tail hopen, rfl, rfl, ?_, ?_, rfl, rfl, rfl⟩
  · simp [ops₁, Op.Succeeds]
  · simp [ops₂, Op.Succeeds]

/-! ### Failed writes -/

/-- A call that fails leaves no trace: there is no room for the bytes, or the copy fails with
nothing pending, or there are no bytes. -/
def Kernel.FailsClean (k : Kernel) (buf : UserBuf) (o : WriteOutcome) : Prop :=
  k.roomFor buf.count o = false ∨ (min o.uncopied buf.count ≠ 0 ∧ k.pending = []) ∨ buf.count = 0

/-- The same write once more: the value it returns and the kernel after it. -/
def attempt (filp : File) (buf : UserBuf) (fPos : ℤ) (k : Kernel) (o : WriteOutcome) :
    Except Stop (ℤ × Kernel) :=
  match aesdWrite k filp buf fPos o with
  | .error stop => .error stop
  | .ok reply => .ok (reply.ret, reply.kernel)

/-- A failed call leaves the log alone exactly when it fails clean. -/
theorem log_eq_self_iff (h : k.Represents s) (hret : (k.writeFate buf o).ret buf.count < 0) :
    (k.writeFate buf o).log s buf.bytes = s ↔ k.FailsClean buf o := by
  have hcount : buf.bytes = [] ↔ buf.count = 0 := List.length_eq_zero_iff.symm
  have hself : ∀ p, (⟨s.committed, p⟩ : Log Byte) = s ↔ p = s.pending := fun p ↦ by
    obtain ⟨committed, pending⟩ := s
    simp
  rw [Kernel.FailsClean, h.pending_eq]
  rw [Kernel.writeFate] at hret ⊢
  split_ifs at hret ⊢ with hroom hcopy hmem hgrant
  · exact absurd hret (by simp [WriteFate.ret])
  · -- the command could not be stored: the new bytes stay pending
    show (⟨s.committed, s.pending ++ buf.bytes⟩ : Log Byte) = s ↔ _
    rw [hself, List.append_right_eq_self, hcount]
    simp [hroom, hcopy]
  · exact absurd hret (by simp [WriteFate.ret])
  · -- the copy failed: the pending bytes are dropped
    show (⟨s.committed, []⟩ : Log Byte) = s ↔ _
    have hpos : buf.count ≠ 0 := fun hzero ↦ hcopy (by rw [hzero, Nat.min_zero])
    rw [hself, eq_comm]
    simp [hroom, hcopy, hpos]
  · simp [hroom, WriteFate.log]

/-- Failed attempts that each fail clean leave the log alone. -/
theorem represents_of_attempts (h : k.Represents s) {filp : File}
    (hopen : filp.privateData = some .aesdDevice) {fPos : ℤ} {os : List WriteOutcome}
    {rets : List ℤ} {k' : Kernel} (hrun : run (attempt filp buf fPos) k os = .ok (rets, k'))
    (hclean : Along (attempt filp buf fPos) (fun k o ↦ k.FailsClean buf o) k os)
    (hrets : ∀ ret ∈ rets, ret < 0) : k'.Represents s := by
  refine invariant_of_along (I := fun k ↦ k.Represents s) ?_ h hrun hclean hrets
  intro k o ret k' hk hclean hret hattempt
  rw [attempt] at hattempt
  rcases hwrite : aesdWrite k filp buf fPos o with stop | reply
  · simp [hwrite] at hattempt
  · simp only [hwrite, Except.ok.injEq, Prod.mk.injEq] at hattempt
    obtain ⟨rfl, rfl⟩ := hattempt
    obtain ⟨hreply, -, -, hrep⟩ := aesdWrite_cases hk hopen hwrite
    rwa [(log_eq_self_iff hk (hreply ▸ hret)).2 hclean] at hrep

/-- **A failed write changes nothing exactly when it fails clean**, in every reachable state. And
after any number of attempts of one write that fail clean, the attempt that succeeds has the effect
of the same write succeeding at once. -/
theorem failed_write_unchanged_iff (fixedSizeLlseek : ℤ → ℤ → ℤ → ℤ → ℤ × ℤ) {sys : System}
    (hreach : Reachable (step fixedSizeLlseek) .init sys) {f : ℕ} {filp : File}
    (hf : sys.files f = some filp) (buf : UserBuf) (fPos : ℤ) :
    (∀ o reply, aesdWrite sys.kernel filp buf fPos o = .ok reply → reply.ret < 0 →
      (reply.kernel.commands = sys.kernel.commands ∧ reply.kernel.pending = sys.kernel.pending ∧
        reply.fPos = fPos ↔ sys.kernel.FailsClean buf o)) ∧
    ∀ os rets k, run (attempt filp buf fPos) sys.kernel os = .ok (rets, k) →
      (∀ ret ∈ rets, ret < 0) →
      Along (attempt filp buf fPos) (fun k o ↦ k.FailsClean buf o) sys.kernel os →
      ∀ o reply o' reply', aesdWrite k filp buf fPos o = .ok reply → 0 ≤ reply.ret →
        aesdWrite sys.kernel filp buf fPos o' = .ok reply' → 0 ≤ reply'.ret →
        reply.kernel.commands = reply'.kernel.commands ∧
          reply.kernel.pending = reply'.kernel.pending ∧ reply.fPos = reply'.fPos := by
  obtain ⟨s, hs⟩ := System.exists_represents hreach
  have hopen := hs.opened f filp hf
  refine ⟨fun o reply hwrite hret ↦ ?_, ?_⟩
  · obtain ⟨hreply, hpos, -, hrep⟩ := aesdWrite_cases hs.kernel hopen hwrite
    rw [hreply] at hret
    obtain ⟨hcommitted, hfPos⟩ := WriteFate.log_fPos_of_neg hret s buf.bytes fPos
    rw [← log_eq_self_iff hs.kernel hret, hrep.commands_eq, hs.kernel.commands_eq, hcommitted,
      hrep.pending_eq, hs.kernel.pending_eq, hpos, hfPos]
    constructor
    · rintro ⟨-, hpending, -⟩
      exact Log.ext hcommitted hpending
    · intro hlog
      rw [hlog]
      exact ⟨rfl, rfl, rfl⟩
  · intro os rets k hrun hrets hclean o reply o' reply' hwrite hret hwrite' hret'
    have hk := represents_of_attempts hs.kernel hopen hrun hclean hrets
    obtain ⟨hreply, hpos, -, hrep⟩ := aesdWrite_cases hk hopen hwrite
    obtain ⟨hreply', hpos', -, hrep'⟩ := aesdWrite_cases hs.kernel hopen hwrite'
    rw [hreply] at hret
    rw [hreply'] at hret'
    rw [log_eq_write hk hret] at hrep
    rw [log_eq_write hs.kernel hret'] at hrep'
    rw [hrep.commands_eq, hrep'.commands_eq, hrep.pending_eq, hrep'.pending_eq, hpos, hpos',
      (WriteFate.ret_fPos_of_nonneg hret fPos).2, (WriteFate.ret_fPos_of_nonneg hret' fPos).2]
    exact ⟨rfl, rfl, rfl⟩

/-- The first `kmalloc` fails, twice: nothing has changed, and the third attempt is a first one. -/
theorem failed_write_unchanged_iff_no_memory :
    let buf : UserBuf := ⟨[97, newline], by decide⟩
    let refusing : WriteOutcome := { WriteOutcome.granting with kmallocTemp := none }
    ∃ (sys : System) (filp : File), sys.files 0 = some filp ∧
      (∃ reply, aesdWrite sys.kernel filp buf 0 refusing = .ok reply ∧ reply.ret = -ENOMEM ∧
        reply.kernel.commands = sys.kernel.commands ∧
        reply.kernel.pending = sys.kernel.pending ∧ reply.fPos = 0) ∧
      ∃ rets k reply reply', run (attempt filp buf 0) sys.kernel [refusing, refusing] =
          .ok (rets, k) ∧
        aesdWrite k filp buf 0 .granting = .ok reply ∧
        aesdWrite sys.kernel filp buf 0 .granting = .ok reply' ∧
        reply.kernel.commands = reply'.kernel.commands := by
  intro buf refusing
  have hopen : step stayPut .init (.openFile 0) =
      .ok (⟨0, []⟩, System.init.setFile 0 (some ⟨some .aesdDevice, 0⟩)) := rfl
  have hreach := (Reachable.refl System.init).tail hopen
  have hfile : (System.init.setFile 0 (some ⟨some .aesdDevice, 0⟩)).files 0 =
      some ⟨some .aesdDevice, 0⟩ := rfl
  obtain ⟨hiff, hretry⟩ := failed_write_unchanged_iff stayPut hreach hfile buf 0
  have hagain : attempt ⟨some .aesdDevice, 0⟩ buf 0 aesdInitModule refusing =
      .ok (-ENOMEM, aesdInitModule.cycled) := rfl
  refine ⟨_, _, hfile, ⟨_, rfl, rfl, (hiff refusing _ rfl (by decide)).2 (Or.inl rfl)⟩,
    _, _, _, _, rfl, rfl, rfl, ?_⟩
  refine (hretry [refusing, refusing] _ _ rfl (by decide) ?_ .granting _ .granting _ rfl
    (by decide) rfl (by decide)).1
  refine ⟨Or.inl rfl, fun ret k h ↦ ⟨?_, fun _ _ _ ↦ trivial⟩⟩
  obtain ⟨-, rfl⟩ := Prod.mk.inj (Except.ok.inj (hagain.symm.trans h))
  exact Or.inl rfl

/-- A copy that fails drops what an earlier call left pending. -/
theorem failed_copy_drops_pending :
    let failing : WriteOutcome := { WriteOutcome.granting with uncopied := 1 }
    ∃ sys filp reply, Reachable (step stayPut) .init sys ∧ sys.files 0 = some filp ∧
      aesdWrite sys.kernel filp ⟨[99, newline], by decide⟩ filp.fPos failing = .ok reply ∧
      reply.ret = -EFAULT ∧ sys.kernel.pending = [97, 98] ∧ reply.kernel.pending = [] := by
  intro failing
  have hrun : run (step stayPut) .init
      [.openFile 0, .write 0 ⟨[97, 98], by decide⟩ .granting] = .ok (_, _) := rfl
  exact ⟨_, _, _, (Reachable.refl System.init).of_run hrun, rfl, rfl, rfl, rfl, rfl⟩

end Writes

end Aesd
