import Aesd.Foundation.Delivery
import Aesd.Driver.Seek

/-!
# Reading a file to its end

What the calls on one open file deliver, when the file is only read. Its position is the number of
bytes delivered (`System.fPos_of_step`), and each read delivers what comes next in the ring
(`readPiece_append`). So while nothing is committed the pieces of any reads are what is in the ring,
from the first position on (`reads_deliver_commands`).
-/

namespace Aesd

open Memory Framing BoundedFifo Positions Execution Delivery

/-! ### One read -/

section Piece

variable {cmds : List (List Byte)} {p count : ℕ}

/-- A piece is what comes next. -/
theorem readPiece_append (cmds : List (List Byte)) (p count : ℕ) :
    readPiece cmds p count ++ cmds.flatten.drop (p + (readPiece cmds p count).length) =
      cmds.flatten.drop p := by
  rw [readPiece]
  rcases hlocate : locate (cmds.map List.length) p with - | ⟨i, o⟩
  · rfl
  · obtain ⟨cmd, hcmd, -, hdrop⟩ := flatten_drop_of_locate hlocate
    simp only [hcmd, Option.getD_some]
    have htake : ((cmd.drop o).take count).length ≤ (cmd.drop o).length := by
      rw [List.length_take]
      exact Nat.min_le_right _ _
    rw [← List.drop_drop, hdrop, List.drop_append_of_le_length htake, ← List.append_assoc,
      List.length_take, List.take_eq_take_min, List.take_append_drop]

/-- A piece is empty behind the last byte, and when no byte is asked for. -/
theorem readPiece_eq_nil_iff :
    readPiece cmds p count = [] ↔ cmds.flatten.length ≤ p ∨ count = 0 := by
  rw [readPiece, List.length_flatten]
  rcases hlocate : locate (cmds.map List.length) p with - | ⟨i, o⟩
  · exact iff_of_true rfl (Or.inl (locate_eq_none_iff.1 hlocate))
  · obtain ⟨cmd, hcmd, ho, -⟩ := flatten_drop_of_locate hlocate
    have hbelow : ¬ (cmds.map List.length).sum ≤ p := fun hge ↦ by
      rw [locate_eq_none_iff.2 hge] at hlocate
      exact absurd hlocate (by simp)
    simp only [hcmd, Option.getD_some]
    rw [List.take_eq_nil_iff, List.drop_eq_nil_iff, or_iff_left (by omega), or_iff_right hbelow]

/-- A piece that is not empty ends inside the commands. -/
theorem add_length_readPiece_le (hne : readPiece cmds p count ≠ []) :
    p + (readPiece cmds p count).length ≤ cmds.flatten.length := by
  have hbelow : ¬ cmds.flatten.length ≤ p := fun hge ↦ hne (readPiece_eq_nil_iff.2 (Or.inl hge))
  have hlen := congrArg List.length (readPiece_append cmds p count)
  rw [List.length_append, List.length_drop, List.length_drop] at hlen
  omega

end Piece

@[simp]
theorem readReply_fPos (k : Kernel) (piece : List Byte) (uncopied : ℕ) (fPos : ℤ) :
    (readReply k piece uncopied fPos).fPos =
      fPos + (readReply k piece uncopied fPos).data.length := by
  rw [readReply]
  split
  · exact (add_zero fPos).symm
  · rfl

/-- A read that fails delivers nothing. -/
theorem readReply_data_of_fault {k : Kernel} {piece : List Byte} {uncopied : ℕ} {fPos : ℤ}
    (hret : (readReply k piece uncopied fPos).ret = -EFAULT) :
    (readReply k piece uncopied fPos).data = [] := by
  rw [readReply] at hret ⊢
  split
  · rfl
  · next hcopied =>
    rw [if_neg hcopied] at hret
    exact absurd (show (piece.length : ℤ) = -14 from hret) (by omega)

/-! ### A file that is only read -/

namespace Op

/-- The call does nothing to the file `f` but read it. Opening `f` when it is open is no call on
it. -/
def readsOnly (f : ℕ) : Op → Bool
  | .openFile _ | .read .. => true
  | .release g | .write g .. | .llseek g .. | .ioctl g .. => g != f

/-- What the call delivers to a reader of `f`: nothing if it is not a read of `f`. -/
def pieceOf (f : ℕ) (a : Answer) : Op → Option (List Byte)
  | .read g .. => if g = f then some a.data else none
  | _ => none

end Op

/-- What the calls of a run deliver to the reader of `f`. -/
def pieces (f : ℕ) (ops : List Op) (answers : List Answer) : List (List Byte) :=
  (ops.zip answers).filterMap fun call ↦ call.1.pieceOf f call.2

section File

variable {fixedSizeLlseek : ℤ → ℤ → ℤ → ℤ → ℤ × ℤ} {sys sys' : System} {s : Log Byte} {f : ℕ}
  {filp : File} {op : Op} {a : Answer}

theorem pieces_cons (f : ℕ) (op : Op) (ops : List Op) (a : Answer) (answers : List Answer) :
    pieces f (op :: ops) (a :: answers) = (op.pieceOf f a).toList ++ pieces f ops answers := by
  rw [pieces, List.zip_cons_cons, List.filterMap_cons, pieces]
  rcases op.pieceOf f a with - | piece <;> rfl

/-- Nothing was delivered if no read delivered a byte. -/
theorem flatten_pieces_eq_nil {ops : List Op} {answers : List Answer}
    (h : ∀ (i : ℕ) (a : Answer) (count uncopied : ℕ), ops[i]? = some (.read f count uncopied) →
      answers[i]? = some a → a.data = []) : (pieces f ops answers).flatten = [] := by
  refine List.flatten_eq_nil_iff.2 fun piece hpiece ↦ ?_
  obtain ⟨⟨op, a⟩, hmem, hop⟩ := List.mem_filterMap.1 hpiece
  obtain ⟨i, hi⟩ := List.mem_iff_getElem?.1 hmem
  obtain ⟨hop', ha⟩ := List.getElem?_zip_eq_some.1 hi
  cases op with
  | read g count uncopied =>
    rw [Op.pieceOf, Option.ite_none_right_eq_some] at hop
    obtain ⟨rfl, hdata⟩ := hop
    rw [← Option.some.inj hdata]
    exact h i a count uncopied hop' ha
  | _ => exact absurd hop (by simp [Op.pieceOf])

namespace System

/-- A call on another file leaves `f` alone. -/
theorem files_of_call {g : ℕ} (hg : g ≠ f) {operation : File → Except Stop Reply}
    (hcall : sys.call g operation = .ok (a, sys')) : sys'.files f = sys.files f := by
  obtain ⟨-, -, rfl⟩ | ⟨filp, reply, -, -, -, rfl⟩ := call_cases hcall
  · rfl
  · rw [setFile_files, if_neg hg.symm]

/-- The mutex is free when a read returns. -/
theorem free_of_read {count uncopied : ℕ} (hopen : filp.privateData = some .aesdDevice)
    {k : Kernel} {fPos : ℤ} {reply : Reply}
    (hread : aesdRead k filp count uncopied fPos = .ok reply) :
    k.mutex.held = false := by
  rcases hheld : k.mutex.held with - | -
  · rfl
  · rw [aesdRead, File.dev_of_open hopen, ok_bind, Kernel.mutexLock_of_held hheld] at hread
    exact absurd hread (by simp [bind, Except.bind])

/-- **The position of a file that is only read** moves by what is delivered. -/
theorem fPos_of_step (h : sys.Represents s) (hstep : step fixedSizeLlseek sys op = .ok (a, sys'))
    (hop : op.readsOnly f = true) (hf : sys.files f = some filp) :
    sys'.files f =
      some { filp with fPos := filp.fPos + ((op.pieceOf f a).getD []).length } := by
  have hstay : sys.files f =
      some { filp with fPos := filp.fPos + (([] : List Byte)).length } := by
    rw [hf, List.length_nil, Nat.cast_zero, add_zero]
  cases op with
  | openFile g =>
    rcases step_openFile_cases hstep with rfl | ⟨hg, rfl⟩
    · exact hstay
    · have hne : f ≠ g := fun heq ↦ by
        rw [heq, hg] at hf
        exact absurd hf (by simp)
      rw [setFile_files, if_neg hne]
      exact hstay
  | release g =>
    have hne : g ≠ f := bne_iff_ne.1 hop
    rcases step_release_cases hstep with rfl | rfl
    · exact hstay
    · rw [setFile_files, if_neg hne.symm]
      exact hstay
  | read g count uncopied =>
    rcases eq_or_ne g f with rfl | hne
    · obtain ⟨hnone, -⟩ | ⟨filp', reply, hf', hread, rfl, rfl⟩ := call_cases hstep
      · rw [hnone] at hf
        exact absurd hf (by simp)
      · obtain rfl : filp' = filp := Option.some.inj (hf'.symm.trans hf)
        have hopen := h.opened g filp' hf
        obtain ⟨piece, hpiece⟩ := exists_aesdRead h.kernel (free_of_read hopen hread) hopen count
          uncopied filp'.fPos
        obtain rfl := Except.ok.inj (hread.symm.trans hpiece)
        rw [setFile_files, if_pos rfl, readReply_fPos, Op.pieceOf, if_pos rfl, Option.getD_some]
    · rw [files_of_call hne hstep, Op.pieceOf, if_neg hne]
      exact hstay
  | write g => rw [files_of_call (bne_iff_ne.1 hop) hstep]; exact hstay
  | llseek g => rw [files_of_call (bne_iff_ne.1 hop) hstep]; exact hstay
  | ioctl g => rw [files_of_call (bne_iff_ne.1 hop) hstep]; exact hstay

/-- **The position after a run** is moved by all that was delivered. -/
theorem fPos_of_run {ops : List Op} {answers : List Answer} (h : sys.Represents s)
    (hrun : run (step fixedSizeLlseek) sys ops = .ok (answers, sys'))
    (hops : ∀ op ∈ ops, op.readsOnly f = true) (hf : sys.files f = some filp) :
    sys'.files f =
      some { filp with fPos := filp.fPos + (pieces f ops answers).flatten.length } := by
  induction ops generalizing sys s filp answers with
  | nil =>
    obtain ⟨rfl, rfl⟩ := Prod.mk.inj (Except.ok.inj hrun)
    rw [hf]
    exact congrArg some (congrArg (File.mk _) (add_zero _).symm)
  | cons op ops ih =>
    obtain ⟨a, sys₁, answers, hstep, hrest, rfl⟩ := run_cons_eq_ok_iff.1 hrun
    rw [List.forall_mem_cons] at hops
    rw [ih (h.step hstep) hrest hops.2 (fPos_of_step h hstep hops.1 hf), pieces_cons]
    rcases op.pieceOf f a with - | piece
    · simp
    · simp [add_assoc]

end System

/-! ### Reading to the end -/

/-- A call that leaves a reader of `f` undisturbed: it commits nothing, does not move `f`, does not
strand the mutex, and if it is a read of `f`, it asks for a byte and copies all it has. -/
def Op.Quiet (f : ℕ) (sys : System) (op : Op) : Prop :=
  op.readsOnly f = true ∧ op.strands sys = false ∧
    match op with
    | .read g count uncopied => g = f → 0 < count ∧ uncopied = 0
    | .write _ buf o => sys.kernel.writeFate buf o ≠ .committed
    | _ => True

/-- The ring holds `cmds`, the mutex is free, and `f` is open at `p`. -/
structure Reading (f : ℕ) (cmds : List (List Byte)) (p : ℕ) (sys : System) : Prop where
  represents : ∃ s, sys.Represents s ∧ s.committed.rtake 10 = cmds
  free : sys.kernel.mutex.held = false
  file : sys.files f = some ⟨some .aesdDevice, p⟩

variable {cmds : List (List Byte)} {p : ℕ} {ops : List Op}

theorem WriteFate.log_committed_of_ne {fate : WriteFate} (h : fate ≠ .committed) (s : Log Byte)
    (bytes : List Byte) : (fate.log s bytes).committed = s.committed := by
  cases fate with
  | committed => exact absurd rfl h
  | _ => rfl

theorem Op.Quiet.log_committed (h : op.Quiet f sys) (s : Log Byte) :
    (op.log sys s).committed = s.committed := by
  cases op with
  | write g buf o =>
    rw [Op.log]
    split
    · rfl
    · exact WriteFate.log_committed_of_ne h.2.2 s buf.bytes
  | _ => rfl

namespace Reading

/-- A read returns the piece at the position. -/
theorem step_read (h : Reading f cmds p sys) (hsum : (cmds.map List.length).sum < 2 ^ 63)
    (hp : p < 2 ^ 63) (fixedSizeLlseek : ℤ → ℤ → ℤ → ℤ → ℤ × ℤ) (count uncopied : ℕ) :
    ∃ sys', step fixedSizeLlseek sys (.read f count uncopied) =
      .ok (⟨(readReply sys.kernel (readPiece cmds p count) uncopied p).ret,
        (readReply sys.kernel (readPiece cmds p count) uncopied p).data⟩, sys') := by
  obtain ⟨s, hs, rfl⟩ := h.represents
  have hread := aesdRead_eq hs.kernel h.free (hs.opened f _ h.file)
    (Nat.lt_trans hsum (by decide)) (Nat.lt_trans hp (by decide)) count uncopied
  exact ⟨_, System.call_of_ok h.file hread⟩

theorem commands_eq (h : Reading f cmds p sys) : sys.kernel.commands = cmds := by
  obtain ⟨s, hs, rfl⟩ := h.represents
  exact hs.kernel.commands_eq

/-- A call that commits nothing moves the reader by what it delivers. -/
theorem of_step (h : Reading f cmds p sys) (hstep : step fixedSizeLlseek sys op = .ok (a, sys'))
    (hop : op.readsOnly f = true) (hstrands : op.strands sys = false)
    (hlog : ∀ s, (op.log sys s).committed = s.committed) :
    Reading f cmds (p + ((op.pieceOf f a).getD []).length) sys' := by
  obtain ⟨s, hs, hcmds⟩ := h.represents
  obtain ⟨b, sys₁, hstep₁, hrep, hmutex⟩ := hs.exists_step h.free fixedSizeLlseek op
  obtain ⟨rfl, rfl⟩ := Prod.mk.inj (Except.ok.inj (hstep.symm.trans hstep₁))
  refine ⟨⟨_, hrep, ?_⟩, (hmutex.1 hstrands).1, ?_⟩
  · rw [hlog, hcmds]
  · rw [System.fPos_of_step hs hstep hop h.file, Nat.cast_add]

/-- A quiet call returns, and moves the reader by the piece it delivers. -/
theorem exists_step (h : Reading f cmds p sys) (hsum : (cmds.map List.length).sum < 2 ^ 63)
    (hp : p < 2 ^ 63) (hquiet : op.Quiet f sys) (fixedSizeLlseek : ℤ → ℤ → ℤ → ℤ → ℤ × ℤ) :
    ∃ a sys', step fixedSizeLlseek sys op = .ok (a, sys') ∧
      Reading f cmds (p + ((op.pieceOf f a).getD []).length) sys' ∧
      ∀ piece, op.pieceOf f a = some piece →
        a.ret = piece.length ∧ ∃ count, 0 < count ∧ piece = readPiece cmds p count := by
  obtain ⟨s, hs, -⟩ := h.represents
  obtain ⟨a, sys', hstep, -⟩ := hs.exists_step h.free fixedSizeLlseek op
  refine ⟨a, sys', hstep, h.of_step hstep hquiet.1 hquiet.2.1 hquiet.log_committed,
    fun piece hpiece ↦ ?_⟩
  cases op with
  | read g count uncopied =>
    rcases eq_or_ne g f with rfl | hne
    · obtain ⟨hcount, rfl⟩ := hquiet.2.2 rfl
      obtain ⟨sys₁, hread⟩ := h.step_read hsum hp fixedSizeLlseek count 0
      obtain ⟨rfl, -⟩ := Prod.mk.inj (Except.ok.inj (hstep.symm.trans hread))
      rw [Op.pieceOf, if_pos rfl, readReply_zero] at hpiece
      obtain rfl := Option.some.inj hpiece
      exact ⟨by rw [readReply_zero], count, hcount, rfl⟩
    · rw [Op.pieceOf, if_neg hne] at hpiece
      exact absurd hpiece (by simp)
  | _ => exact absurd hpiece (by simp [Op.pieceOf])

/-- **A run of quiet calls delivers what is in the ring**, from the position of the reader on. -/
theorem exists_run (h : Reading f cmds p sys) (hsum : (cmds.map List.length).sum < 2 ^ 63)
    (hp : p < 2 ^ 63) (fixedSizeLlseek : ℤ → ℤ → ℤ → ℤ → ℤ × ℤ)
    (hquiet : Along (step fixedSizeLlseek) (fun sys op ↦ op.Quiet f sys) sys ops) :
    ∃ answers sys', run (step fixedSizeLlseek) sys ops = .ok (answers, sys') ∧
      Delivers cmds.flatten p (pieces f ops answers) ∧
      Reading f cmds (p + (pieces f ops answers).flatten.length) sys' ∧
      p + (pieces f ops answers).flatten.length < 2 ^ 63 ∧
      ∀ (n : ℕ) (a : Answer) (count uncopied : ℕ), ops[n]? = some (.read f count uncopied) →
        answers[n]? = some a → a.ret = a.data.length := by
  induction ops generalizing sys p with
  | nil => exact ⟨[], sys, rfl, Delivers.nil p, h, hp, fun n a _ _ hn ↦ absurd hn (by simp)⟩
  | cons op ops ih =>
    obtain ⟨a, sys₁, hstep, hreading, hpiece⟩ :=
      h.exists_step hsum hp hquiet.1 fixedSizeLlseek
    have hp' : p + ((op.pieceOf f a).getD []).length < 2 ^ 63 := by
      rcases hop : op.pieceOf f a with - | piece
      · exact hp
      · obtain ⟨-, count, -, rfl⟩ := hpiece piece hop
        rcases eq_or_ne (readPiece cmds p count) [] with hnil | hne
        · rw [hnil]
          exact hp
        · have hend := add_length_readPiece_le hne
          rw [List.length_flatten] at hend
          exact Nat.lt_of_le_of_lt hend hsum
    obtain ⟨answers, sys', hrun, hdelivers, hreading', hbound, hret⟩ :=
      ih hreading hp' (hquiet.2 a sys₁ hstep)
    refine ⟨a :: answers, sys', run_cons_of_ok hstep hrun, ?_, ?_, ?_, ?_⟩
    · rw [pieces_cons]
      rcases hop : op.pieceOf f a with - | piece
      · rw [hop] at hdelivers
        exact hdelivers
      · obtain ⟨-, count, hcount, rfl⟩ := hpiece piece hop
        rw [hop] at hdelivers
        refine Delivers.cons (readPiece_append cmds p count) ?_ hdelivers
        rw [readPiece_eq_nil_iff, or_iff_left (by omega)]
    · rw [pieces_cons]
      rcases hop : op.pieceOf f a with - | piece
      · rw [hop] at hreading'
        exact hreading'
      · rw [hop] at hreading'
        simpa [Nat.add_assoc] using hreading'
    · rw [pieces_cons]
      rcases hop : op.pieceOf f a with - | piece
      · rw [hop] at hbound
        exact hbound
      · rw [hop] at hbound
        simpa [Nat.add_assoc] using hbound
    · intro n a' count uncopied hop' ha'
      rcases n with - | n
      · obtain rfl := Option.some.inj hop'
        obtain rfl := Option.some.inj ha'
        exact (hpiece a.data (if_pos rfl)).1
      · exact hret n a' count uncopied hop' ha'

end Reading

/-- After a failed read the same bytes can be read again. -/
theorem Reading.read_again (h : Reading f cmds p sys) (hsum : (cmds.map List.length).sum < 2 ^ 63)
    (hp : p < 2 ^ 63) {count uncopied : ℕ}
    (hread : step fixedSizeLlseek sys (.read f count uncopied) = .ok (a, sys'))
    (hret : a.ret = -EFAULT) :
    sys'.files f = sys.files f ∧ sys'.kernel.commands = sys.kernel.commands ∧
      ∀ count', ∃ again t t', step fixedSizeLlseek sys (.read f count' 0) = .ok (again, t) ∧
        step fixedSizeLlseek sys' (.read f count' 0) = .ok (again, t') := by
  obtain ⟨sys₁, hstep⟩ := h.step_read hsum hp fixedSizeLlseek count uncopied
  obtain ⟨rfl, rfl⟩ := Prod.mk.inj (Except.ok.inj (hread.symm.trans hstep))
  have hagain := h.of_step hread rfl rfl fun _ ↦ rfl
  rw [Op.pieceOf, if_pos rfl, readReply_data_of_fault hret] at hagain
  refine ⟨hagain.file.trans h.file.symm, hagain.commands_eq.trans h.commands_eq.symm,
    fun count' ↦ ?_⟩
  obtain ⟨t, ht⟩ := h.step_read hsum hp fixedSizeLlseek count' 0
  obtain ⟨t', ht'⟩ := hagain.step_read hsum hp fixedSizeLlseek count' 0
  simp only [readReply_zero] at ht ht'
  exact ⟨_, t, t', ht, ht'⟩

/-- **Reading to the end returns exactly the contents.** On every device reached without control
calls whose retained commands are shorter than `2 ^ 63` bytes together, with a file open at any
position: any calls that leave the reader undisturbed return. The pieces that the reads of the file
return are the contents of the ring from that position on; a piece is empty exactly when all of it
was delivered before, so that at most as many are not empty as there are bytes; each read returns
the number of bytes of its piece and moves the position by it; and a read that fails moves nothing,
so that the same bytes can be read again. -/
theorem reads_deliver_commands {ops₀ : List Op} {answers₀ : List Answer}
    (hrun : run (step fixedSizeLlseek) .init ops₀ = .ok (answers₀, sys))
    (hops₀ : ∀ op ∈ ops₀, op.controls = false)
    (hsum : (sys.kernel.commands.map List.length).sum < 2 ^ 63) (hp : p < 2 ^ 63)
    (hquiet : Along (step fixedSizeLlseek) (fun sys op ↦ op.Quiet f sys)
      (sys.setFile f (some ⟨some .aesdDevice, p⟩)) ops) :
    let contents := sys.kernel.commands.flatten
    ∃ answers sys', run (step fixedSizeLlseek) (sys.setFile f (some ⟨some .aesdDevice, p⟩)) ops =
        .ok (answers, sys') ∧
      let delivered := pieces f ops answers
      delivered.flatten <+: contents.drop p ∧
      (∀ i piece, delivered[i]? = some piece →
        (piece = [] ↔ (delivered.take i).flatten = contents.drop p)) ∧
      delivered.countP (fun piece ↦ !piece.isEmpty) ≤ contents.length - p ∧
      (contents.length - p ≤ delivered.length → delivered.flatten = contents.drop p) ∧
      (∀ (n : ℕ) (a : Answer) (count uncopied : ℕ), ops[n]? = some (.read f count uncopied) →
        answers[n]? = some a → a.ret = a.data.length) ∧
      sys'.files f = some ⟨some .aesdDevice, (p + delivered.flatten.length : ℕ)⟩ ∧
      sys'.kernel.commands = sys.kernel.commands ∧
      ∀ count uncopied a sys'',
        step fixedSizeLlseek sys' (.read f count uncopied) = .ok (a, sys'') →
        a.ret = -EFAULT →
        sys''.files f = sys'.files f ∧ sys''.kernel.commands = sys'.kernel.commands ∧
        ∀ count', ∃ again t t', step fixedSizeLlseek sys' (.read f count' 0) = .ok (again, t) ∧
          step fixedSizeLlseek sys'' (.read f count' 0) = .ok (again, t') := by
  intro contents
  obtain ⟨s, hs, hfree⟩ := System.exists_represents_free hrun hops₀
  have hcommands := hs.kernel.commands_eq
  rw [hcommands] at hsum
  have hstart :
      Reading f (s.committed.rtake 10) p (sys.setFile f (some ⟨some .aesdDevice, p⟩)) := by
    refine ⟨⟨s, hs.setFile fun file hfile ↦ ?_, rfl⟩, hfree, ?_⟩
    · obtain rfl := Option.some.inj hfile
      rfl
    · rw [System.setFile_files, if_pos rfl]
  obtain ⟨answers, sys', hrun', hdelivers, hreading, hbound, hret⟩ :=
    hstart.exists_run hsum hp fixedSizeLlseek hquiet
  rw [← hcommands] at hdelivers
  refine ⟨answers, sys', hrun', hdelivers.flatten_prefix, fun i piece ↦ hdelivers.eq_nil_iff,
    hdelivers.countP_le, hdelivers.flatten_eq, hret, hreading.file,
    hreading.commands_eq.trans hcommands.symm,
    fun count uncopied a sys'' ↦ hreading.read_again hsum hbound⟩

/-- Two commands, read from position 1 on with counts of 2 until nothing comes. -/
theorem reads_deliver_commands_two_commands :
    let ops₀ : List Op := [.openFile 0, .write 0 ⟨[97, 98, newline], by decide⟩ .granting,
      .write 0 ⟨[99, newline], by decide⟩ .granting]
    let ops : List Op := [.read 1 2 0, .read 1 2 0, .read 1 2 0]
    ∃ answers sys, run (step stayPut) .init ops₀ = .ok (answers, sys) ∧
      ∃ answers' sys', run (step stayPut) (sys.setFile 1 (some ⟨some .aesdDevice, (1 : ℕ)⟩)) ops =
          .ok (answers', sys') ∧
        (pieces 1 ops answers').flatten <+: [98, newline, 99, newline] := by
  intro ops₀ ops
  have hquiet (sys : System) (count : ℕ) (h : 0 < count) : (Op.read 1 count 0).Quiet 1 sys :=
    ⟨rfl, rfl, fun _ ↦ ⟨h, rfl⟩⟩
  obtain ⟨answers', sys', hrun', hprefix, -⟩ := @reads_deliver_commands stayPut _ 1 1 ops ops₀ _ rfl
    (by decide) (by decide) (by decide)
    ⟨hquiet _ 2 (by decide), fun _ _ _ ↦ ⟨hquiet _ 2 (by decide), fun _ _ _ ↦
      ⟨hquiet _ 2 (by decide), fun _ _ _ ↦ trivial⟩⟩⟩
  exact ⟨_, _, rfl, answers', sys', hrun', hprefix⟩

end File

end Aesd
