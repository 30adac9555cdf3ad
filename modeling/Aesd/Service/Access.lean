import Aesd.Driver.ReadRuns
import Aesd.Driver.WriteRuns

/-!
# One open file at a time

What the server does to the device when nobody else uses it and every service grants what it is
asked for. Between two critical sections the device is `Idle`: it has committed some commands,
nothing is pending, no file is open. Within one it is in use through one open file at a known
position (`Using`). Each operation leads from the one to the other, or changes the position, or
adds a command; each has one lemma that says so and what is answered.
-/

namespace Aesd

open Framing Execution

/-- Nothing is refused and everything is copied. -/
structure WriteOutcome.Grants (o : WriteOutcome) : Prop where
  kmallocTemp : o.kmallocTemp.isSome
  krealloc : o.krealloc.isSome
  uncopied : o.uncopied = 0
  kmallocCommand : o.kmallocCommand.isSome

instance (o : WriteOutcome) : Decidable o.Grants :=
  decidable_of_iff
    (o.kmallocTemp.isSome ∧ o.krealloc.isSome ∧ o.uncopied = 0 ∧ o.kmallocCommand.isSome)
    ⟨fun ⟨htemp, hgrow, hcopied, hcommand⟩ ↦ ⟨htemp, hgrow, hcopied, hcommand⟩,
      fun h ↦ ⟨h.kmallocTemp, h.krealloc, h.uncopied, h.kmallocCommand⟩⟩

/-- Nobody uses the device; the commands `cmds` were committed, each by one write. -/
structure Idle (sys : System) (cmds : List (List Byte)) : Prop where
  represents : sys.Represents ⟨cmds, []⟩
  free : sys.kernel.mutex.held = false
  closed : ∀ f, sys.files f = none
  short : ∀ cmd ∈ cmds, cmd.length ≤ maxRwCount

/-- Only `fd` is open, at the position `p`. -/
structure Using (sys : System) (cmds : List (List Byte)) (fd p : ℕ) : Prop where
  represents : sys.Represents ⟨cmds, []⟩
  free : sys.kernel.mutex.held = false
  files : ∀ f, sys.files f = if f = fd then some ⟨some .aesdDevice, p⟩ else none
  short : ∀ cmd ∈ cmds, cmd.length ≤ maxRwCount

/-- The most bytes the ring can hold then. -/
def ringLimit : ℕ :=
  10 * maxRwCount

section Ring

variable {cmds : List (List Byte)}

theorem length_flatten_rtake_le (hshort : ∀ cmd ∈ cmds, cmd.length ≤ maxRwCount) :
    (cmds.rtake 10).flatten.length ≤ ringLimit := by
  rw [List.length_flatten]
  have hsum : ((cmds.rtake 10).map List.length).sum ≤
      ((cmds.rtake 10).map List.length).length * maxRwCount := by
    refine List.sum_le_card_nsmul _ _ fun n hn ↦ ?_
    obtain ⟨cmd, hcmd, rfl⟩ := List.mem_map.1 hn
    exact hshort cmd ((List.drop_suffix _ _).subset hcmd)
  have hlen : ((cmds.rtake 10).map List.length).length ≤ 10 := by
    rw [List.length_map, BoundedFifo.length_rtake]
    exact Nat.min_le_left _ _
  exact hsum.trans (Nat.mul_le_mul_right _ hlen)

theorem ringLimit_lt : ringLimit < 2 ^ 63 := by
  decide

theorem length_readPiece_le (cmds : List (List Byte)) (p count : ℕ) :
    (readPiece cmds p count).length ≤ count := by
  rw [readPiece]
  split
  · exact Nat.zero_le _
  · exact List.length_take_le ..

end Ring

variable {sys : System} {cmds : List (List Byte)} {fd p : ℕ}

theorem Idle.init : Idle .init [] where
  represents := System.represents_init
  free := rfl
  closed _ := rfl
  short _ hcmd := absurd hcmd List.not_mem_nil

/-- `open`. -/
theorem Idle.openFile (h : Idle sys cmds) (fd : ℕ) :
    ∃ sys', step stayPut sys (.openFile fd) = .ok (⟨0, []⟩, sys') ∧ Using sys' cmds fd 0 := by
  refine ⟨_, System.step_openFile_of_none (h.closed fd), ?_, h.free, fun f ↦ ?_, h.short⟩
  · refine h.represents.setFile fun file hfile ↦ ?_
    rw [← Option.some.inj hfile]
  · rw [System.setFile_files, h.closed f]
    rfl

namespace Using

theorem exists_file (h : Using sys cmds fd p) :
    ∃ filp, sys.files fd = some filp ∧ filp.privateData = some .aesdDevice ∧ filp.fPos = p :=
  ⟨_, (h.files fd).trans (if_pos rfl), rfl, rfl⟩

/-- `close`. -/
theorem release (h : Using sys cmds fd p) :
    ∃ sys', step stayPut sys (.release fd) = .ok (⟨0, []⟩, sys') ∧ Idle sys' cmds := by
  obtain ⟨filp, hfile, -, -⟩ := h.exists_file
  refine ⟨_, System.step_release_of_some hfile, ?_, h.free, fun f ↦ ?_, h.short⟩
  · exact h.represents.setFile fun file hfile ↦ absurd hfile (by simp)
  · rw [System.setFile_files, h.files f]
    split <;> rfl

/-- A call after which the kernel represents a log and the position is known. -/
theorem of_call (h : Using sys cmds fd p) {filp : File} (hfile : sys.files fd = some filp)
    {kernel : Kernel} {cmds' : List (List Byte)} (hkernel : kernel.Represents ⟨cmds', []⟩)
    (hfree : kernel.mutex.held = false) (hshort : ∀ cmd ∈ cmds', cmd.length ≤ maxRwCount) {q : ℕ}
    {fPos : ℤ} (hfPos : fPos = q) :
    Using ({ sys with kernel }.setFile fd (some { filp with fPos })) cmds' fd q where
  represents := h.represents.of_call hfile hkernel fPos
  free := hfree
  files f := by
    rw [System.setFile_files]
    split
    · rw [hfPos, h.represents.opened fd filp hfile]
    · rename_i hne
      exact (h.files f).trans (if_neg hne)
  short := hshort

/-- Nothing is pending, and nothing is refused: the write of a line commits it. -/
theorem writeFate_eq (h : Using sys cmds fd p) {buf : UserBuf} (hmem : newline ∈ buf.bytes)
    {o : WriteOutcome} (ho : o.Grants) : sys.kernel.writeFate buf o = .committed := by
  have hsize : sys.kernel.tempBuf.size = 0 := h.represents.kernel.length_pending.symm
  have hle := buf.le
  have hlimit : maxRwCount + 50 ≤ kmallocMaxSize := by decide
  have hcount : buf.count ≤ maxRwCount := hle
  have hgranted : ∀ {size : ℕ} {o : Option Junk}, o.isSome → size ≤ maxRwCount + 50 →
      granted size o = true := by
    intro size o hsome hsize
    rw [granted, hsome, Bool.true_and, decide_eq_true_iff]
    exact hsize.trans hlimit
  have hroom : sys.kernel.roomFor buf.count o = true := by
    rw [Kernel.roomFor]
    split
    · exact hgranted ho.kmallocTemp (by omega)
    · rw [hsize, hgranted ho.krealloc (by omega), Bool.or_true]
  rw [Kernel.writeFate, if_pos hroom, ho.uncopied, Nat.zero_min, if_pos rfl,
    if_pos (List.mem_append_right _ hmem), hsize,
    if_pos (hgranted ho.kmallocCommand (by omega))]

/-- `write`. -/
theorem write (h : Using sys cmds fd p) {buf : UserBuf} (hmem : newline ∈ buf.bytes)
    {o : WriteOutcome} (ho : o.Grants) :
    ∃ sys', step stayPut sys (.write fd buf o) = .ok (⟨buf.count, []⟩, sys') ∧
      Using sys' (cmds ++ [buf.bytes]) fd (p + buf.count) := by
  obtain ⟨filp, hfile, hopen, hfPos⟩ := h.exists_file
  obtain ⟨k', hwrite, hrep, hmutex⟩ :=
    aesdWrite_spec h.represents.kernel h.free hopen buf filp.fPos o
  rw [h.writeFate_eq hmem ho] at hwrite hrep
  have hstep : step stayPut sys (.write fd buf o) = .ok (_, _) := System.call_of_ok hfile hwrite
  refine ⟨_, hstep, ?_⟩
  have hfree : k'.mutex.held = false := by rw [hmutex]
  refine h.of_call hfile hrep hfree (fun cmd hcmd ↦ ?_) ?_
  rcases List.mem_append.1 hcmd with hold | hnew
  · exact h.short cmd hold
  · rw [List.mem_singleton.1 hnew]
    exact buf.le
  · rw [hfPos, WriteFate.fPos, Nat.cast_add]

/-- `read`. -/
theorem read (h : Using sys cmds fd p) (hp : p < 2 ^ 63) (count : ℕ) :
    ∃ sys', step stayPut sys (.read fd count 0) =
        .ok (⟨(readPiece (cmds.rtake 10) p count).length, readPiece (cmds.rtake 10) p count⟩,
          sys') ∧
      Using sys' cmds fd (p + (readPiece (cmds.rtake 10) p count).length) := by
  have hsum : ((cmds.rtake 10).map List.length).sum < 2 ^ 63 := by
    rw [← List.length_flatten]
    exact Nat.lt_of_le_of_lt (length_flatten_rtake_le h.short) ringLimit_lt
  obtain ⟨filp, hfile, hopen, hfPos⟩ := h.exists_file
  have hread := aesdRead_eq h.represents.kernel h.free hopen
    (Nat.lt_trans hsum (by decide)) (Nat.lt_trans hp (by decide)) count 0
  rw [readReply_zero, ← hfPos] at hread
  have hstep : step stayPut sys (.read fd count 0) = .ok (_, _) := System.call_of_ok hfile hread
  refine ⟨_, hstep, ?_⟩
  exact h.of_call hfile h.represents.kernel.cycled rfl h.short (by rw [hfPos, Nat.cast_add])

/-- `ioctl(AESDCHAR_IOCSEEKTO)` to a byte of the ring. -/
theorem ioctl (h : Using sys cmds fd p) {seekto : AesdSeekto} {q : ℕ}
    (htarget : seekTarget (cmds.rtake 10) seekto = some q) :
    ∃ sys', step stayPut sys (.ioctl fd aesdcharIocseekto seekto 0) = .ok (⟨0, []⟩, sys') ∧
      Using sys' cmds fd q ∧ q < (cmds.rtake 10).flatten.length := by
  have hq : q < (cmds.rtake 10).flatten.length := by
    rw [List.length_flatten]
    exact seekTarget_lt htarget
  have hbound : q < 2 ^ 63 :=
    Nat.lt_trans (Nat.lt_of_lt_of_le hq (length_flatten_rtake_le h.short)) ringLimit_lt
  obtain ⟨filp, hfile, hopen, -⟩ := h.exists_file
  have hioctl := aesdUnlockedIoctl_of_target h.represents.kernel h.free hopen (Nat.zero_min 8)
    htarget
  rw [loffT_natCast hbound] at hioctl
  have hstep : step stayPut sys (.ioctl fd aesdcharIocseekto seekto 0) = .ok (_, _) :=
    System.call_of_ok hfile hioctl
  refine ⟨_, hstep, ?_, hq⟩
  exact h.of_call hfile h.represents.kernel.cycled rfl h.short rfl

end Using

end Aesd
