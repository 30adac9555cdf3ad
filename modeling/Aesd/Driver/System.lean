import Mathlib.Logic.Function.Basic
import Aesd.Foundation.Execution
import Aesd.Driver.Read

/-!
# The driver in use

Any number of open files on the one device, and calls on them in any order. A call names its open
file by a number. On a number that names none, or on opening one that is taken, it never gets to
the driver: the answer is `-EBADF`.

Every reachable state represents a log (`exists_represents`). What a call does to the log is
`Op.log`: only a write changes it. `exists_step` is the step lemma: with the mutex free a call
returns, and it leaves the mutex free unless it seeks to a byte the ring does not have
(`Op.strands`). With the mutex held, a call that returns changes nothing in the kernel
(`Represents.step_of_held`).
-/

namespace Aesd

open Memory Framing BoundedFifo Execution

/-- The kernel and the open files of the device. -/
structure System where
  kernel : Kernel
  files : ℕ → Option File

namespace System

/-- After `aesd_init_module`. -/
def init : System :=
  ⟨aesdInitModule, fun _ ↦ none⟩

def setFile (sys : System) (f : ℕ) (filp : Option File) : System :=
  { sys with files := Function.update sys.files f filp }

end System

/-- A call on the device, with what the services inside it do. -/
inductive Op
  | openFile (f : ℕ)
  | release (f : ℕ)
  | read (f count uncopied : ℕ)
  | write (f : ℕ) (buf : UserBuf) (o : WriteOutcome)
  | llseek (f : ℕ) (offset whence : ℤ)
  | ioctl (f cmd : ℕ) (seekto : AesdSeekto) (uncopied : ℕ)

/-- What a call returns, and the bytes it puts into the caller's buffer. -/
structure Answer where
  ret : ℤ
  data : List Byte
deriving DecidableEq, Repr

/-- A call on an open file: the position it leaves goes back to the file. -/
def System.call (sys : System) (f : ℕ) (operation : File → Except Stop Reply) :
    Except Stop (Answer × System) :=
  match sys.files f with
  | none => .ok (⟨-EBADF, []⟩, sys)
  | some filp =>
    match operation filp with
    | .error stop => .error stop
    | .ok reply =>
      .ok (⟨reply.ret, reply.data⟩,
        { sys with kernel := reply.kernel }.setFile f (some { filp with fPos := reply.fPos }))

/-- One call. -/
def step (fixedSizeLlseek : ℤ → ℤ → ℤ → ℤ → ℤ × ℤ) (sys : System) :
    Op → Except Stop (Answer × System)
  | .openFile f =>
    match sys.files f with
    | none => .ok (⟨(aesdOpen ⟨none, 0⟩).1, []⟩, sys.setFile f (some (aesdOpen ⟨none, 0⟩).2))
    | some _ => .ok (⟨-EBADF, []⟩, sys)
  | .release f =>
    match sys.files f with
    | none => .ok (⟨-EBADF, []⟩, sys)
    | some filp => .ok (⟨(aesdRelease filp).1, []⟩, sys.setFile f none)
  | .read f count uncopied => sys.call f fun filp ↦
      aesdRead sys.kernel filp count uncopied filp.fPos
  | .write f buf o => sys.call f fun filp ↦ aesdWrite sys.kernel filp buf filp.fPos o
  | .llseek f offset whence => sys.call f fun filp ↦
      aesdLlseek fixedSizeLlseek sys.kernel filp offset whence
  | .ioctl f cmd seekto uncopied => sys.call f fun filp ↦
      aesdUnlockedIoctl sys.kernel filp cmd seekto uncopied

/-- A `fixed_size_llseek` that leaves the position alone. -/
def stayPut : ℤ → ℤ → ℤ → ℤ → ℤ × ℤ :=
  fun fPos _ _ _ ↦ (fPos, fPos)

/-- Services that grant and copy everything. -/
def WriteOutcome.granting : WriteOutcome :=
  ⟨some fun _ ↦ 0, some fun _ ↦ 0, 0, some fun _ ↦ 0⟩

/-- The system represents a log: its kernel does, and every open file points to the device. -/
structure System.Represents (sys : System) (s : Log Byte) : Prop where
  kernel : sys.kernel.Represents s
  opened : ∀ f filp, sys.files f = some filp → filp.privateData = some .aesdDevice

namespace Op

/-- What a call does to the log. -/
def log (sys : System) (s : Log Byte) : Op → Log Byte
  | .write f buf o =>
    match sys.files f with
    | none => s
    | some _ => (sys.kernel.writeFate buf o).log s buf.bytes
  | _ => s

/-- The call seeks to a byte the ring does not have, on an open file and with its argument copied
in. -/
def strands (sys : System) : Op → Bool
  | .ioctl f cmd seekto uncopied =>
    (sys.files f).isSome && decide (cmd = aesdcharIocseekto) && decide (min uncopied 8 = 0) &&
      (seekTarget sys.kernel.commands seekto).isNone
  | _ => false

end Op

/-- From `m` to `m'` the mutex was unlocked as often as it was locked, and it is free. -/
def Mutex.Balanced (m m' : Mutex) : Prop :=
  m'.held = false ∧ ∃ n, m'.locks = m.locks + n ∧ m'.unlocks = m.unlocks + n

theorem Mutex.Balanced.refl {m : Mutex} (hfree : m.held = false) : m.Balanced m :=
  ⟨hfree, 0, rfl, rfl⟩

theorem Mutex.Balanced.cycled (k : Kernel) : k.mutex.Balanced k.cycled.mutex :=
  ⟨rfl, 1, rfl, rfl⟩

theorem Mutex.Balanced.trans {m m' m'' : Mutex} (h : m.Balanced m') (h' : m'.Balanced m'') :
    m.Balanced m'' := by
  obtain ⟨-, n, hlocks, hunlocks⟩ := h
  obtain ⟨hfree, n', hlocks', hunlocks'⟩ := h'
  exact ⟨hfree, n + n', by rw [hlocks', hlocks, Nat.add_assoc],
    by rw [hunlocks', hunlocks, Nat.add_assoc]⟩

namespace System

theorem represents_init : init.Represents Log.empty :=
  ⟨Aesd.represents_init, fun f filp h ↦ absurd h (by simp [init])⟩

@[simp] theorem setFile_kernel (sys : System) (f : ℕ) (filp : Option File) :
    (sys.setFile f filp).kernel = sys.kernel := rfl

@[simp] theorem setFile_files (sys : System) (f : ℕ) (filp : Option File) (g : ℕ) :
    (sys.setFile f filp).files g = if g = f then filp else sys.files g :=
  Function.update_apply ..

theorem call_of_closed {sys : System} {f : ℕ} (h : sys.files f = none)
    (operation : File → Except Stop Reply) :
    sys.call f operation = .ok (⟨-EBADF, []⟩, sys) := by
  simp only [call, h]

theorem call_of_ok {sys : System} {f : ℕ} {filp : File} (h : sys.files f = some filp)
    {operation : File → Except Stop Reply} {reply : Reply} (hok : operation filp = .ok reply) :
    sys.call f operation = .ok (⟨reply.ret, reply.data⟩,
      { sys with kernel := reply.kernel }.setFile f (some { filp with fPos := reply.fPos })) := by
  simp only [call, h, hok]

/-- What a call that returned did. -/
theorem call_cases {sys sys' : System} {f : ℕ} {operation : File → Except Stop Reply}
    {a : Answer} (h : sys.call f operation = .ok (a, sys')) :
    (sys.files f = none ∧ a = ⟨-EBADF, []⟩ ∧ sys' = sys) ∨
    ∃ filp reply, sys.files f = some filp ∧ operation filp = .ok reply ∧
      a = ⟨reply.ret, reply.data⟩ ∧
      sys' = { sys with kernel := reply.kernel }.setFile f
        (some { filp with fPos := reply.fPos }) := by
  rcases hf : sys.files f with - | filp
  · rw [call_of_closed hf] at h
    obtain ⟨rfl, rfl⟩ := Prod.mk.inj (Except.ok.inj h)
    exact Or.inl ⟨rfl, rfl, rfl⟩
  · rcases hop : operation filp with stop | reply
    · simp [call, hf, hop] at h
    · rw [call_of_ok hf hop] at h
      obtain ⟨rfl, rfl⟩ := Prod.mk.inj (Except.ok.inj h)
      exact Or.inr ⟨filp, reply, rfl, hop, rfl, rfl⟩

namespace Represents

variable {sys sys' : System} {s : Log Byte} {f : ℕ}

/-- Opening, closing or moving a file. -/
theorem setFile (h : sys.Represents s) {filp : Option File}
    (hfilp : ∀ file, filp = some file → file.privateData = some .aesdDevice) :
    (sys.setFile f filp).Represents s := by
  refine ⟨h.kernel, fun g file hg ↦ ?_⟩
  rw [setFile_files] at hg
  split at hg
  · exact hfilp file hg
  · exact h.opened g file hg

/-- A call on an open file, after which the kernel represents the log `s'`. -/
theorem of_call (h : sys.Represents s) {filp : File} (hf : sys.files f = some filp)
    {kernel : Kernel} {s' : Log Byte} (hkernel : kernel.Represents s') (fPos : ℤ) :
    ({ sys with kernel }.setFile f (some { filp with fPos })).Represents s' := by
  have hsys : ({ sys with kernel } : System).Represents s' := ⟨hkernel, h.opened⟩
  refine hsys.setFile fun file hfile ↦ ?_
  obtain rfl := Option.some.inj hfile
  exact h.opened f filp hf

end Represents

/-! ### What one call does -/

section Step

variable {fixedSizeLlseek : ℤ → ℤ → ℤ → ℤ → ℤ × ℤ} {sys sys' : System} {s : Log Byte} {a : Answer}

theorem step_openFile_of_none {f : ℕ} (hf : sys.files f = none) :
    step fixedSizeLlseek sys (.openFile f) =
      .ok (⟨0, []⟩, sys.setFile f (some ⟨some .aesdDevice, 0⟩)) := by
  simp only [step, hf]
  rfl

theorem step_openFile_of_some {f : ℕ} {filp : File} (hf : sys.files f = some filp) :
    step fixedSizeLlseek sys (.openFile f) = .ok (⟨-EBADF, []⟩, sys) := by
  simp only [step, hf]

theorem step_release_of_none {f : ℕ} (hf : sys.files f = none) :
    step fixedSizeLlseek sys (.release f) = .ok (⟨-EBADF, []⟩, sys) := by
  simp only [step, hf]

theorem step_release_of_some {f : ℕ} {filp : File} (hf : sys.files f = some filp) :
    step fixedSizeLlseek sys (.release f) = .ok (⟨0, []⟩, sys.setFile f none) := by
  simp only [step, hf]
  rfl

/-- Opening a file sets up a file that was closed, or changes nothing. -/
theorem step_openFile_cases {f : ℕ}
    (hstep : step fixedSizeLlseek sys (.openFile f) = .ok (a, sys')) :
    sys' = sys ∨
      (sys.files f = none ∧ sys' = sys.setFile f (some ⟨some .aesdDevice, 0⟩)) := by
  rcases hf : sys.files f with - | filp
  · rw [step_openFile_of_none hf] at hstep
    exact Or.inr ⟨rfl, (Prod.mk.inj (Except.ok.inj hstep)).2.symm⟩
  · rw [step_openFile_of_some hf] at hstep
    exact Or.inl (Prod.mk.inj (Except.ok.inj hstep)).2.symm

/-- Closing a file leaves it closed, or changes nothing. -/
theorem step_release_cases {f : ℕ}
    (hstep : step fixedSizeLlseek sys (.release f) = .ok (a, sys')) :
    sys' = sys ∨ sys' = sys.setFile f none := by
  rcases hf : sys.files f with - | filp
  · rw [step_release_of_none hf] at hstep
    exact Or.inl (Prod.mk.inj (Except.ok.inj hstep)).2.symm
  · rw [step_release_of_some hf] at hstep
    exact Or.inr (Prod.mk.inj (Except.ok.inj hstep)).2.symm

/-- A call that neither opens nor closes leaves its file open, or not. -/
theorem isSome_files_of_step (h : step fixedSizeLlseek sys op = .ok (a, sys'))
    (hopen : ∀ f, op ≠ .openFile f) (hrelease : ∀ f, op ≠ .release f) (g : ℕ) :
    (sys'.files g).isSome = (sys.files g).isSome := by
  have hcall : ∀ {f operation}, sys.call f operation = .ok (a, sys') →
      (sys'.files g).isSome = (sys.files g).isSome := by
    intro f operation hcall
    obtain ⟨-, -, rfl⟩ | ⟨filp, reply, hf, -, -, rfl⟩ := call_cases hcall
    · rfl
    · rw [setFile_files]
      split
      · rename_i heq
        rw [heq, hf]
        rfl
      · rfl
  cases op with
  | openFile f => exact absurd rfl (hopen f)
  | release f => exact absurd rfl (hrelease f)
  | _ => exact hcall h

/-- How the mutex changes in a call that finds it free. -/
def MutexAfter (sys : System) (op : Op) (m : Mutex) : Prop :=
  (op.strands sys = false → sys.kernel.mutex.Balanced m) ∧
    (op.strands sys = true → m = ⟨true, sys.kernel.mutex.locks + 1, sys.kernel.mutex.unlocks⟩)

theorem MutexAfter.of_balanced {op : Op} {m : Mutex} (hstrands : op.strands sys = false)
    (hm : sys.kernel.mutex.Balanced m) : MutexAfter sys op m :=
  ⟨fun _ ↦ hm, fun h ↦ absurd (hstrands.symm.trans h) Bool.false_ne_true⟩

theorem aesdLlseek_eq {k : Kernel} (hfree : k.mutex.held = false) {filp : File}
    (hopen : filp.privateData = some .aesdDevice) (offset whence : ℤ) :
    aesdLlseek fixedSizeLlseek k filp offset whence =
      .ok ⟨(fixedSizeLlseek filp.fPos offset whence (loffT (aesdCircularBufferTotalSize k.ring))).1,
        (fixedSizeLlseek filp.fPos offset whence (loffT (aesdCircularBufferTotalSize k.ring))).2,
        [], k.cycled⟩ := by
  rw [aesdLlseek, File.dev_of_open hopen, ok_bind, Kernel.mutexLock_of_free hfree, ok_bind]
  rfl

/-- The control call, in each of its cases. -/
theorem exists_ioctl (h : sys.Represents s) (hfree : sys.kernel.mutex.held = false) {f : ℕ}
    {filp : File} (hf : sys.files f = some filp) (cmd : ℕ) (seekto : AesdSeekto)
    (uncopied : ℕ) :
    ∃ reply, aesdUnlockedIoctl sys.kernel filp cmd seekto uncopied = .ok reply ∧
      reply.kernel.Represents s ∧
      MutexAfter sys (.ioctl f cmd seekto uncopied) reply.kernel.mutex := by
  obtain ⟨reply, hioctl, hreply⟩ :=
    exists_ioctlReply h.kernel hfree (h.opened f filp hf) cmd seekto uncopied
  refine ⟨reply, hioctl, ?_⟩
  cases hreply with
  | unknown hcmd =>
    refine ⟨h.kernel, MutexAfter.of_balanced ?_ (Mutex.Balanced.refl hfree)⟩
    simp only [Op.strands, decide_eq_false hcmd, Bool.and_false, Bool.false_and]
  | uncopied hcmd hcopy =>
    refine ⟨h.kernel, MutexAfter.of_balanced ?_ (Mutex.Balanced.refl hfree)⟩
    simp only [Op.strands, decide_eq_false hcopy, Bool.and_false, Bool.false_and]
  | found hcmd hcopy htarget =>
    refine ⟨h.kernel.cycled, MutexAfter.of_balanced ?_ (Mutex.Balanced.cycled _)⟩
    simp [Op.strands, h.kernel.commands_eq, htarget]
  | notFound hcmd hcopy htarget =>
    refine ⟨h.kernel.setMutex _, fun hstrands ↦ ?_, fun _ ↦ rfl⟩
    simp [Op.strands, hf, hcmd, hcopy, h.kernel.commands_eq, htarget] at hstrands

/-- **One call.** With the mutex free it returns; the system then represents the log that the call
makes of `s`; and the mutex is balanced unless the call strands it. -/
theorem Represents.exists_step (h : sys.Represents s) (hfree : sys.kernel.mutex.held = false)
    (fixedSizeLlseek : ℤ → ℤ → ℤ → ℤ → ℤ × ℤ) (op : Op) :
    ∃ a sys', step fixedSizeLlseek sys op = .ok (a, sys') ∧ sys'.Represents (op.log sys s) ∧
      MutexAfter sys op sys'.kernel.mutex := by
  have hself : sys.kernel.mutex.Balanced sys.kernel.mutex := Mutex.Balanced.refl hfree
  cases op with
  | openFile f =>
    rcases hf : sys.files f with - | filp
    · refine ⟨_, _, step_openFile_of_none hf, h.setFile fun file hfile ↦ ?_,
        MutexAfter.of_balanced rfl hself⟩
      obtain rfl := Option.some.inj hfile
      rfl
    · exact ⟨_, _, step_openFile_of_some hf, h, MutexAfter.of_balanced rfl hself⟩
  | release f =>
    rcases hf : sys.files f with - | filp
    · exact ⟨_, _, step_release_of_none hf, h, MutexAfter.of_balanced rfl hself⟩
    · exact ⟨_, _, step_release_of_some hf, h.setFile fun file hfile ↦ absurd hfile (by simp),
        MutexAfter.of_balanced rfl hself⟩
  | read f count uncopied =>
    rcases hf : sys.files f with - | filp
    · exact ⟨_, _, call_of_closed hf _, h, MutexAfter.of_balanced rfl hself⟩
    · obtain ⟨piece, hread⟩ :=
        exists_aesdRead h.kernel hfree (h.opened f filp hf) count uncopied filp.fPos
      refine ⟨_, _, call_of_ok hf hread, h.of_call hf ?_ _, MutexAfter.of_balanced rfl ?_⟩
      · rw [readReply_kernel]
        exact h.kernel.cycled
      · rw [setFile_kernel, readReply_kernel]
        exact Mutex.Balanced.cycled _
  | write f buf o =>
    rcases hf : sys.files f with - | filp
    · refine ⟨_, _, call_of_closed hf _, ?_, MutexAfter.of_balanced rfl hself⟩
      rw [Op.log, hf]
      exact h
    · obtain ⟨k', hwrite, hrep, hmutex⟩ :=
        aesdWrite_spec h.kernel hfree (h.opened f filp hf) buf filp.fPos o
      refine ⟨_, _, call_of_ok hf hwrite, ?_, MutexAfter.of_balanced rfl ?_⟩
      · rw [Op.log, hf]
        exact h.of_call hf hrep _
      · rw [setFile_kernel, hmutex]
        exact Mutex.Balanced.cycled _
  | llseek f offset whence =>
    rcases hf : sys.files f with - | filp
    · exact ⟨_, _, call_of_closed hf _, h, MutexAfter.of_balanced rfl hself⟩
    · exact ⟨_, _, call_of_ok hf (aesdLlseek_eq hfree (h.opened f filp hf) offset whence),
        h.of_call hf h.kernel.cycled _, MutexAfter.of_balanced rfl (Mutex.Balanced.cycled _)⟩
  | ioctl f cmd seekto uncopied =>
    rcases hf : sys.files f with - | filp
    · refine ⟨_, _, call_of_closed hf _, h, MutexAfter.of_balanced ?_ hself⟩
      simp [Op.strands, hf]
    · obtain ⟨reply, hioctl, hrep, hmutex⟩ := exists_ioctl h hfree hf cmd seekto uncopied
      exact ⟨_, _, call_of_ok hf hioctl, h.of_call hf hrep _, hmutex⟩

/-! ### A held mutex -/

/-- A call that takes the mutex first does not return while it is held. -/
theorem call_of_blocked {f : ℕ} {operation : File → Except Stop Reply}
    (hblocked : ∀ filp, sys.files f = some filp → operation filp = .error .blocked)
    (hcall : sys.call f operation = .ok (a, sys')) : sys.files f = none ∧ sys' = sys := by
  obtain ⟨hf, -, hsys⟩ | ⟨filp, reply, hf, hop, -⟩ := call_cases hcall
  · exact ⟨hf, hsys⟩
  · exact absurd ((hblocked filp hf).symm.trans hop) (by simp)

/-- **A call that returns while the mutex is held** has not got to the data of the device. -/
theorem Represents.step_of_held (h : sys.Represents s) (hheld : sys.kernel.mutex.held = true)
    {op : Op} (hstep : step fixedSizeLlseek sys op = .ok (a, sys')) :
    sys'.Represents (op.log sys s) ∧ sys'.kernel = sys.kernel := by
  have hlock := Kernel.mutexLock_of_held hheld
  cases op with
  | openFile f =>
    rcases step_openFile_cases hstep with rfl | ⟨-, rfl⟩
    · exact ⟨h, rfl⟩
    · refine ⟨h.setFile fun file hfile ↦ ?_, rfl⟩
      obtain rfl := Option.some.inj hfile
      rfl
  | release f =>
    rcases step_release_cases hstep with rfl | rfl
    · exact ⟨h, rfl⟩
    · exact ⟨h.setFile fun file hfile ↦ absurd hfile (by simp), rfl⟩
  | read f count uncopied =>
    obtain ⟨-, rfl⟩ := call_of_blocked (fun filp hf ↦ by
      rw [aesdRead, File.dev_of_open (h.opened f filp hf), ok_bind, hlock]
      rfl) hstep
    exact ⟨h, rfl⟩
  | write f buf o =>
    obtain ⟨hf, rfl⟩ := call_of_blocked (fun filp hf ↦ by
      rw [aesdWrite, File.dev_of_open (h.opened f filp hf), ok_bind, hlock]
      rfl) hstep
    rw [Op.log, hf]
    exact ⟨h, rfl⟩
  | llseek f offset whence =>
    obtain ⟨-, rfl⟩ := call_of_blocked (fun filp hf ↦ by
      rw [aesdLlseek, File.dev_of_open (h.opened f filp hf), ok_bind, hlock]
      rfl) hstep
    exact ⟨h, rfl⟩
  | ioctl f cmd seekto uncopied =>
    obtain ⟨-, -, rfl⟩ | ⟨filp, reply, hf, hioctl, -, rfl⟩ := call_cases hstep
    · exact ⟨h, rfl⟩
    · have hkernel : reply.kernel = sys.kernel := by
        rcases aesdUnlockedIoctl_of_held hheld (h.opened f filp hf) cmd seekto uncopied with
          hblocked | ⟨ret, hret⟩
        · exact absurd (hioctl.symm.trans hblocked) (by simp)
        · exact congrArg Reply.kernel (Except.ok.inj (hioctl.symm.trans hret))
      exact ⟨h.of_call hf (hkernel ▸ h.kernel) _, hkernel⟩

/-- **The log is followed by every call.** -/
theorem Represents.step (h : sys.Represents s) {op : Op}
    (hstep : step fixedSizeLlseek sys op = .ok (a, sys')) : sys'.Represents (op.log sys s) := by
  rcases hmutex : sys.kernel.mutex.held with - | -
  · obtain ⟨b, sys₁, hstep₁, hrep, -⟩ := h.exists_step hmutex fixedSizeLlseek op
    obtain ⟨rfl, rfl⟩ := Prod.mk.inj (Except.ok.inj (hstep.symm.trans hstep₁))
    exact hrep
  · exact (h.step_of_held hmutex hstep).1

/-- **Every reachable system represents a log.** -/
theorem exists_represents (h : Reachable (Aesd.step fixedSizeLlseek) init sys) :
    ∃ s, sys.Represents s := by
  refine h.invariant (I := fun sys : System ↦ ∃ s, sys.Represents s) ?_ ⟨Log.empty, represents_init⟩
  rintro sys op a sys' ⟨s, hs⟩ hstep
  exact ⟨_, hs.step hstep⟩

end Step

end System

end Aesd
