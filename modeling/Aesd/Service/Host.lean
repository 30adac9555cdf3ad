import Aesd.Service.Descriptors

/-!
# The name of the device

The server opens the device by a name, `FILE_PATH`. A name can be removed, and `open` with
`O_CREAT` makes a regular file for a name that is not there. `Host` is the device, the regular
files, and what the name stands for at the time; `Code.onHost` is the next call of a thread on it,
and `actAt` the call of the thread. As long as the name is that of the device, and no regular file
is open, these are the calls of `act` (`actAt_of_named`).

Once the name is not that of the device, and no descriptor is one of the device, no call changes
the device, and what a call does is `Host.Call` (`Host.Cut.call`).

The file of an inode stays when its name is removed, as long as it is open; here it stays anyway. A
read may be short, and so may a write, on a file system that is full (`WriteOutcome.taken`).
-/

namespace Aesd

open Execution MutualExclusion

/-- What `FILE_PATH` stands for. -/
inductive Node
  /-- The special file of the device. -/
  | device
  | regular (inode : ℕ)
deriving DecidableEq

/-- An open regular file. -/
structure RegularFile where
  inode : ℕ
  pos : ℕ

/-- The device, the regular files, and the name. -/
structure Host where
  device : System
  filePath : Option Node
  /-- How many regular files were made. -/
  inodes : ℕ
  /-- What is in the regular files; one that was not made has nothing. -/
  contents : ℕ → List Byte
  /-- The descriptors of regular files; those of the device are the device's. -/
  opened : ℕ → Option RegularFile

def ENOENT : ℤ := 2

/-- What a regular file takes of a write: all but what there is no room for. -/
def WriteOutcome.taken (o : WriteOutcome) (buf : UserBuf) : List Byte :=
  buf.bytes.take (buf.count - o.uncopied)

namespace Host

/-- The name is that of the fresh device. -/
def init : Host :=
  ⟨.init, some .device, 0, fun _ ↦ [], fun _ ↦ none⟩

/-- A call on the device. -/
def onDevice : Host → Op → Except Stop (Answer × Host) :=
  onDeviceOf Host.device fun h device ↦ { h with device }

def setOpened (h : Host) (fd : ℕ) (f : Option RegularFile) : Host :=
  { h with opened := Function.update h.opened fd f }

@[simp] theorem setOpened_opened (h : Host) (fd : ℕ) (f : Option RegularFile) (g : ℕ) :
    (h.setOpened fd f).opened g = if g = fd then f else h.opened g :=
  Function.update_apply ..

/-- Write at the end of a regular file. -/
def append (h : Host) (inode : ℕ) (bytes : List Byte) : Host :=
  { h with contents := Function.update h.contents inode (h.contents inode ++ bytes) }

@[simp] theorem append_contents (h : Host) (inode : ℕ) (bytes : List Byte) (n : ℕ) :
    (h.append inode bytes).contents n =
      if n = inode then h.contents inode ++ bytes else h.contents n :=
  Function.update_apply ..

/-- The name is that of a regular file, which is opened. -/
def openRegular (h : Host) (fd inode inodes : ℕ) : Host :=
  { h with filePath := some (.regular inode), inodes := inodes }.setOpened fd (some ⟨inode, 0⟩)

/-- `open(FILE_PATH)`, with `O_CREAT` or without; on a descriptor that is in use it fails. -/
def openPath (h : Host) (create : Bool) (fd : ℕ) : Except Stop (Answer × Host) :=
  if (h.opened fd).isSome || (h.device.files fd).isSome then .ok (⟨-EBADF, []⟩, h)
  else
    match h.filePath with
    | some .device => h.onDevice (.openFile fd)
    | some (.regular inode) => .ok (⟨0, []⟩, h.openRegular fd inode h.inodes)
    | none =>
      -- the file that is made is empty
      if create then .ok (⟨0, []⟩, h.openRegular fd h.inodes (h.inodes + 1))
      else .ok (⟨-ENOENT, []⟩, h)

/-- A call on the descriptor of a regular file; every write is at the end, with `O_APPEND`. -/
def onRegular (h : Host) (f : RegularFile) : Op → Answer × Host
  | .read fd count uncopied =>
    let data := ((h.contents f.inode).drop f.pos).take (count - uncopied)
    (⟨data.length, data⟩, h.setOpened fd (some { f with pos := f.pos + data.length }))
  | .write _ buf o => (⟨(o.taken buf).length, []⟩, h.append f.inode (o.taken buf))
  | .release fd => (⟨0, []⟩, h.setOpened fd none)
  | .ioctl .. => (⟨-ENOTTY, []⟩, h)
  -- no thread makes these calls on a descriptor
  | .openFile _ | .llseek .. => (⟨-EBADF, []⟩, h)

/-- A call on a descriptor. -/
def onDescriptor (h : Host) (op : Op) : Except Stop (Answer × Host) :=
  match h.opened op.file with
  | some f => .ok (h.onRegular f op)
  | none => h.onDevice op

/-- The process has exited: its descriptors are closed, and `aesd_release` does nothing. -/
def closeAll (h : Host) : Host :=
  { h with device := ⟨h.device.kernel, fun _ ↦ none⟩, opened := fun _ ↦ none }

end Host

/-- If the next call is an `open`: whether it is one with `O_CREAT`. -/
def Code.creates : Code → Option Bool
  | .openWrite _ => some true
  | .openIoctl _ _ | .openRead _ => some false
  | _ => none

/-- What the host does in the next call of a thread. -/
def Code.onHost (code : Code) (h : Host) (c : Choice) : Except Stop (Answer × Host) :=
  match code.creates with
  | some create =>
    match c.fd with
    -- the `open` is refused
    | none => .ok (⟨0, []⟩, h)
    | some fd => h.openPath create fd
  | none =>
    match code.op c with
    | none => .ok (⟨0, []⟩, h)
    | some op => h.onDescriptor op

/-- One call of a thread. -/
def actAt : Host → Conn → Choice → Except Stop (Event × Host × Conn) :=
  actIn Code.onHost

/-- What a call reads. -/
def Event.readData : Event → Option (List Byte)
  | .read _ _ data => some data
  | _ => none

section Calls

variable {h h' : Host} {conn conn' : Conn} {code code' : Code} {c : Choice} {a : Answer} {e : Event}
  {k : Kernel} {create : Bool} {fd : ℕ} {op : Op}

theorem Code.opens_eq (code : Code) : code.opens = code.creates.isSome := by
  cases code <;> rfl

/-- A `read` takes what there is for it. -/
theorem Code.event_of_read {o : Outcome} {count uncopied : ℕ}
    (hop : code.op c = some (.read fd count uncopied)) (hstep : code.step o = .ok (e, code')) :
    ∃ asked, count ≤ asked ∧ e = .read fd asked (o.read.take asked) := by
  cases code with
  | readIoctl l fd' | readBack l fd' =>
    obtain ⟨rfl, rfl, -⟩ := Op.read.inj (Option.some.inj hop)
    refine ⟨l.bufferSize, Nat.min_le_left .., ?_⟩
    simp only [Code.step] at hstep
    split at hstep
    · rename_i hnil
      obtain ⟨rfl, -⟩ := Prod.mk.inj (Except.ok.inj hstep)
      rw [hnil]
    · obtain ⟨rfl, -⟩ := Prod.mk.inj (Except.ok.inj hstep)
      rfl
  | call act next => cases act <;> exact absurd hop (by simp [Code.op])
  | _ => exact absurd hop (by simp [Code.op])

theorem Code.event_of_creates {o : Outcome} (hcreates : code.creates = some create)
    (hstep : code.step o = .ok (e, code')) : e = .openDevice o.fd ∨ e = .openFilePath o.fd := by
  cases code with
  | openIoctl | openWrite | openRead =>
    rw [Code.step] at hstep
    rcases ho : o.fd with - | fd <;> simp only [ho] at hstep <;>
      obtain ⟨rfl, -⟩ := Prod.mk.inj (Except.ok.inj hstep) <;> simp
  | _ => exact absurd hcreates (by simp [creates])

/-! ### The name is that of the device -/

/-- A call on the device leaves the rest alone. -/
theorem Code.onHost_of_named (hname : h.filePath = some .device) (hnone : ∀ fd, h.opened fd = none)
    (hcall : code.onHost h c = .ok (a, h')) :
    code.device h.device c = .ok (a, h'.device) ∧ h' = { h with device := h'.device } := by
  have hdevice : ∀ {op}, h.onDevice op = .ok (a, h') →
      Aesd.step stayPut h.device op = .ok (a, h'.device) ∧ h' = { h with device := h'.device } := by
    intro op hop
    obtain ⟨device, hstep, rfl⟩ := onDeviceOf_cases hop
    exact ⟨hstep, rfl⟩
  have hopen : ∀ {create fd}, h.openPath create fd = .ok (a, h') →
      Aesd.step stayPut h.device (.openFile fd) = .ok (a, h'.device) ∧
        h' = { h with device := h'.device } := by
    intro create fd hop
    rw [Host.openPath, hnone, Option.isSome_none, Bool.false_or, hname] at hop
    split at hop
    · rename_i htaken
      obtain ⟨filp, hfilp⟩ := Option.isSome_iff_exists.1 htaken
      obtain ⟨rfl, rfl⟩ := Prod.mk.inj (Except.ok.inj hop)
      exact ⟨System.step_openFile_of_some hfilp, rfl⟩
    · exact hdevice hop
  rw [Code.device]
  rw [Code.onHost] at hcall
  rcases hcreates : code.creates with - | create
  · simp only [hcreates] at hcall
    rcases hop : code.op c with - | op
    · simp only [hop] at hcall
      obtain ⟨rfl, rfl⟩ := Prod.mk.inj (Except.ok.inj hcall)
      exact ⟨rfl, rfl⟩
    · simp only [hop, Host.onDescriptor, hnone] at hcall
      exact hdevice hcall
  · simp only [hcreates] at hcall
    rw [Code.op_of_opens (by rw [Code.opens_eq, hcreates]; rfl)]
    rcases hfd : c.fd with - | fd
    · simp only [hfd] at hcall
      obtain ⟨rfl, rfl⟩ := Prod.mk.inj (Except.ok.inj hcall)
      exact ⟨rfl, rfl⟩
    · simp only [hfd] at hcall
      exact hopen hcall

theorem actAt_of_named (hname : h.filePath = some .device) (hnone : ∀ fd, h.opened fd = none)
    (hact : actAt h conn c = .ok (e, h', conn')) :
    act h.device conn c = .ok (e, h'.device, conn') ∧ h' = { h with device := h'.device } := by
  obtain ⟨a, code, hhost, hstep, rfl⟩ := actIn_cases hact
  obtain ⟨hdevice, heq⟩ := Code.onHost_of_named hname hnone hhost
  exact ⟨actIn_of_ok conn hdevice hstep, heq⟩

/-! ### The name is not that of the device -/

/-- No call takes the device its name or gives it back. -/
theorem Code.filePath_eq_iff_of_onHost (hcall : code.onHost h c = .ok (a, h')) :
    h'.filePath = some .device ↔ h.filePath = some .device := by
  have hdevice : ∀ {op}, h.onDevice op = .ok (a, h') →
      (h'.filePath = some .device ↔ h.filePath = some .device) := by
    intro op hop
    obtain ⟨device, -, rfl⟩ := onDeviceOf_cases hop
    exact Iff.rfl
  have hopen : ∀ {create fd}, h.openPath create fd = .ok (a, h') →
      (h'.filePath = some .device ↔ h.filePath = some .device) := by
    intro create fd hop
    rw [Host.openPath] at hop
    split at hop
    · obtain ⟨-, rfl⟩ := Prod.mk.inj (Except.ok.inj hop)
      exact Iff.rfl
    · split at hop
      · exact hdevice hop
      · obtain ⟨-, rfl⟩ := Prod.mk.inj (Except.ok.inj hop)
        simp [Host.openRegular, Host.setOpened, *]
      · split at hop <;> obtain ⟨-, rfl⟩ := Prod.mk.inj (Except.ok.inj hop)
        · simp [Host.openRegular, Host.setOpened, *]
        · exact Iff.rfl
  rw [Code.onHost] at hcall
  split at hcall
  · split at hcall
    · obtain ⟨-, rfl⟩ := Prod.mk.inj (Except.ok.inj hcall)
      exact Iff.rfl
    · exact hopen hcall
  · split at hcall
    · obtain ⟨-, rfl⟩ := Prod.mk.inj (Except.ok.inj hcall)
      exact Iff.rfl
    · rename_i op hop
      rw [Host.onDescriptor] at hcall
      split at hcall
      · rename_i f hf
        have hregular : (h.onRegular f op).2.filePath = h.filePath := by cases op <;> rfl
        rw [Except.ok.inj hcall] at hregular
        rw [hregular]
      · exact hdevice hcall

/-- The device cannot be reached: it has no open file, and the name is not its name. -/
structure Host.Cut (h : Host) (k : Kernel) : Prop where
  device_eq : h.device = ⟨k, fun _ ↦ none⟩
  filePath_ne : h.filePath ≠ some .device

/-- What a call can be, and what it does to the files, when the device cannot be reached. Of what is
written a file takes what `o` says. -/
inductive Host.Call (h : Host) (o : WriteOutcome) : Event → Host → Prop
  | stays {e : Event} (hopened : e.opened = none) (hclosed : e.closed = none)
      (hread : ∀ data, e.readData = some data → data = [])
      (hwrite : ∀ fd bytes, e = .write fd bytes → h.opened fd = none)
      (hioctl : ∀ fd seekto, e ≠ .ioctl fd seekto true) : Call h o e h
  | opens {e : Event} {fd inode inodes : ℕ} (hfree : h.opened fd = none)
      (hopened : e.opened = some fd) (hclosed : e.closed = none) :
      Call h o e (h.openRegular fd inode inodes)
  | reads {fd asked : ℕ} {f : RegularFile} {data : List Byte} (hf : h.opened fd = some f)
      (hdata : data <+: (h.contents f.inode).drop f.pos) :
      Call h o (.read fd asked data) (h.setOpened fd (some { f with pos := f.pos + data.length }))
  | writes {fd : ℕ} {f : RegularFile} {bytes : List Byte} (hf : h.opened fd = some f) :
      Call h o (.write fd bytes) (h.append f.inode (o.taken (userBuf bytes)))
  | closes {fd : ℕ} : Call h o (.call (.closeFile fd)) (h.setOpened fd none)

namespace Host.Call

/-- A call that is none on the host. -/
theorem of_op_eq_none (hcreates : code.creates = none) (hop : code.op c = none)
    (hstep : Code.Step code e code') (o : WriteOutcome) : h.Call o e h := by
  cases hstep with
  | call act next =>
    cases act with
    | closeFile fd => exact absurd hop (by simp [Code.op])
    | _ => exact .stays rfl rfl (by simp [Event.readData]) (by simp) (by simp)
  | malloc | mallocFails | recv | recvNothing | realloc | reallocFails =>
    exact .stays rfl rfl (by simp [Event.readData]) (by simp) (by simp)
  | openIoctl | openIoctlFails | openWrite | openWriteFails | openRead | openReadFails =>
    exact absurd hcreates (by simp [Code.creates])
  | _ => exact absurd hop (by simp [Code.op])

/-- A call on a descriptor that is not open. -/
theorem of_closed (hop : code.op c = some op) (hopen : ∀ fd, op ≠ .openFile fd)
    (hnone : h.opened op.file = none)
    (hstep : code.step (conn.outcome c ⟨-EBADF, []⟩) = .ok (e, code')) : h.Call c.outcome e h := by
  cases code with
  | call act next =>
    cases act with
    | closeFile fd =>
      obtain rfl := Option.some.inj hop
      obtain ⟨rfl, -⟩ := Prod.mk.inj (Except.ok.inj hstep)
      have hself : h.setOpened fd none = h := by
        rw [Host.setOpened, ← show h.opened fd = none from hnone, Function.update_eq_self]
      have hcloses := @Call.closes h c.outcome fd
      rwa [hself] at hcloses
    | _ => exact absurd hop (by simp [Code.op])
  | ioctl l fd seekto =>
    obtain ⟨rfl, -⟩ := Prod.mk.inj (Except.ok.inj hstep)
    exact .stays rfl rfl (by simp [Event.readData]) (by simp) (by simp)
  | readIoctl l fd | readBack l fd =>
    obtain ⟨asked, -, rfl⟩ := Code.event_of_read (c := c) rfl hstep
    exact .stays rfl rfl (by simp [Event.readData, Conn.outcome]) (by simp) (by simp)
  | write l fd =>
    obtain rfl := Option.some.inj hop
    obtain ⟨rfl, -⟩ := Prod.mk.inj (Except.ok.inj hstep)
    refine .stays rfl rfl (by simp [Event.readData]) ?_ (by simp)
    rintro fd' bytes hwrite
    rw [← (Event.write.inj hwrite).1]
    exact hnone
  | openIoctl | openWrite | openRead =>
    obtain ⟨fd, -, rfl⟩ := Option.map_eq_some_iff.1 hop
    exact absurd rfl (hopen fd)
  | _ => exact absurd hop (by simp [Code.op])

/-- A call on a regular file. -/
theorem of_regular {f : RegularFile} (hop : code.op c = some op) (hopen : ∀ fd, op ≠ .openFile fd)
    (hf : h.opened op.file = some f) (hregular : h.onRegular f op = (a, h'))
    (hstep : code.step (conn.outcome c a) = .ok (e, code')) : h.Call c.outcome e h' := by
  cases code with
  | call act next =>
    cases act with
    | closeFile fd =>
      obtain rfl := Option.some.inj hop
      obtain ⟨-, rfl⟩ := Prod.mk.inj hregular
      obtain ⟨rfl, -⟩ := Prod.mk.inj (Except.ok.inj hstep)
      exact .closes
    | _ => exact absurd hop (by simp [Code.op])
  | ioctl l fd seekto =>
    obtain rfl := Option.some.inj hop
    obtain ⟨rfl, rfl⟩ := Prod.mk.inj hregular
    obtain ⟨rfl, -⟩ := Prod.mk.inj (Except.ok.inj hstep)
    exact .stays rfl rfl (by simp [Event.readData]) (by simp) (by simp)
  | readIoctl l fd | readBack l fd =>
    obtain rfl := Option.some.inj hop
    obtain ⟨rfl, rfl⟩ := Prod.mk.inj hregular
    obtain ⟨asked, hasked, rfl⟩ := Code.event_of_read (c := c) rfl hstep
    have hread := List.take_prefix (min l.bufferSize maxRwCount - c.uncopied)
      ((h.contents f.inode).drop f.pos)
    have hle := List.length_take_le (min l.bufferSize maxRwCount - c.uncopied)
      ((h.contents f.inode).drop f.pos)
    generalize ((h.contents f.inode).drop f.pos).take (min l.bufferSize maxRwCount - c.uncopied) =
      data at hread hle ⊢
    have hall : data.take asked = data := List.take_of_length_le (by omega)
    rw [show (conn.outcome c ⟨data.length, data⟩).read = data from rfl, hall]
    exact .reads hf hread
  | write l fd =>
    obtain rfl := Option.some.inj hop
    obtain ⟨-, rfl⟩ := Prod.mk.inj hregular
    obtain ⟨rfl, -⟩ := Prod.mk.inj (Except.ok.inj hstep)
    exact .writes hf
  | openIoctl | openWrite | openRead =>
    obtain ⟨fd, -, rfl⟩ := Option.map_eq_some_iff.1 hop
    exact absurd rfl (hopen fd)
  | _ => exact absurd hop (by simp [Code.op])

end Host.Call

namespace Host.Cut

theorem onDevice (hcut : h.Cut k) (hopen : ∀ fd, op ≠ .openFile fd)
    (hcall : h.onDevice op = .ok (a, h')) : a = ⟨-EBADF, []⟩ ∧ h' = h := by
  obtain ⟨device, hdevice, rfl⟩ := onDeviceOf_cases hcall
  have hclosed : Aesd.step stayPut h.device op = .ok (⟨-EBADF, []⟩, h.device) := by
    have hfiles : ∀ f, h.device.files f = none := fun f ↦ by rw [hcut.device_eq]
    cases op with
    | openFile fd => exact absurd rfl (hopen fd)
    | release fd => exact System.step_release_of_none (hfiles fd)
    | _ => exact System.call_of_closed (hfiles _) _
  obtain ⟨rfl, rfl⟩ := Prod.mk.inj (Except.ok.inj (hdevice.symm.trans hclosed))
  exact ⟨rfl, rfl⟩

/-- An `open` fails, or it opens a regular file. -/
theorem openPath (hcut : h.Cut k) (hcall : h.openPath create fd = .ok (a, h')) :
    (a.ret ≠ 0 ∧ h' = h) ∨
      (a.ret = 0 ∧ h.opened fd = none ∧ ∃ inode inodes, h' = h.openRegular fd inode inodes) := by
  rw [Host.openPath] at hcall
  split at hcall
  · obtain ⟨rfl, rfl⟩ := Prod.mk.inj (Except.ok.inj hcall)
    exact Or.inl ⟨by decide, rfl⟩
  · rename_i hfree
    have hfree' : h.opened fd = none := by
      rw [Bool.or_eq_true, not_or] at hfree
      exact Option.not_isSome_iff_eq_none.1 hfree.1
    split at hcall
    · rename_i hname
      exact absurd hname hcut.filePath_ne
    · rename_i inode hname
      obtain ⟨rfl, rfl⟩ := Prod.mk.inj (Except.ok.inj hcall)
      refine Or.inr ⟨rfl, hfree', inode, h.inodes, ?_⟩
      rw [Host.openRegular, ← hname]
    · split at hcall
      · obtain ⟨rfl, rfl⟩ := Prod.mk.inj (Except.ok.inj hcall)
        exact Or.inr ⟨rfl, hfree', _, _, rfl⟩
      · obtain ⟨rfl, rfl⟩ := Prod.mk.inj (Except.ok.inj hcall)
        exact Or.inl ⟨by decide, rfl⟩

/-- A call on a descriptor that is none of a regular file, or on one that is. -/
theorem onDescriptor (hcut : h.Cut k) (hopen : ∀ fd, op ≠ .openFile fd)
    (hcall : h.onDescriptor op = .ok (a, h')) :
    (h.opened op.file = none ∧ a = ⟨-EBADF, []⟩ ∧ h' = h) ∨
      ∃ f, h.opened op.file = some f ∧ h.onRegular f op = (a, h') := by
  rw [Host.onDescriptor] at hcall
  split at hcall
  · rename_i f hf
    exact Or.inr ⟨f, hf, Except.ok.inj hcall⟩
  · rename_i hnone
    exact Or.inl ⟨hnone, hcut.onDevice hopen hcall⟩

/-- **What a call does.** -/
theorem call (hcut : h.Cut k) (hcall : code.onHost h c = .ok (a, h'))
    (hstep : code.step (conn.outcome c a) = .ok (e, code')) : h.Call c.outcome e h' := by
  rw [Code.onHost] at hcall
  rcases hcreates : code.creates with - | create
  · simp only [hcreates] at hcall
    rcases hop : code.op c with - | op
    · simp only [hop] at hcall
      obtain ⟨-, rfl⟩ := Prod.mk.inj (Except.ok.inj hcall)
      exact .of_op_eq_none hcreates hop (Code.step_cases hstep) _
    · simp only [hop] at hcall
      have hopen : ∀ fd, op ≠ .openFile fd := by
        rintro fd rfl
        exact Code.op_ne_openFile (by rw [Code.opens_eq, hcreates]; rfl) c fd hop
      rcases hcut.onDescriptor hopen hcall with ⟨hnone, rfl, rfl⟩ | ⟨f, hf, hregular⟩
      · exact .of_closed hop hopen hnone hstep
      · exact .of_regular hop hopen hf hregular hstep
  · simp only [hcreates] at hcall
    have hevent := Code.event_of_creates hcreates hstep
    have hfails : (conn.outcome c a).fd = none → h.Call c.outcome e h := by
      intro hfd
      rw [hfd] at hevent
      rcases hevent with rfl | rfl
      · exact .stays rfl rfl (by simp [Event.readData]) (by simp) (by simp)
      · exact .stays rfl rfl (by simp [Event.readData]) (by simp) (by simp)
    rcases hchoice : c.fd with - | fd
    · simp only [hchoice] at hcall
      obtain ⟨-, rfl⟩ := Prod.mk.inj (Except.ok.inj hcall)
      exact hfails ((if_congr Iff.rfl hchoice rfl).trans (ite_self none))
    · simp only [hchoice] at hcall
      rcases hcut.openPath hcall with ⟨hret, rfl⟩ | ⟨hret, hfree, inode, inodes, rfl⟩
      · exact hfails (if_neg hret)
      · have hfd : (conn.outcome c a).fd = some fd := (if_pos hret).trans hchoice
        rw [hfd] at hevent
        rcases hevent with rfl | rfl
        · exact .opens hfree rfl rfl
        · exact .opens hfree rfl rfl

end Host.Cut

/-! ### What follows from it -/

namespace Host.Call

variable {o : WriteOutcome}

theorem cut (hcall : h.Call o e h') (hcut : h.Cut k) : h'.Cut k := by
  cases hcall with
  | stays => exact hcut
  | opens => exact ⟨hcut.device_eq, by simp [openRegular, setOpened]⟩
  | reads | writes | closes => exact ⟨hcut.device_eq, hcut.filePath_ne⟩

/-- What is in a file stays there. -/
theorem contents_isPrefix (hcall : h.Call o e h') (inode : ℕ) :
    h.contents inode <+: h'.contents inode := by
  cases hcall with
  | @writes fd f bytes hf =>
    rw [append_contents]
    split
    · rename_i heq
      rw [heq]
      exact List.prefix_append ..
    · exact List.prefix_refl _
  | _ => exact List.prefix_refl _

/-- No command succeeds. -/
theorem ne_ioctl (hcall : h.Call o e h') (fd : ℕ) (seekto : AesdSeekto) :
    e ≠ .ioctl fd seekto true := by
  cases hcall with
  | stays _ _ _ _ hioctl => exact hioctl fd seekto
  | opens _ hopened =>
    rintro rfl
    exact absurd hopened (by simp [Event.opened])
  | _ => simp

theorem opened_eq_none_of_opened (hcall : h.Call o e h') (hopened : e.opened = some fd) :
    h.opened fd = none := by
  cases hcall with
  | stays hnone => exact absurd (hnone.symm.trans hopened) (by simp)
  | opens hfree hfd =>
    obtain rfl := Option.some.inj (hfd.symm.trans hopened)
    exact hfree
  | _ => exact absurd hopened (by simp [Event.opened])

theorem isSome_opened (hcall : h.Call o e h') (g : ℕ) :
    (h'.opened g).isSome = true ↔
      e.opened = some g ∨ ((h.opened g).isSome = true ∧ e.closed ≠ some g) := by
  cases hcall with
  | stays hopened hclosed => simp [hopened, hclosed]
  | @opens _ fd inode inodes hfree hopened hclosed =>
    rw [hopened, hclosed, openRegular, setOpened_opened]
    split
    · rename_i heq
      simp [heq]
    · rename_i hne
      simp [Ne.symm hne]
  | @reads fd asked f data hf =>
    rw [setOpened_opened]
    split
    · rename_i heq
      simp [heq, hf, Event.opened, Event.closed]
    · simp [Event.opened, Event.closed]
  | writes => simp [append, Event.opened, Event.closed]
  | @closes fd =>
    rw [setOpened_opened]
    split
    · rename_i heq
      simp [heq, Event.opened, Event.closed]
    · rename_i hne
      simp [Ne.symm hne, Event.opened, Event.closed]

/-- A call leaves the files of the other threads where they are. -/
theorem opened_eq (hcall : h.Call o e h') (hstep : Code.Step code e code') {g : ℕ}
    (hg : g ∉ code.descriptors) (hopened : e.opened ≠ some g) : h'.opened g = h.opened g := by
  cases hcall with
  | stays | writes => rfl
  | opens _ hfd =>
    rw [openRegular, setOpened_opened, if_neg]
    exact fun heq ↦ hopened (by rw [hfd, heq])
  | reads =>
    rw [setOpened_opened, if_neg]
    rintro rfl
    cases hstep <;> exact hg List.mem_cons_self
  | closes =>
    rw [setOpened_opened, if_neg]
    rintro rfl
    exact hg (hstep.mem_descriptors_of_closed rfl)

end Host.Call

end Calls

end Aesd
