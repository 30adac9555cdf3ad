import Aesd.Foundation.Mutex
import Aesd.Server.CString

/-!
# The thread of a connection

`threadfunc` of `aesdsocket.c` as a machine that makes one call a step. `Code` is where the thread
is: the call it makes next, with its variables where it still needs them. `Code.step` makes that
call; what the rest of the world answers is an `Outcome`. The named pieces `received`, `scan`,
`handle`, `finishIoctl`, `sendBack` and `finish` follow the source from top to bottom.

The test `#ifdef USE_AESD_CHAR_DEVICE` holds in both builds, because the macro is always defined, so
the code for the character device is always there. The two builds differ in `FILE_PATH` only, which
is what `openFilePath` opens.

A store outside the receive buffer does not stop the thread here: it leaves the buffer alone
(`Locals.store`). Left out: the texts of the log messages, and the results of `write`, `fsync`,
`send` and `close`, which only go to the log or nowhere.
-/

namespace Aesd

open Memory MutualExclusion

/-- The variables of `threadfunc`. -/
structure Locals where
  /-- The block `buffer` points to. -/
  buffer : List Byte
  bufferSize : ℕ
  totalReceived : ℕ
deriving DecidableEq

/-- Write into `buffer`. What would go past its end is lost: the thread goes on after an over-run,
and what the over-run bytes do to the heap is left out. -/
def Locals.store (l : Locals) (off : ℕ) (bytes : List Byte) : Locals :=
  { l with buffer := (overwrite l.buffer off bytes).take l.buffer.length }

/-- A call after which the thread always goes on the same way. -/
inductive Action
  /-- The message that a connection was accepted, with the address of the peer. -/
  | logAccepted
  /-- The message that it was closed, with the address of the peer. -/
  | logClosed
  | lock
  | unlock
  /-- The message that the request is malformed. -/
  | malformed
  | fsync (fd : ℕ)
  | send (data : List Byte)
  | closeFile (fd : ℕ)
  | closeSocket
  | free
  | setStatus
deriving DecidableEq

/-- A call of the thread, with its arguments and what was answered. -/
inductive Event
  | call (a : Action)
  | malloc (size : ℕ) (ok : Bool)
  | realloc (size : ℕ) (ok : Bool)
  | recv (asked : ℕ) (data : List Byte)
  /-- `open("/dev/aesdchar")`. -/
  | openDevice (fd : Option ℕ)
  /-- `open(FILE_PATH)`. -/
  | openFilePath (fd : Option ℕ)
  | ioctl (fd : ℕ) (seekto : AesdSeekto) (ok : Bool)
  | write (fd : ℕ) (bytes : List Byte)
  | read (fd asked : ℕ) (data : List Byte)
deriving DecidableEq

/-- What an event does to `aesdsocket_mutex`. -/
def Event.role : Event → Role
  | .call .lock => .lock
  | .call .unlock => .unlock
  | _ => .other

/-- Where the thread is. -/
inductive Code
  | call (a : Action) (next : Code)
  | malloc
  | recv (l : Locals)
  | realloc (l : Locals)
  | openIoctl (l : Locals) (seekto : AesdSeekto)
  | ioctl (l : Locals) (fd : ℕ) (seekto : AesdSeekto)
  | readIoctl (l : Locals) (fd : ℕ)
  | openWrite (l : Locals)
  | write (l : Locals) (fd : ℕ)
  | openRead (l : Locals)
  | readBack (l : Locals) (fd : ℕ)
  | ret
deriving DecidableEq

/-- What the next call answers, whichever it is. -/
structure Outcome where
  /-- `malloc` and `realloc`: refused, or granted. -/
  alloc : Option Junk
  /-- What `recv` has for the thread; nothing stands for 0 and for -1. -/
  recv : List Byte
  /-- `open`. -/
  fd : Option ℕ
  /-- `ioctl` does not return -1. -/
  ioctl : Bool
  /-- What `read` has for the thread; nothing stands for 0 and for -1. -/
  read : List Byte

/-- What every call answers in a request that goes well, when `recv` has `data`. -/
def Outcome.granting (data : List Byte) : Outcome :=
  ⟨some fun _ ↦ 0, data, some 3, true, []⟩

/-- The largest block `malloc` grants, `PTRDIFF_MAX`. -/
def mallocMaxSize : ℕ := 2 ^ 63 - 1

namespace Code

/-- Calls one after the other. -/
def calls (acts : List Action) (next : Code) : Code :=
  acts.foldr call next

/-- The end of the function. -/
def finish : Code :=
  calls [.logClosed, .closeSocket, .free, .setStatus] ret

/-- The read-back under the mutex. -/
def sendBack (l : Locals) : Code :=
  call .lock (openRead l)

/-- The end of a request that is a command for the device. -/
def finishIoctl : Code :=
  calls [.logClosed, .closeSocket, .free, .setStatus, .unlock] ret

/-- A request that is a command for the device, from the return of `sscanf` on. -/
def parsed (l : Locals) : Option AesdSeekto → Code
  | some seekto => openIoctl l seekto
  | none => call .malformed finishIoctl

/-- From the end of the receive loop on. -/
def handle (l : Locals) : Code :=
  if l.totalReceived > 0 then
    if strncmpIoctl l.buffer then
      parsed l (sscanfCmdOffset ((cString l.buffer).drop ioctlCmdStr.length))
    else openWrite l
  else finish

/-- The test at the end of the body of the receive loop. -/
def scan (l : Locals) : Code :=
  if strchrNewline l.buffer || strncmpIoctl l.buffer then handle l else recv l

/-- The body of the receive loop, from the return of `recv` on. -/
def received (l : Locals) (data : List Byte) : Code :=
  let l := { l.store l.totalReceived data with
    totalReceived := sizeT (l.totalReceived + data.length) }
  let l := l.store l.totalReceived [0]
  if l.totalReceived ≥ l.bufferSize - 1 then
    realloc { l with bufferSize := sizeT (l.bufferSize * 2) }
  else scan l

/-- How many bytes the next `recv` asks for. -/
def asked (l : Locals) : ℕ :=
  sizeT (l.bufferSize + 2 ^ 64 - l.totalReceived - 1)

/-- `threadfunc` from its first line. -/
def threadfunc : Code :=
  call .logAccepted malloc

/-- The next call and what the thread does after it. -/
def step (code : Code) (o : Outcome) : Except Stop (Event × Code) :=
  match code with
  | call a next => .ok (.call a, next)
  | malloc =>
    match o.alloc with
    | none => .ok (.malloc 1024 false, call .closeSocket ret)
    | some junk => .ok (.malloc 1024 true, call .lock (recv ⟨resize [] 1024 junk, 1024, 0⟩))
  | recv l =>
    let data := o.recv.take (asked l)
    .ok (.recv (asked l) data, if data = [] then handle l else received l data)
  | realloc l =>
    match o.alloc with
    | some junk =>
      if l.bufferSize ≤ mallocMaxSize then
        .ok (.realloc l.bufferSize true,
          scan { l with buffer := resize l.buffer l.bufferSize junk })
      else .ok (.realloc l.bufferSize false, handle l)
    | none => .ok (.realloc l.bufferSize false, handle l)
  | openIoctl l seekto =>
    match o.fd with
    | none => .ok (.openDevice none, finishIoctl)
    | some fd => .ok (.openDevice (some fd), ioctl l fd seekto)
  | ioctl l fd seekto =>
    if o.ioctl then .ok (.ioctl fd seekto true, readIoctl l fd)
    else
      .ok (.ioctl fd seekto false,
        calls [.closeFile fd, .unlock, .free, .unlock, .setStatus] ret)
  | readIoctl l fd =>
    let data := o.read.take l.bufferSize
    if data = [] then .ok (.read fd l.bufferSize [], call (.closeFile fd) finishIoctl)
    else .ok (.read fd l.bufferSize data, call (.send data) (readIoctl l fd))
  | openWrite l =>
    match o.fd with
    | none => .ok (.openFilePath none, calls [.closeSocket, .free, .unlock] ret)
    | some fd => .ok (.openFilePath (some fd), write l fd)
  | write l fd =>
    .ok (.write fd (l.buffer.take l.totalReceived),
      calls [.fsync fd, .closeFile fd, .unlock] (sendBack l))
  | openRead l =>
    match o.fd with
    | none => .ok (.openDevice none, call .unlock finish)
    | some fd => .ok (.openDevice (some fd), readBack l fd)
  | readBack l fd =>
    let data := o.read.take l.bufferSize
    if data = [] then
      .ok (.read fd l.bufferSize [], calls [.closeFile fd, .unlock] finish)
    else
      .ok (.read fd l.bufferSize data,
        call (.send ((l.store 0 data).buffer.take data.length)) (readBack (l.store 0 data) fd))
  | ret => .error .blocked

/-- What a step can be, whatever the outcome of its call. -/
inductive Step : Code → Event → Code → Prop
  | call (a : Action) (next : Code) : Step (call a next) (.call a) next
  | mallocFails : Step malloc (.malloc 1024 false) (Code.call .closeSocket ret)
  | malloc (junk : Junk) :
      Step malloc (.malloc 1024 true) (Code.call .lock (recv ⟨resize [] 1024 junk, 1024, 0⟩))
  | recvNothing (l : Locals) : Step (recv l) (.recv (asked l) []) (handle l)
  | recv (l : Locals) (data : List Byte) (hne : data ≠ []) (hle : data.length ≤ asked l) :
      Step (recv l) (.recv (asked l) data) (received l data)
  | reallocFails (l : Locals) : Step (realloc l) (.realloc l.bufferSize false) (handle l)
  | realloc (l : Locals) (junk : Junk) (hle : l.bufferSize ≤ mallocMaxSize) :
      Step (realloc l) (.realloc l.bufferSize true)
        (scan { l with buffer := resize l.buffer l.bufferSize junk })
  | openIoctlFails (l : Locals) (seekto : AesdSeekto) :
      Step (openIoctl l seekto) (.openDevice none) finishIoctl
  | openIoctl (l : Locals) (seekto : AesdSeekto) (fd : ℕ) :
      Step (openIoctl l seekto) (.openDevice (some fd)) (ioctl l fd seekto)
  | ioctlFails (l : Locals) (fd : ℕ) (seekto : AesdSeekto) :
      Step (ioctl l fd seekto) (.ioctl fd seekto false)
        (calls [.closeFile fd, .unlock, .free, .unlock, .setStatus] ret)
  | ioctl (l : Locals) (fd : ℕ) (seekto : AesdSeekto) :
      Step (ioctl l fd seekto) (.ioctl fd seekto true) (readIoctl l fd)
  | readIoctlEnd (l : Locals) (fd : ℕ) :
      Step (readIoctl l fd) (.read fd l.bufferSize []) (Code.call (.closeFile fd) finishIoctl)
  | readIoctl (l : Locals) (fd : ℕ) (data : List Byte) (hne : data ≠ [])
      (hle : data.length ≤ l.bufferSize) :
      Step (readIoctl l fd) (.read fd l.bufferSize data)
        (Code.call (.send data) (readIoctl l fd))
  | openWriteFails (l : Locals) :
      Step (openWrite l) (.openFilePath none) (calls [.closeSocket, .free, .unlock] ret)
  | openWrite (l : Locals) (fd : ℕ) : Step (openWrite l) (.openFilePath (some fd)) (write l fd)
  | write (l : Locals) (fd : ℕ) :
      Step (write l fd) (.write fd (l.buffer.take l.totalReceived))
        (calls [.fsync fd, .closeFile fd, .unlock] (sendBack l))
  | openReadFails (l : Locals) :
      Step (openRead l) (.openDevice none) (Code.call .unlock finish)
  | openRead (l : Locals) (fd : ℕ) :
      Step (openRead l) (.openDevice (some fd)) (readBack l fd)
  | readBackEnd (l : Locals) (fd : ℕ) :
      Step (readBack l fd) (.read fd l.bufferSize []) (calls [.closeFile fd, .unlock] finish)
  | readBack (l : Locals) (fd : ℕ) (data : List Byte) (hne : data ≠ [])
      (hle : data.length ≤ l.bufferSize) :
      Step (readBack l fd) (.read fd l.bufferSize data)
        (Code.call (.send ((l.store 0 data).buffer.take data.length))
          (readBack (l.store 0 data) fd))

/-- **What a step does.** -/
theorem step_cases {code code' : Code} {o : Outcome} {e : Event}
    (h : code.step o = .ok (e, code')) : Step code e code' := by
  cases code with
  | call a next =>
    obtain ⟨rfl, rfl⟩ := Prod.mk.inj (Except.ok.inj h)
    exact .call a _
  | malloc =>
    rw [step] at h
    split at h
    · obtain ⟨rfl, rfl⟩ := Prod.mk.inj (Except.ok.inj h)
      exact .mallocFails
    · obtain ⟨rfl, rfl⟩ := Prod.mk.inj (Except.ok.inj h)
      exact .malloc _
  | recv l =>
    obtain ⟨rfl, rfl⟩ := Prod.mk.inj (Except.ok.inj h)
    split
    · rename_i hnil
      rw [hnil]
      exact .recvNothing l
    · rename_i hne
      exact .recv l _ hne (List.length_take_le ..)
  | realloc l =>
    rw [step] at h
    split at h
    · split at h
      · rename_i hle
        obtain ⟨rfl, rfl⟩ := Prod.mk.inj (Except.ok.inj h)
        exact .realloc l _ hle
      · obtain ⟨rfl, rfl⟩ := Prod.mk.inj (Except.ok.inj h)
        exact .reallocFails l
    · obtain ⟨rfl, rfl⟩ := Prod.mk.inj (Except.ok.inj h)
      exact .reallocFails l
  | openIoctl l seekto =>
    rw [step] at h
    split at h
    · obtain ⟨rfl, rfl⟩ := Prod.mk.inj (Except.ok.inj h)
      exact .openIoctlFails l seekto
    · obtain ⟨rfl, rfl⟩ := Prod.mk.inj (Except.ok.inj h)
      exact .openIoctl l seekto _
  | ioctl l fd seekto =>
    rw [step] at h
    split at h
    · obtain ⟨rfl, rfl⟩ := Prod.mk.inj (Except.ok.inj h)
      exact .ioctl l fd seekto
    · obtain ⟨rfl, rfl⟩ := Prod.mk.inj (Except.ok.inj h)
      exact .ioctlFails l fd seekto
  | readIoctl l fd =>
    simp only [step] at h
    split at h
    · obtain ⟨rfl, rfl⟩ := Prod.mk.inj (Except.ok.inj h)
      exact .readIoctlEnd l fd
    · rename_i hne
      obtain ⟨rfl, rfl⟩ := Prod.mk.inj (Except.ok.inj h)
      exact .readIoctl l fd _ hne (List.length_take_le ..)
  | openWrite l =>
    rw [step] at h
    split at h
    · obtain ⟨rfl, rfl⟩ := Prod.mk.inj (Except.ok.inj h)
      exact .openWriteFails l
    · obtain ⟨rfl, rfl⟩ := Prod.mk.inj (Except.ok.inj h)
      exact .openWrite l _
  | write l fd =>
    obtain ⟨rfl, rfl⟩ := Prod.mk.inj (Except.ok.inj h)
    exact .write l fd
  | openRead l =>
    rw [step] at h
    split at h
    · obtain ⟨rfl, rfl⟩ := Prod.mk.inj (Except.ok.inj h)
      exact .openReadFails l
    · obtain ⟨rfl, rfl⟩ := Prod.mk.inj (Except.ok.inj h)
      exact .openRead l _
  | readBack l fd =>
    simp only [step] at h
    split at h
    · obtain ⟨rfl, rfl⟩ := Prod.mk.inj (Except.ok.inj h)
      exact .readBackEnd l fd
    · rename_i hne
      obtain ⟨rfl, rfl⟩ := Prod.mk.inj (Except.ok.inj h)
      exact .readBack l fd _ hne (List.length_take_le ..)
  | ret => simp [step] at h

/-- Where the thread can go on from the end of the receive loop. -/
theorem handle_cases (l : Locals) :
    (∃ seekto, handle l = openIoctl l seekto) ∨ handle l = call .malformed finishIoctl ∨
      handle l = openWrite l ∨ handle l = finish := by
  rw [handle]
  split
  · split
    · rcases sscanfCmdOffset ((cString l.buffer).drop ioctlCmdStr.length) with - | seekto
      · exact Or.inr (Or.inl rfl)
      · exact Or.inl ⟨seekto, rfl⟩
    · exact Or.inr (Or.inr (Or.inl rfl))
  · exact Or.inr (Or.inr (Or.inr rfl))

theorem scan_cases (l : Locals) : scan l = handle l ∨ scan l = recv l := by
  rw [scan]
  split
  · exact Or.inl rfl
  · exact Or.inr rfl

theorem received_cases (l : Locals) (data : List Byte) :
    (∃ l', received l data = realloc l') ∨ ∃ l', received l data = scan l' := by
  rw [received]
  split
  · exact Or.inl ⟨_, rfl⟩
  · exact Or.inr ⟨_, rfl⟩

/-- A thread that has not returned makes its call, whatever it answers. -/
theorem exists_step {code : Code} (h : code ≠ ret) (o : Outcome) :
    ∃ e code', code.step o = .ok (e, code') := by
  cases code with
  | ret => exact absurd rfl h
  | malloc =>
    rw [step]
    rcases o.alloc with - | junk <;> exact ⟨_, _, rfl⟩
  | realloc l =>
    rw [step]
    rcases o.alloc with - | junk
    · exact ⟨_, _, rfl⟩
    · dsimp only
      split <;> exact ⟨_, _, rfl⟩
  | openIoctl l seekto =>
    rw [step]
    rcases o.fd with - | fd <;> exact ⟨_, _, rfl⟩
  | openWrite l =>
    rw [step]
    rcases o.fd with - | fd <;> exact ⟨_, _, rfl⟩
  | openRead l =>
    rw [step]
    rcases o.fd with - | fd <;> exact ⟨_, _, rfl⟩
  | ioctl l fd seekto =>
    rw [step]
    split <;> exact ⟨_, _, rfl⟩
  | readIoctl l fd =>
    simp only [step]
    split <;> exact ⟨_, _, rfl⟩
  | readBack l fd =>
    simp only [step]
    split <;> exact ⟨_, _, rfl⟩
  | _ => exact ⟨_, _, rfl⟩

end Code

end Aesd
