import Aesd.Service.OwnLine

/-!
# The two back ends

The server is built with `USE_AESD_CHAR_DEVICE` set to 1, and `FILE_PATH` is the device, or to 0,
and `FILE_PATH` is a regular file (`Build`). `FILE_PATH` is what a request is written to. The
commands and the read-back are under `#ifdef USE_AESD_CHAR_DEVICE`, and the macro is defined in both
builds, so both read from the device.

The build on the device is the server of `serve` (`run_of_charDevice`). In the build on the regular
file the one difference is the `open` of `FILE_PATH` (`Code.storage`).

Nobody but the server uses the device and the file.
-/

namespace Aesd

open Execution MutualExclusion

/-- The value of `USE_AESD_CHAR_DEVICE`. -/
inductive Build
  /-- 0: `FILE_PATH` is a regular file. -/
  | regularFile
  /-- 1: `FILE_PATH` is the device. -/
  | charDevice
deriving DecidableEq

/-- The device and the regular file. -/
structure Storage where
  device : System
  file : List Byte
  /-- The descriptors of the file; those of the device are the device's. -/
  opened : ℕ → Bool

namespace Storage

/-- Nothing is stored. -/
def init : Storage :=
  ⟨.init, [], fun _ ↦ false⟩

/-- `open` of the regular file: it is created, if it is not there, and opened to append to it. -/
def openFile (st : Storage) (fd : ℕ) : Answer × Storage :=
  if st.opened fd || (st.device.files fd).isSome then (⟨-EBADF, []⟩, st)
  else (⟨0, []⟩, { st with opened := Function.update st.opened fd true })

/-- A call on the device. -/
def onDevice : Storage → Op → Except Stop (Answer × Storage) :=
  onDeviceOf Storage.device fun st device ↦ { st with device }

/-- A call on a descriptor: on the file if it is one of the file. -/
def step (st : Storage) : Op → Except Stop (Answer × Storage)
  | .openFile fd => if st.opened fd then .ok (⟨-EBADF, []⟩, st) else st.onDevice (.openFile fd)
  | .write fd buf o =>
    if st.opened fd then .ok (⟨buf.count, []⟩, { st with file := st.file ++ buf.bytes })
    else st.onDevice (.write fd buf o)
  | .release fd =>
    if st.opened fd then
      .ok (⟨0, []⟩, { st with opened := Function.update st.opened fd false })
    else st.onDevice (.release fd)
  | op => st.onDevice op

end Storage

/-- What the storage does in the next call. -/
def Code.storage (b : Build) (code : Code) (st : Storage) (c : Choice) :
    Except Stop (Answer × Storage) :=
  match b, code, c.fd with
  | .regularFile, .openWrite _, some fd => .ok (st.openFile fd)
  | _, _, _ =>
    match code.op c with
    | none => .ok (⟨0, []⟩, st)
    | some op => st.step op

/-- One call of a thread. -/
def actOn (b : Build) : Storage → Conn → Choice → Except Stop (Event × Storage × Conn) :=
  actIn (Code.storage b)

/-- One call of one of the threads. -/
def serveOn (b : Build) :
    Shared Storage Conn → ℕ × Choice → Except Stop ((ℕ × Event) × Shared Storage Conn) :=
  MutualExclusion.step (actOn b) Event.role .blocked

/-- Empty storage, and a thread for each connection. -/
def startOn (inboxes : ℕ → List (List Byte)) : Shared Storage Conn :=
  ⟨.init, none, fun i ↦ ⟨.threadfunc, inboxes i⟩⟩

section Steps

variable {b : Build} {st st' : Storage} {conn conn' : Conn} {c : Choice} {e : Event}
  {w w' : Shared Storage Conn} {x : ℕ × Choice} {y : ℕ × Event}

/-! ### The build on the device -/

/-- With no descriptor of the file every call is one on the device. -/
theorem Storage.step_of_not_opened (hst : ∀ fd, st.opened fd = false) (op : Op) :
    st.step op = st.onDevice op := by
  cases op <;> simp [step, hst]

theorem actOn_charDevice (hst : ∀ fd, st.opened fd = false)
    (h : actOn .charDevice st conn c = .ok (e, st', conn')) :
    act st.device conn c = .ok (e, st'.device, conn') ∧ ∀ fd, st'.opened fd = false := by
  obtain ⟨a, code, hstorage, hstep, rfl⟩ := actIn_cases h
  have hdevice : conn.code.device st.device c = .ok (a, st'.device) ∧ st'.opened = st.opened := by
    rw [Code.storage] at hstorage
    · rw [Code.device]
      rcases hop : conn.code.op c with - | op
      · simp only [hop] at hstorage
        obtain ⟨rfl, rfl⟩ := Prod.mk.inj (Except.ok.inj hstorage)
        exact ⟨rfl, rfl⟩
      · simp only [hop, Storage.step_of_not_opened hst] at hstorage
        obtain ⟨device, hdevice, rfl⟩ := onDeviceOf_cases hstorage
        exact ⟨hdevice, rfl⟩
    · exact fun _ _ hb ↦ Build.noConfusion hb
  exact ⟨actIn_of_ok conn hdevice.1 hstep, fun fd ↦ by rw [hdevice.2, hst]⟩

/-- **The build on the device** is the server on the device. -/
theorem run_of_charDevice {inboxes : ℕ → List (List Byte)} {xs : List (ℕ × Choice)}
    {trace : List (ℕ × Event)}
    (h : run (serveOn .charDevice) (startOn inboxes) xs = .ok (trace, w)) :
    run serve (start inboxes) xs = .ok (trace, ⟨w.env.device, w.owner, w.proc⟩) := by
  have hstep : ∀ (w : Shared Storage Conn) (v : World) (x : ℕ × Choice) (y : ℕ × Event)
      (w' : Shared Storage Conn), ((∀ fd, w.env.opened fd = false) ∧
        v = ⟨w.env.device, w.owner, w.proc⟩) → serveOn .charDevice w x = .ok (y, w') →
      ∃ v', serve v x = .ok (y, v') ∧ (∀ fd, w'.env.opened fd = false) ∧
        v' = ⟨w'.env.device, w'.owner, w'.proc⟩ := by
    rintro w v ⟨i, c⟩ y w' ⟨hst, rfl⟩ hserve
    have hserve' : serve ⟨w.env.device, w.owner, w.proc⟩ (i, c) = _ :=
      step_of_act (g := Storage.device) (fun _ _ _ hact ↦ (actOn_charDevice hst hact).1) hserve
    obtain ⟨e, env, conn, hact, -, rfl, -⟩ := step_cases hserve
    exact ⟨_, hserve', (actOn_charDevice hst hact).2, rfl⟩
  obtain ⟨v, hrun, -, rfl⟩ := exists_run_of_refines hstep ⟨fun _ ↦ rfl, rfl⟩ h
  exact hrun

end Steps

end Aesd
