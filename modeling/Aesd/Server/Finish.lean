import Aesd.Server.Thread
import Mathlib.Data.List.Count

/-!
# How a connection is finished

Every exit of `threadfunc` cleans up by hand, and `main` does when it cannot create the thread.
What a connection still owes is a function of the calls it has made (`Code.Owes`): a thread in its
receive loop owes the close of the socket, the release of the buffer and the status, and one that
has opened a file owes its close as well (`Holding`).

Four exits forget something. After a failed `malloc` and after a failed `open(FILE_PATH)` the
status is not set, so that `main` never joins the thread; after an `ioctl` that returned -1, and
after a failed `pthread_create`, the socket stays open. On all other paths everything is paid back
(`finished_iff_smooth`).
-/

namespace Aesd

open Execution

/-! ### What is owed -/

/-- A call of `main` about a connection, from the return of `pthread_create` on. -/
inductive MainCall
  | insertHead
  | perror
  | freeNode
  | closeSocket
deriving DecidableEq

/-- What `main` does after `pthread_create`. -/
def afterPthreadCreate (created : Bool) : List MainCall :=
  if created then [.insertHead] else [.perror, .freeNode]

/-- The descriptor that a call opens. -/
def Event.opened : Event → Option ℕ
  | .openDevice fd | .openFilePath fd => fd
  | _ => none

/-- The descriptor that a call closes. -/
def Event.closed : Event → Option ℕ
  | .call (.closeFile fd) => some fd
  | _ => none

/-- The connection is finished properly: `main` and the thread together close the socket once, every
descriptor that was opened is closed, in that order, the receive buffer is freed as often as it was
allocated, and a thread that was created sets its status. -/
structure Finished (created : Bool) (events : List Event) : Prop where
  socket : (afterPthreadCreate created).count .closeSocket + events.count (.call .closeSocket) = 1
  files : events.filterMap Event.opened = events.filterMap Event.closed
  buffer : events.count (.call .free) = events.count (.malloc 1024 true)
  status : created = true → .call .setStatus ∈ events

/-- The thread was created, `malloc` and the `open` for writing did not fail, and no `ioctl` did. -/
structure Smooth (created : Bool) (events : List Event) : Prop where
  created : created = true
  malloc : .malloc 1024 false ∉ events
  openFilePath : .openFilePath none ∉ events
  ioctl : ∀ fd seekto, .ioctl fd seekto false ∉ events

/-- The calls of the thread of a connection that has come to its end: those of a run of `threadfunc`
up to its return, or none if there is no thread. -/
def Ended (created : Bool) (events : List Event) : Prop :=
  if created then ∃ os, run Code.step Code.threadfunc os = .ok (events, .ret) else events = []

/-- Nothing was allocated or opened, and nothing went wrong. -/
structure Blank (events : List Event) : Prop extends Smooth true events where
  socket : events.count (.call .closeSocket) = 0
  files : events.filterMap Event.opened = events.filterMap Event.closed
  buffer : events.count (.malloc 1024 true) = 0
  free : events.count (.call .free) = 0
  status : .call .setStatus ∉ events

/-- The buffer is allocated and the files `fds` are open; nothing went wrong. -/
structure Holding (fds : List ℕ) (events : List Event) : Prop extends Smooth true events where
  socket : events.count (.call .closeSocket) = 0
  files : events.filterMap Event.opened = events.filterMap Event.closed ++ fds
  buffer : events.count (.malloc 1024 true) = 1
  free : events.count (.call .free) = 0
  status : .call .setStatus ∉ events

section Concat

variable {created : Bool} {fds : List ℕ} {events : List Event} {e : Event}

theorem Smooth.concat (h : Smooth created events) (hmalloc : e ≠ .malloc 1024 false)
    (hopen : e ≠ .openFilePath none) (hioctl : ∀ fd seekto, e ≠ .ioctl fd seekto false) :
    Smooth created (events ++ [e]) where
  created := h.created
  malloc hmem := (List.mem_append.1 hmem).elim h.malloc fun hnew ↦
    hmalloc (List.mem_singleton.1 hnew).symm
  openFilePath hmem := (List.mem_append.1 hmem).elim h.openFilePath fun hnew ↦
    hopen (List.mem_singleton.1 hnew).symm
  ioctl fd seekto hmem := (List.mem_append.1 hmem).elim (h.ioctl fd seekto) fun hnew ↦
    hioctl fd seekto (List.mem_singleton.1 hnew).symm

/-- A call that takes nothing and pays nothing back. -/
theorem Holding.concat (h : Holding fds events) (hsmooth : Smooth true (events ++ [e]))
    (hopened : e.opened = none) (hclosed : e.closed = none) (hsocket : e ≠ .call .closeSocket)
    (hbuffer : e ≠ .malloc 1024 true) (hfree : e ≠ .call .free) (hstatus : e ≠ .call .setStatus) :
    Holding fds (events ++ [e]) where
  toSmooth := hsmooth
  socket := by
    rw [List.count_append, h.socket, List.count_singleton, if_neg (by simpa using hsocket)]
  files := by simp [h.files, hopened, hclosed]
  buffer := by
    rw [List.count_append, h.buffer, List.count_singleton, if_neg (by simpa using hbuffer)]
  free := by rw [List.count_append, h.free, List.count_singleton, if_neg (by simpa using hfree)]
  status hmem := (List.mem_append.1 hmem).elim h.status fun hnew ↦
    hstatus (List.mem_singleton.1 hnew).symm

/-- A call that opens a file. -/
theorem Holding.concat_open (h : Holding [] events) (hsmooth : Smooth true (events ++ [e])) {fd : ℕ}
    (hopened : e = .openDevice (some fd) ∨ e = .openFilePath (some fd)) :
    Holding [fd] (events ++ [e]) := by
  have hfiles := h.files
  rw [List.append_nil] at hfiles
  rcases hopened with rfl | rfl
  · exact ⟨hsmooth, by simp [h.socket], by simp [hfiles, Event.opened, Event.closed],
      by simp [h.buffer], by simp [h.free], by simp [h.status]⟩
  · exact ⟨hsmooth, by simp [h.socket], by simp [hfiles, Event.opened, Event.closed],
      by simp [h.buffer], by simp [h.free], by simp [h.status]⟩

/-- The close of the open file. -/
theorem Holding.concat_closeFile {fd : ℕ} (h : Holding [fd] events) :
    Holding [] (events ++ [.call (.closeFile fd)]) :=
  ⟨h.toSmooth.concat (by simp) (by simp) (by simp), by simp [h.socket],
    by simp [h.files, Event.opened, Event.closed], by simp [h.buffer], by simp [h.free],
    by simp [h.status]⟩

/-- The calls at the end of a request pay everything back. -/
theorem Holding.finished (h : Holding [] events) {acts : List Action}
    (hsocket : acts.count .closeSocket = 1) (hfree : acts.count .free = 1)
    (hstatus : .setStatus ∈ acts) (hfiles : ∀ fd, .closeFile fd ∉ acts) :
    Finished true (events ++ acts.map Event.call) ∧
      Smooth true (events ++ acts.map Event.call) := by
  have hinjective : Function.Injective Event.call := fun a b heq ↦ Event.call.inj heq
  have hclosed : (acts.map Event.call).filterMap Event.closed = [] := by
    rw [List.filterMap_eq_nil_iff]
    rintro e he
    obtain ⟨a, ha, rfl⟩ := List.mem_map.1 he
    cases a with
    | closeFile fd => exact absurd ha (hfiles fd)
    | _ => rfl
  have hopened : (acts.map Event.call).filterMap Event.opened = [] := by
    rw [List.filterMap_eq_nil_iff]
    rintro e he
    obtain ⟨a, -, rfl⟩ := List.mem_map.1 he
    rfl
  refine ⟨⟨?_, ?_, ?_, fun _ ↦ ?_⟩, ⟨rfl, ?_, ?_, ?_⟩⟩
  · rw [List.count_append, h.socket, List.count_map_of_injective _ _ hinjective, hsocket]
    rfl
  · rw [List.filterMap_append, List.filterMap_append, h.files, hclosed, hopened, List.append_nil]
  · rw [List.count_append, List.count_append, h.free, h.buffer,
      List.count_map_of_injective _ _ hinjective, hfree,
      List.count_eq_zero.2 (by simp)]
  · exact List.mem_append_right _ (List.mem_map_of_mem hstatus)
  · simpa using h.malloc
  · simpa using h.openFilePath
  · simpa using h.ioctl

end Concat

namespace Code

/-- What the thread still owes after `events`. -/
def Owes : List Event → Code → Prop
  | events, .call a next => next.Owes (events ++ [.call a])
  | events, .malloc => Blank events
  | events, .recv _ | events, .realloc _ | events, .openIoctl .. | events, .openWrite _
  | events, .openRead _ => Holding [] events
  | events, .ioctl _ fd _ | events, .readIoctl _ fd | events, .write _ fd
  | events, .readBack _ fd => Holding [fd] events
  | events, .ret => Finished true events ↔ Smooth true events

variable {l : Locals} {events : List Event} {code code' : Code} {e : Event}

theorem owes_calls (acts : List Action) (next : Code) (events : List Event) :
    (calls acts next).Owes events ↔ next.Owes (events ++ acts.map Event.call) := by
  induction acts generalizing events with
  | nil => rw [List.map_nil, List.append_nil]; rfl
  | cons a acts ih =>
    show (calls acts next).Owes (events ++ [.call a]) ↔ _
    rw [ih, List.append_assoc, List.singleton_append, List.map_cons]

theorem owes_finish (h : Holding [] events) : finish.Owes events := by
  obtain ⟨hfinished, hsmooth⟩ := @Holding.finished _ h
    [.logClosed, .closeSocket, .free, .setStatus] rfl rfl (by simp) (by simp)
  exact (owes_calls _ _ _).2 (iff_of_true hfinished hsmooth)

theorem owes_finishIoctl (h : Holding [] events) : finishIoctl.Owes events := by
  obtain ⟨hfinished, hsmooth⟩ := @Holding.finished _ h
    [.logClosed, .closeSocket, .free, .setStatus, .unlock] rfl rfl (by simp) (by simp)
  exact (owes_calls _ _ _).2 (iff_of_true hfinished hsmooth)

/-- A call of no account here. -/
theorem holding_call {fds : List ℕ} (h : Holding fds events) {a : Action}
    (ha : a = .lock ∨ a = .unlock ∨ a = .malformed ∨ (∃ fd, a = .fsync fd) ∨
      ∃ data, a = .send data) :
    Holding fds (events ++ [.call a]) := by
  refine h.concat (h.toSmooth.concat (by simp) (by simp) (by simp)) rfl ?_ ?_ (by simp) ?_ ?_
  all_goals rcases ha with rfl | rfl | rfl | ⟨fd, rfl⟩ | ⟨data, rfl⟩ <;> simp [Event.closed]

theorem owes_handle (h : Holding [] events) (l : Locals) : (handle l).Owes events := by
  rw [handle]
  split
  · split
    · rcases sscanfCmdOffset ((cString l.buffer).drop ioctlCmdStr.length) with - | seekto
      · exact owes_finishIoctl (holding_call h (by simp))
      · exact h
    · exact h
  · exact owes_finish h

theorem owes_scan (h : Holding [] events) (l : Locals) : (scan l).Owes events := by
  rw [scan]
  split
  · exact owes_handle h l
  · exact h

theorem owes_received (h : Holding [] events) (l : Locals) (data : List Byte) :
    (received l data).Owes events := by
  rw [received]
  split
  · exact h
  · exact owes_scan h _

/-- **One call** leaves the thread owing what it says it does. -/
theorem Owes.step (h : code.Owes events) (hstep : Step code e code') :
    code'.Owes (events ++ [e]) := by
  -- a call that neither takes nor pays back, and does not fail in a way that matters
  have hplain : ∀ {fds}, Holding fds events → e.opened = none → e.closed = none →
      (∀ a, e ≠ .call a) → (∀ size ok, e ≠ .malloc size ok) → e ≠ .openFilePath none →
      (∀ fd seekto, e ≠ .ioctl fd seekto false) → Holding fds (events ++ [e]) :=
    fun h hopened hclosed hcall hmalloc hopen hioctl ↦
      h.concat (h.toSmooth.concat (hmalloc _ _) hopen hioctl) hopened hclosed (hcall _)
        (hmalloc _ _)
        (hcall _) (hcall _)
  cases hstep with
  | call a next => exact h
  | mallocFails =>
    -- the status is never set
    refine (owes_calls [.closeSocket] .ret _).2 (iff_of_false (fun hfinished ↦ ?_) fun hsmooth ↦ ?_)
    · have hstatus := hfinished.status rfl
      simp [Blank.status h] at hstatus
    · exact hsmooth.malloc (by simp)
  | malloc junk =>
    have hsmooth := (Blank.toSmooth h).concat (e := .malloc 1024 true) (by simp) (by simp) (by simp)
    refine holding_call (a := .lock) ⟨hsmooth, ?_, ?_, ?_, ?_, ?_⟩ (by simp)
    · simp [Blank.socket h]
    · rw [List.filterMap_append, List.filterMap_append, Blank.files h, List.append_nil]
      rfl
    · simp [Blank.buffer h]
    · simp [Blank.free h]
    · simp [Blank.status h]
  | recvNothing l =>
    exact owes_handle (hplain h rfl rfl (by simp) (by simp) (by simp) (by simp)) l
  | recv l data hne hle =>
    exact owes_received (hplain h rfl rfl (by simp) (by simp) (by simp) (by simp)) l data
  | reallocFails l =>
    exact owes_handle (hplain h rfl rfl (by simp) (by simp) (by simp) (by simp)) l
  | realloc l junk hle =>
    exact owes_scan (hplain h rfl rfl (by simp) (by simp) (by simp) (by simp)) _
  | openIoctlFails l seekto =>
    exact owes_finishIoctl (hplain h rfl rfl (by simp) (by simp) (by simp) (by simp))
  | openIoctl l seekto fd =>
    exact Holding.concat_open h (h.toSmooth.concat (by simp) (by simp) (by simp)) (Or.inl rfl)
  | ioctlFails l fd seekto =>
    -- the socket stays open
    refine (owes_calls _ .ret _).2 (iff_of_false (fun hfinished ↦ ?_) fun hsmooth ↦ ?_)
    · have hsocket := hfinished.socket
      simp [Holding.socket h, afterPthreadCreate] at hsocket
    · exact hsmooth.ioctl fd seekto (by simp)
  | ioctl l fd seekto => exact hplain h rfl rfl (by simp) (by simp) (by simp) (by simp)
  | readIoctlEnd l fd =>
    exact owes_finishIoctl
      (hplain h rfl rfl (by simp) (by simp) (by simp) (by simp)).concat_closeFile
  | readIoctl l fd data hne hle =>
    exact holding_call (hplain h rfl rfl (by simp) (by simp) (by simp) (by simp)) (by simp)
  | openWriteFails l =>
    -- the status is never set
    refine (owes_calls _ .ret _).2 (iff_of_false (fun hfinished ↦ ?_) fun hsmooth ↦ ?_)
    · have hstatus := hfinished.status rfl
      simp [Holding.status h] at hstatus
    · exact hsmooth.openFilePath (by simp)
  | openWrite l fd =>
    exact Holding.concat_open h (h.toSmooth.concat (by simp) (by simp) (by simp)) (Or.inr rfl)
  | write l fd =>
    have hwritten := hplain h rfl rfl (by simp) (by simp) (by simp) (by simp)
    have hclosed := (holding_call (a := .fsync fd) hwritten (by simp)).concat_closeFile
    exact holding_call (a := .lock) (holding_call (a := .unlock) hclosed (by simp)) (by simp)
  | openReadFails l =>
    have hplain' := hplain h rfl rfl (by simp) (by simp) (by simp) (by simp)
    exact owes_finish (holding_call (a := .unlock) hplain' (by simp))
  | openRead l fd =>
    exact Holding.concat_open h (h.toSmooth.concat (by simp) (by simp) (by simp)) (Or.inl rfl)
  | readBackEnd l fd =>
    have hclosed := (hplain h rfl rfl (by simp) (by simp) (by simp) (by simp)).concat_closeFile
    exact owes_finish (holding_call (a := .unlock) hclosed (by simp))
  | readBack l fd data hne hle =>
    exact holding_call (hplain h rfl rfl (by simp) (by simp) (by simp) (by simp)) (by simp)

end Code

/-! ### Whole connections -/

/-- The calls of a thread that returned. -/
theorem finished_iff_smooth_of_run {events : List Event} {os : List Outcome}
    (hrun : run Code.step Code.threadfunc os = .ok (events, .ret)) :
    Finished true events ↔ Smooth true events := by
  -- what the thread owes goes along with the calls it has made
  refine history_of_run (I := Code.Owes) (fun events code o e code' h hstep ↦
    h.step (Code.step_cases hstep)) ?_ hrun
  show Blank ([] ++ [.call .logAccepted])
  exact ⟨⟨rfl, by simp, by simp, by simp⟩, by simp, rfl, by simp, by simp, by simp⟩

/-- **A connection is finished properly** exactly when the thread was created, `malloc` and
`open(FILE_PATH)` did not fail, and no `ioctl` returned -1: the socket and all files are closed
once, the buffer is freed once, and the status is set. -/
theorem finished_iff_smooth (created : Bool) (events : List Event) (h : Ended created events) :
    Finished created events ↔ Smooth created events := by
  cases created with
  | true =>
    obtain ⟨os, hrun⟩ := h
    exact finished_iff_smooth_of_run hrun
  | false =>
    -- nobody closes the socket
    obtain rfl : events = [] := h
    exact iff_of_false (fun hfinished ↦ absurd hfinished.socket (by decide))
      fun hsmooth ↦ absurd hsmooth.created (by decide)

/-- A short line goes well. -/
theorem finished_iff_smooth_short_line :
    let events : List Event := [.call .logAccepted, .malloc 1024 true, .call .lock,
      .recv 1023 [97, newline], .openFilePath (some 3), .write 3 [97, newline], .call (.fsync 3),
      .call (.closeFile 3), .call .unlock, .call .lock, .openDevice (some 3), .read 3 1024 [],
      .call (.closeFile 3), .call .unlock, .call .logClosed, .call .closeSocket, .call .free,
      .call .setStatus]
    Finished true events ↔ Smooth true events := by
  intro events
  exact finished_iff_smooth true events
    ⟨List.replicate 18 (.granting [97, newline]), by decide +kernel⟩

/-- A command that the device refuses leaves the socket open; a request for which `FILE_PATH` cannot
be opened leaves the status unset. -/
theorem refused_command_and_failed_open_not_finished :
    let command : List Byte := ioctlCmdStr ++ [57, 44, 48, newline]
    let refused : List Event := [.call .logAccepted, .malloc 1024 true, .call .lock,
      .recv 1023 command, .openDevice (some 3), .ioctl 3 ⟨9, 0⟩ false, .call (.closeFile 3),
      .call .unlock, .call .free, .call .unlock, .call .setStatus]
    let failed : List Event := [.call .logAccepted, .malloc 1024 true, .call .lock,
      .recv 1023 [97, newline], .openFilePath none, .call .closeSocket, .call .free, .call .unlock]
    Ended true refused ∧ ¬ Finished true refused ∧ Ended true failed ∧ ¬ Finished true failed := by
  intro command refused failed
  refine ⟨⟨List.replicate 11 { Outcome.granting command with ioctl := false }, by decide +kernel⟩,
    fun h ↦ absurd h.socket (by decide +kernel),
    ⟨List.replicate 8 { Outcome.granting [97, newline] with fd := none }, by decide +kernel⟩,
    fun h ↦ absurd (h.status rfl) (by decide +kernel)⟩

end Aesd
