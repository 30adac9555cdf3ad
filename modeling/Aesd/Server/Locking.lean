import Aesd.Server.Receive

/-!
# The mutex of the server

`threadfunc` locks and unlocks `aesdsocket_mutex` in pairs, except on two paths. If the first `recv`
delivers nothing, the thread returns with the mutex held; if `ioctl` returns -1, it unlocks twice.
A run without either is `Benign`, and that is the exact condition for a thread that has returned to
have kept the discipline (`returned_iff_benign`).

As long as every thread is benign, a thread holds the mutex exactly if it believes so, and none that
has returned does (`lock_discipline_iff_benign`): the library's rule for disciplined processes.
-/

namespace Aesd

open MutualExclusion Execution Code

/-- The first `recv`, if any, delivers something, and no `ioctl` returns -1. -/
def Benign (events : List Event) : Prop :=
  (events.filterMap Event.delivered).head? ≠ some [] ∧
    ∀ fd seekto, .ioctl fd seekto false ∉ events

/-- Whether the thread holds the mutex there, if it keeps the discipline. -/
def Code.holds : Code → Bool
  | .call .lock _ => false
  | .call .unlock _ => true
  | .call _ next => next.holds
  | .malloc | .ret => false
  | _ => true

/-- The calls that come next lock only what is not held and unlock only what is. -/
def Code.Disciplined : Code → Prop
  | .call a next =>
    Role.after (Code.call a next).holds (Event.call a).role = some next.holds ∧ next.Disciplined
  | _ => True

namespace Benign

variable {events : List Event} {e : Event}

theorem of_concat (h : Benign (events ++ [e])) : Benign events := by
  obtain ⟨hrecv, hioctl⟩ := h
  refine ⟨fun hhead ↦ hrecv ?_, fun fd seekto hmem ↦ hioctl fd seekto ?_⟩
  · rw [List.filterMap_append, List.head?_append, hhead]
    rfl
  · exact List.mem_append_left _ hmem

/-- A benign thread that has received no bytes has not called `recv`. -/
theorem filterMap_eq_nil (h : Benign events) (hnil : receivedBytes events = []) :
    events.filterMap Event.delivered = [] := by
  rcases hdata : events.filterMap Event.delivered with - | ⟨d, ds⟩
  · rfl
  · have hne := h.1
    rw [receivedBytes, hdata, List.flatten_cons, List.append_eq_nil_iff] at hnil
    rw [hdata, List.head?_cons, hnil.1] at hne
    exact absurd rfl hne

theorem concat (h : Benign events)
    (hrecv : e.delivered = some [] → receivedBytes events ≠ [])
    (hioctl : ∀ fd seekto, e ≠ .ioctl fd seekto false) : Benign (events ++ [e]) := by
  refine ⟨fun hhead ↦ ?_, fun fd seekto hmem ↦ ?_⟩
  · rw [List.filterMap_append, List.head?_append] at hhead
    rcases hfirst : (events.filterMap Event.delivered).head? with - | d
    · rw [hfirst, Option.none_or] at hhead
      have hnil : receivedBytes events = [] := by
        rw [receivedBytes, List.head?_eq_none_iff.1 hfirst, List.flatten_nil]
      refine hrecv ?_ hnil
      rcases hdata : e.delivered with - | data
      · simp [hdata] at hhead
      · simpa [hdata] using hhead
    · rw [hfirst, Option.some_or, Option.some.injEq] at hhead
      exact h.1 (hhead ▸ hfirst)
  · rcases List.mem_append.1 hmem with hold | hnew
    · exact h.2 fd seekto hold
    · exact hioctl fd seekto (List.mem_singleton.1 hnew).symm

end Benign

/-! ### The thread alone -/

section Thread

variable {l : Locals} {got : List Byte} {code code' : Code} {e : Event} {events : List Event}

theorem disciplined_finish : finish.Disciplined ∧ finish.holds = false :=
  ⟨⟨rfl, rfl, rfl, rfl, trivial⟩, rfl⟩

theorem disciplined_finishIoctl : finishIoctl.Disciplined ∧ finishIoctl.holds = true :=
  ⟨⟨rfl, rfl, rfl, rfl, rfl, trivial⟩, rfl⟩

theorem disciplined_handle (h : l.Contains got) (hne : got ≠ []) :
    (handle l).Disciplined ∧ (handle l).holds = true := by
  rw [h.handle_eq hne]
  split
  · rcases sscanfCmdOffset ((cString got).drop ioctlCmdStr.length) with - | seekto
    · exact ⟨⟨rfl, disciplined_finishIoctl.1⟩, rfl⟩
    · exact ⟨trivial, rfl⟩
  · exact ⟨trivial, rfl⟩

theorem disciplined_scan (h : l.Contains got) (hne : got ≠ []) :
    (scan l).Disciplined ∧ (scan l).holds = true := by
  rw [h.scan_eq hne]
  split
  · exact disciplined_handle h hne
  · exact ⟨trivial, rfl⟩

/-- **One call of a benign thread** is allowed, and the thread knows whether it holds the mutex
after it. -/
theorem Code.Disciplined.step (h : code.Disciplined) (htracks : code.Tracks got)
    (hstep : Step code e code') (hrecv : e.delivered = some [] → got ≠ [])
    (hioctl : ∀ fd seekto, e ≠ .ioctl fd seekto false) :
    Role.after code.holds e.role = some code'.holds ∧ code'.Disciplined := by
  cases hstep with
  | call e next => exact h
  | mallocFails => exact ⟨rfl, rfl, trivial⟩
  | malloc junk => exact ⟨rfl, rfl, trivial⟩
  | recvNothing l =>
    obtain ⟨hdisciplined, hholds⟩ :=
      disciplined_handle (Locals.Ready.toContains htracks) (hrecv rfl)
    exact ⟨by rw [hholds]; rfl, hdisciplined⟩
  | recv l data hne hle =>
    obtain ⟨l', -, ⟨hcode, hready⟩ | ⟨hcode, hfull⟩⟩ := Locals.Ready.received htracks hne hle
    · obtain ⟨hdisciplined, hholds⟩ := disciplined_scan hready.toContains
        (List.append_ne_nil_of_right_ne_nil got hne)
      rw [hcode]
      exact ⟨by rw [hholds]; rfl, hdisciplined⟩
    · rw [hcode]
      exact ⟨rfl, trivial⟩
  | reallocFails l =>
    obtain ⟨hdisciplined, hholds⟩ :=
      disciplined_handle (Locals.Full.toContains htracks) (Locals.Full.ne_nil htracks)
    exact ⟨by rw [hholds]; rfl, hdisciplined⟩
  | realloc l junk hle =>
    obtain ⟨hdisciplined, hholds⟩ := disciplined_scan
      (Locals.Full.realloc htracks hle junk).toContains (Locals.Full.ne_nil htracks)
    exact ⟨by rw [hholds]; rfl, hdisciplined⟩
  | openIoctlFails l seekto => exact ⟨rfl, disciplined_finishIoctl.1⟩
  | openIoctl l seekto fd => exact ⟨rfl, trivial⟩
  | ioctlFails l fd seekto => exact absurd rfl (hioctl fd seekto)
  | ioctl l fd seekto => exact ⟨rfl, trivial⟩
  | readIoctlEnd l fd => exact ⟨rfl, rfl, disciplined_finishIoctl.1⟩
  | readIoctl l fd data hne hle => exact ⟨rfl, rfl, trivial⟩
  | openWriteFails l => exact ⟨rfl, rfl, rfl, rfl, trivial⟩
  | openWrite l fd => exact ⟨rfl, trivial⟩
  | write l fd => exact ⟨rfl, rfl, rfl, rfl, rfl, trivial⟩
  | openReadFails l => exact ⟨rfl, rfl, disciplined_finish.1⟩
  | openRead l fd => exact ⟨rfl, trivial⟩
  | readBackEnd l fd => exact ⟨rfl, rfl, rfl, disciplined_finish.1⟩
  | readBack l fd data hne hle => exact ⟨rfl, rfl, trivial⟩

/-- Where a run stands: it is benign so far and the thread is disciplined, or it is not benign and
the calls that are left until the return do not make up for it. -/
def Standing (events : List Event) (code : Code) : Prop :=
  (Benign events ∧ code.Disciplined ∧ holding (events.map Event.role) = some code.holds) ∨
    (¬ Benign events ∧ ∃ acts, code = calls acts .ret ∧
      holding ((events ++ acts.map Event.call).map Event.role) ≠ some false)

/-- Returning from a first `recv` that delivered nothing: the mutex stays held. -/
theorem standing_recvNothing (hbenign : Benign events)
    (hholds : holding (events.map Event.role) = some true) (hnil : receivedBytes events = [])
    (asked : ℕ) : Standing (events ++ [.recv asked []]) finish := by
  refine Or.inr ⟨fun hnext ↦ hnext.1 ?_, [.logClosed, .closeSocket, .free, .setStatus], rfl, ?_⟩
  · rw [List.filterMap_append, hbenign.filterMap_eq_nil hnil]
    rfl
  · rw [List.append_assoc, List.map_append, holding_append, hholds]
    simp [Event.role, Role.after]

/-- Returning from an `ioctl` that failed: the mutex is unlocked twice. -/
theorem standing_ioctlFails (hholds : holding (events.map Event.role) = some true) (fd : ℕ)
    (seekto : AesdSeekto) :
    Standing (events ++ [.ioctl fd seekto false])
      (calls [.closeFile fd, .unlock, .free, .unlock, .setStatus] .ret) := by
  refine Or.inr ⟨fun hnext ↦ hnext.2 fd seekto (by simp), _, rfl, ?_⟩
  rw [List.append_assoc, List.map_append, holding_append, hholds]
  simp [Event.role, Role.after]

theorem Standing.step (h : Standing events code) (htracks : code.Tracks (receivedBytes events))
    (hstep : Step code e code') : Standing (events ++ [e]) code' := by
  obtain ⟨hbenign, hdisciplined, hholds⟩ | ⟨hbad, acts, rfl, hleft⟩ := h
  · -- a benign thread leaves the path in two places
    have hgood : (e.delivered = some [] → receivedBytes events ≠ []) →
        (∀ fd seekto, e ≠ .ioctl fd seekto false) → Standing (events ++ [e]) code' := by
      intro hrecv hioctl
      obtain ⟨hafter, hnext⟩ := hdisciplined.step htracks hstep hrecv hioctl
      refine Or.inl ⟨hbenign.concat hrecv hioctl, hnext, ?_⟩
      rw [List.map_append, List.map_singleton, holding_concat, hholds, Option.bind_some, hafter]
    cases hstep with
    | recvNothing l =>
      rcases Decidable.em (receivedBytes events = []) with hnil | hne
      · have htotal : l.totalReceived = 0 := by
          rw [htracks.total, hnil]
          rfl
        rw [Locals.handle_of_total_eq_zero htotal]
        exact standing_recvNothing hbenign hholds hnil _
      · exact hgood (fun _ ↦ hne) (by simp)
    | ioctlFails l fd seekto => exact standing_ioctlFails hholds fd seekto
    | recv l data hne hle => exact hgood (fun hdata ↦ absurd (Option.some.inj hdata) hne) (by simp)
    | _ => exact hgood (by simp [Event.delivered]) (by simp)
  · rcases acts with - | ⟨a, acts⟩
    · cases hstep
    · cases hstep with
      | call =>
        refine Or.inr ⟨fun hnext ↦ hbad hnext.of_concat, acts, rfl, ?_⟩
        rwa [List.append_assoc, List.singleton_append]

theorem standing_of_run {os : List Outcome}
    (h : run Code.step threadfunc os = .ok (events, code)) : Standing events code := by
  have hinit : threadfunc.Tracks (receivedBytes []) ∧ Standing [] threadfunc :=
    ⟨rfl, Or.inl ⟨⟨by simp, by simp⟩, ⟨rfl, trivial⟩, rfl⟩⟩
  have hboth := history_of_run
    (I := fun events code ↦ code.Tracks (receivedBytes events) ∧ Standing events code)
    (fun events code o e code' ⟨htracks, hstanding⟩ hstep ↦ by
      refine ⟨?_, hstanding.step htracks (step_cases hstep)⟩
      rw [receivedBytes_concat]
      exact htracks.step hstep) hinit h
  exact hboth.2

/-- A benign thread knows whether it holds the mutex. -/
theorem holding_of_benign {os : List Outcome}
    (h : run Code.step threadfunc os = .ok (events, code)) (hbenign : Benign events) :
    holding (events.map Event.role) = some code.holds := by
  obtain ⟨-, -, hholds⟩ | ⟨hbad, -⟩ := standing_of_run h
  · exact hholds
  · exact absurd hbenign hbad

/-- A thread that has returned kept the discipline exactly when it was benign. -/
theorem returned_iff_benign {os : List Outcome}
    (h : run Code.step threadfunc os = .ok (events, .ret)) :
    holding (events.map Event.role) = some false ↔ Benign events := by
  refine ⟨fun hfree ↦ ?_, holding_of_benign h⟩
  obtain ⟨hbenign, -⟩ | ⟨-, acts, hret, hleft⟩ := standing_of_run h
  · exact hbenign
  · rcases acts with - | ⟨a, acts⟩
    · rw [List.map_nil, List.append_nil] at hleft
      exact absurd hfree hleft
    · exact absurd hret Code.noConfusion

end Thread

/-! ### All threads -/

/-- Every connection has its thread; none has taken a step. -/
def startThreads : Shared Unit Code :=
  ⟨(), none, fun _ ↦ threadfunc⟩

/-- **The lock discipline of the server.** A thread that has returned unlocked the mutex only while
it held it, and does not hold it, if and only if its run was benign. In any interleaving of any
number of threads whose runs are benign so far, no thread has locked the mutex while it held it or
unlocked it while it did not, a thread holds the mutex exactly if it believes so, and a thread that
has returned does not. -/
theorem lock_discipline_iff_benign (os : List Outcome) (events : List Event)
    (xs : List (ℕ × Outcome)) (trace : List (ℕ × Event)) (w : Shared Unit Code) :
    (run Code.step threadfunc os = .ok (events, .ret) →
      (holding (events.map Event.role) = some false ↔ Benign events)) ∧
    (run (MutualExclusion.step (solo Code.step) Event.role Stop.blocked) startThreads xs =
        .ok (trace, w) → (∀ i, Benign (own i trace)) →
      ∀ i, holding ((own i trace).map Event.role) = some (decide (w.owner = some i)) ∧
        (w.proc i = .ret → w.owner ≠ some i)) := by
  refine ⟨returned_iff_benign, fun h hbenign ↦ ?_⟩
  have hholds : ∀ i, holding ((own i trace).map Event.role) = some (w.proc i).holds :=
    fun i ↦ holding_of_benign (run_own h i) (hbenign i)
  have hbelieves := holding_own rfl h fun i ↦ by
    rw [hholds i]
    exact Option.some_ne_none _
  refine fun i ↦ ⟨hbelieves i, fun hret howner ↦ ?_⟩
  have hself := (hholds i).symm.trans (hbelieves i)
  rw [hret, howner] at hself
  simp [Code.holds] at hself

/-- One thread handles a line up to its return; of two threads that take turns, the second gets the
mutex. -/
theorem lock_discipline_iff_benign_one_line :
    let events : List Event := [.call .logAccepted, .malloc 1024 true, .call .lock,
      .recv 1023 [97, newline], .openFilePath (some 3), .write 3 [97, newline], .call (.fsync 3),
      .call (.closeFile 3), .call .unlock, .call .lock, .openDevice (some 3), .read 3 1024 [],
      .call (.closeFile 3), .call .unlock, .call .logClosed, .call .closeSocket, .call .free,
      .call .setStatus]
    (holding (events.map Event.role) = some false ↔ Benign events) ∧
    ∃ trace w, run (MutualExclusion.step (solo Code.step) Event.role Stop.blocked) startThreads
        [(0, .granting []), (1, .granting []), (1, .granting []), (1, .granting [])] =
          .ok (trace, w) ∧
      holding ((own 1 trace).map Event.role) = some (decide (w.owner = some 1)) := by
  intro events
  have hrun : run (MutualExclusion.step (solo Code.step) Event.role Stop.blocked) startThreads
      [(0, .granting []), (1, .granting []), (1, .granting []), (1, .granting [])] =
        .ok ([(0, .call .logAccepted), (1, .call .logAccepted), (1, .malloc 1024 true),
          (1, .call .lock)], _) := rfl
  obtain ⟨hreturned, hall⟩ := lock_discipline_iff_benign
    (List.replicate 18 (.granting [97, newline])) events _ _ _
  refine ⟨hreturned (by decide +kernel), _, _, hrun, (hall hrun fun i ↦ ?_) 1 |>.1⟩
  rcases i with - | - | i <;> exact ⟨by simp [own, Event.delivered, List.findSome?], by simp [own]⟩

/-- A client that closes at once leaves the mutex held; a seek that fails unlocks it twice. -/
theorem early_close_holds_and_failed_seek_unlocks_twice :
    let closing : List Event := [.call .logAccepted, .malloc 1024 true, .call .lock, .recv 1023 [],
      .call .logClosed, .call .closeSocket, .call .free, .call .setStatus]
    let seeking : List Event := [.call .logAccepted, .malloc 1024 true, .call .lock,
      .recv 1023 (ioctlCmdStr ++ [57, 44, 48, newline]), .openDevice (some 3),
      .ioctl 3 ⟨9, 0⟩ false, .call (.closeFile 3), .call .unlock, .call .free, .call .unlock,
      .call .setStatus]
    run Code.step threadfunc (List.replicate 8 (.granting [])) = .ok (closing, .ret) ∧
      holding (closing.map Event.role) = some true ∧
      run Code.step threadfunc (List.replicate 11
          { Outcome.granting (ioctlCmdStr ++ [57, 44, 48, newline]) with ioctl := false }) =
        .ok (seeking, .ret) ∧
      holding (seeking.map Event.role) = none := by
  decide +kernel

end Aesd
