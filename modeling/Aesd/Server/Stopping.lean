import Aesd.Server.Receive

/-!
# Where the receive loop stops

The loop has to stop with the first `recv` that completes a request: the bytes received so far
have a newline or begin with `IOCTL_CMD_STR`, or nothing was delivered (`MustStop`). Its test
reads the buffer as a C string, so a newline behind a NUL is not seen (`NewlineSeen`), and the
thread asks for more while it holds the mutex.

With no NUL before the first newline the loop stops where it has to, with exactly the received
bytes in the buffer; with a NUL there it does not (`stops_in_time_iff_newlineSeen`). What has been
seen of the bytes received so far is seen of any part of them as well (`NewlineSeen.of_append`),
so that the bytes at the end of a run decide about all of it.
-/

namespace Aesd

open Memory Execution

/-- What the successive `recv` calls delivered; nothing stands for 0 and for -1. -/
def deliveries (events : List Event) : List (List Byte) :=
  events.filterMap Event.delivered

/-- The request is complete, or `recv` has delivered nothing. -/
def MustStop (events : List Event) : Prop :=
  newline ∈ receivedBytes events ∨ ioctlCmdStr <+: receivedBytes events ∨ [] ∈ deliveries events

/-- No NUL stands before the first newline, unless the bytes begin a command for the device. -/
def NewlineSeen (got : List Byte) : Prop :=
  newline ∈ got → newline ∈ cString got ∨ ioctlCmdStr <+: got

/-- No allocation fails. -/
structure Allocates (events : List Event) : Prop where
  malloc : ∀ size, .malloc size false ∉ events
  realloc : ∀ size, .realloc size false ∉ events

namespace Code

/-- The thread is in its receive loop. -/
def InLoop (code : Code) : Prop :=
  ∃ l, code = recv l ∨ code = realloc l

end Code

/-- In this state the loop does not go on too long, and if the next call leaves it, whatever it
answers, that is not too early, and the thread goes on with the received bytes in the buffer. -/
structure StopsProperly (events : List Event) (code : Code) : Prop where
  waits : ∀ l, code = .recv l → ¬ MustStop events
  ends : code.InLoop → ∀ o e code', code.step o = .ok (e, code') → ¬ code'.InLoop →
    (∀ size, e ≠ .realloc size false) →
    MustStop (events ++ [e]) ∧
      ∃ l, code' = .handle l ∧ l.buffer.take l.totalReceived = receivedBytes (events ++ [e])

/-- The loop stops in time in the run with these outcomes: properly in every state on the way. -/
def StopsInTime (os : List Outcome) : Prop :=
  ∀ os₁ events code, os₁ <+: os → run Code.step Code.threadfunc os₁ = .ok (events, code) →
    StopsProperly events code

/-! ### What is seen -/

section Seen

variable {got data : List Byte}

theorem NewlineSeen.of_stops (h : newline ∈ cString got ∨ ioctlCmdStr <+: cString got) :
    NewlineSeen got :=
  fun _ ↦ h.imp_right ioctlCmdStr_isPrefix_iff.1

/-- **A newline that is not seen stays unseen**, whatever follows. -/
theorem NewlineSeen.of_append (h : NewlineSeen (got ++ data)) : NewlineSeen got := by
  intro hmem
  rcases h (List.mem_append_left _ hmem) with hseen | hstart
  · rw [cString, List.takeWhile_append] at hseen
    split at hseen
    · rename_i hall
      have hself : cString got = got := (List.takeWhile_prefix _).eq_of_length hall
      rw [hself]
      exact Or.inl hmem
    · exact Or.inl hseen
  · rcases Nat.lt_or_ge got.length ioctlCmdStr.length with hlt | hge
    · -- the bytes are part of `IOCTL_CMD_STR`, which has no newline
      have hpart : got <+: ioctlCmdStr :=
        List.prefix_of_prefix_length_le (List.prefix_append ..) hstart (Nat.le_of_lt hlt)
      exact absurd (hpart.subset hmem) (by decide)
    · exact Or.inr (List.prefix_of_prefix_length_le hstart (List.prefix_append ..) hge)

end Seen

theorem deliveries_concat (events : List Event) (e : Event) :
    deliveries (events ++ [e]) = deliveries events ++ e.delivered.toList := by
  rw [deliveries, List.filterMap_append]
  rcases hdata : e.delivered with - | data <;> simp [hdata, deliveries]

/-! ### Where the loop stands -/

namespace Code

/-- In the loop, nothing that its test sees has been received, and every `recv` delivered
something. -/
def Looping (ds : List (List Byte)) : Code → Prop
  | .call _ next => next.Looping ds
  | .malloc => ds = []
  | .recv l =>
    l.Ready ds.flatten ∧ [] ∉ ds ∧
      ¬ (newline ∈ cString ds.flatten ∨ ioctlCmdStr <+: cString ds.flatten)
  | .realloc l => l.Full ds.flatten ∧ [] ∉ ds
  | _ => True

variable {l : Locals} {ds : List (List Byte)} {code code' : Code} {e : Event}

theorem looping_handle (l : Locals) (ds : List (List Byte)) : (handle l).Looping ds := by
  rw [handle]
  split
  · split
    · rcases sscanfCmdOffset ((cString l.buffer).drop ioctlCmdStr.length) with - | seekto
      · exact trivial
      · exact trivial
    · exact trivial
  · exact trivial

theorem looping_scan (h : l.Ready ds.flatten) (hne : ds.flatten ≠ []) (hds : [] ∉ ds) :
    (scan l).Looping ds := by
  rw [h.toContains.scan_eq hne]
  split
  · exact looping_handle l ds
  · rename_i hgoes
    exact ⟨h, hds, hgoes⟩

/-- **One call.** -/
theorem Looping.step (h : code.Looping ds) (hstep : Step code e code') :
    code'.Looping (ds ++ e.delivered.toList) := by
  -- only `recv` delivers anything
  have hself : ∀ {next : Code}, next.Looping ds → next.Looping (ds ++ []) := fun h ↦ by
    rwa [List.append_nil]
  cases hstep with
  | call a next => exact hself h
  | malloc junk =>
    obtain rfl : ds = [] := h
    exact ⟨Locals.Ready.init junk, by simp [Event.delivered], by decide⟩
  | recvNothing l => exact looping_handle l _
  | recv l data hne hle =>
    obtain ⟨hready, hds, -⟩ := h
    have hflatten : (ds ++ [data]).flatten = ds.flatten ++ data := by simp
    have hne' : (ds ++ [data]).flatten ≠ [] := by
      rw [hflatten]
      exact List.append_ne_nil_of_right_ne_nil _ hne
    have hds' : [] ∉ ds ++ [data] := by
      rw [List.mem_append, List.mem_singleton]
      exact fun hmem ↦ hmem.elim hds fun heq ↦ hne heq.symm
    show (received l data).Looping (ds ++ [data])
    obtain ⟨l', -, ⟨hcode, hnext⟩ | ⟨hcode, hnext⟩⟩ := hready.received hne hle
    · rw [hcode]
      exact looping_scan (hflatten ▸ hnext) hne' hds'
    · rw [hcode]
      exact ⟨hflatten ▸ hnext, hds'⟩
  | reallocFails l => exact looping_handle l _
  | realloc l junk hle => exact hself (looping_scan (h.1.realloc hle junk) h.1.ne_nil h.2)
  | _ => exact hself trivial

/-- **In every run** the loop stands there. -/
theorem looping_of_run {os : List Outcome} {events : List Event} {code : Code}
    (h : run Code.step threadfunc os = .ok (events, code)) : code.Looping (deliveries events) := by
  refine history_of_run (I := fun events code ↦ code.Looping (deliveries events))
    (fun events code o e code' hI hstep ↦ ?_) rfl h
  rw [deliveries_concat]
  exact hI.step (step_cases hstep)

/-- Where the test at the end of the body ends the loop, it has seen that the request is
complete. -/
theorem eq_handle_of_scan {got : List Byte} (h : l.Contains got) (hne : got ≠ [])
    (hout : ¬ (scan l).InLoop) :
    scan l = handle l ∧ (newline ∈ cString got ∨ ioctlCmdStr <+: cString got) := by
  rw [h.scan_eq hne] at hout ⊢
  split at hout
  · rename_i hstops
    exact ⟨if_pos hstops, hstops⟩
  · exact absurd ⟨l, Or.inl rfl⟩ hout

/-- **Where the loop ends**, unless with a `realloc` that failed, the buffer holds what has been
received, and either `recv` delivered nothing or the test sees that the request is complete. -/
theorem Looping.ends {events : List Event} (h : code.Looping (deliveries events))
    (hloop : code.InLoop) (hstep : Step code e code') (hout : ¬ code'.InLoop)
    (hgranted : ∀ size, e ≠ .realloc size false) :
    ∃ l, code' = handle l ∧ l.Contains (receivedBytes (events ++ [e])) ∧
      (e.delivered = some [] ∨ newline ∈ cString (receivedBytes (events ++ [e])) ∨
        ioctlCmdStr <+: cString (receivedBytes (events ++ [e]))) := by
  obtain ⟨l, rfl | rfl⟩ := hloop
  · have hready : l.Ready (receivedBytes events) := h.1
    cases hstep with
    | recvNothing =>
      rw [receivedBytes_concat, Event.delivered, Option.getD_some, List.append_nil]
      exact ⟨l, rfl, hready.toContains, Or.inl rfl⟩
    | recv _ data hne hle =>
      rw [receivedBytes_concat, Event.delivered, Option.getD_some]
      obtain ⟨l', -, ⟨hcode, hnext⟩ | ⟨hcode, -⟩⟩ := hready.received hne hle
      · rw [hcode] at hout ⊢
        have hne' := List.append_ne_nil_of_right_ne_nil (receivedBytes events) hne
        obtain ⟨hhandle, hstops⟩ := eq_handle_of_scan hnext.toContains hne' hout
        exact ⟨l', hhandle, hnext.toContains, Or.inr hstops⟩
      · -- the buffer is full, and the loop goes on with `realloc`
        exact absurd ⟨l', Or.inr hcode⟩ hout
  · obtain ⟨hfull, -⟩ := h
    cases hstep with
    | reallocFails => exact absurd rfl (hgranted l.bufferSize)
    | realloc _ junk hle =>
      have hready := hfull.realloc hle junk
      rw [receivedBytes_concat_of_none events rfl]
      obtain ⟨hhandle, hstops⟩ := eq_handle_of_scan hready.toContains hfull.ne_nil hout
      exact ⟨_, hhandle, hready.toContains, Or.inr hstops⟩

/-- With the newline seen, the loop stops properly. -/
theorem Looping.stopsProperly {events : List Event} (h : code.Looping (deliveries events))
    (hseen : NewlineSeen (receivedBytes events)) : StopsProperly events code where
  waits l hcode hmust := by
    subst hcode
    obtain ⟨-, hnonempty, hgoes⟩ := h
    rcases hmust with hnewline | hstart | hnothing
    · exact hgoes ((hseen hnewline).imp_right ioctlCmdStr_isPrefix_iff.2)
    · exact hgoes (Or.inr (ioctlCmdStr_isPrefix_iff.2 hstart))
    · exact hnonempty hnothing
  ends hloop o e code' hstep hout hgranted := by
    obtain ⟨l, hhandle, hcontains, hwhy⟩ := h.ends hloop (step_cases hstep) hout hgranted
    refine ⟨?_, l, hhandle, hcontains.take_eq⟩
    rcases hwhy with hnothing | hnewline | hstart
    · refine Or.inr (Or.inr ?_)
      rw [deliveries_concat, hnothing]
      exact List.mem_append_right _ (List.mem_singleton_self _)
    · exact Or.inl ((List.takeWhile_prefix _).subset hnewline)
    · exact Or.inr (Or.inl (ioctlCmdStr_isPrefix_iff.1 hstart))

end Code

/-! ### Whole runs -/

theorem Allocates.of_concat {events : List Event} {e : Event} (h : Allocates (events ++ [e])) :
    Allocates events ∧ ∀ size, e ≠ .realloc size false :=
  ⟨⟨fun size hmem ↦ h.malloc size (List.mem_append_left _ hmem),
      fun size hmem ↦ h.realloc size (List.mem_append_left _ hmem)⟩,
    fun size he ↦ h.realloc size (he ▸ List.mem_append_right _ (List.mem_singleton_self _))⟩

/-- A loop that stops in time has seen every newline when it asks for more and when it is over. -/
theorem StopsInTime.newlineSeen {os : List Outcome} (h : StopsInTime os) {events : List Event}
    {code : Code} (hrun : run Code.step Code.threadfunc os = .ok (events, code))
    (hgranted : Allocates events) (hcode : ∀ l, code ≠ .realloc l) :
    NewlineSeen (receivedBytes events) := by
  induction os using List.reverseRecOn generalizing events code with
  | nil =>
    obtain ⟨rfl, -⟩ := Prod.mk.inj (Except.ok.inj hrun)
    exact fun hmem ↦ absurd hmem (List.not_mem_nil)
  | append_singleton os o ih =>
    have hproper := h _ events code (List.prefix_refl _) hrun
    obtain ⟨events₁, code₁, es, hrun₁, hlast, rfl⟩ := run_append_eq_ok_iff.1 hrun
    obtain ⟨e, code₂, rs, hstep, hnil, rfl⟩ := run_cons_eq_ok_iff.1 hlast
    obtain ⟨rfl, rfl⟩ := Prod.mk.inj (Except.ok.inj hnil)
    obtain ⟨hgranted₁, he⟩ := hgranted.of_concat
    have hbefore := ih (fun os₁ events₁ code₁ hos ↦
      h os₁ events₁ code₁ (hos.trans (List.prefix_append _ _))) hrun₁ hgranted₁
    rcases Classical.em (∃ l, code₂ = .recv l) with ⟨l, rfl⟩ | hout
    · -- the loop asks for more, so there is no newline
      exact fun hmem ↦ absurd (Or.inl hmem) (hproper.waits l rfl)
    · have hout' : ¬ code₂.InLoop := fun ⟨l, hl⟩ ↦ hl.elim (fun h ↦ hout ⟨l, h⟩) (hcode l)
      have hquiet : e.delivered = none ∨ e.delivered = some [] → (∀ l, code₁ ≠ .realloc l) →
          NewlineSeen (receivedBytes (events₁ ++ [e])) := by
        intro hnothing hcode₁
        rcases hnothing with hnone | hnothing
        · rw [receivedBytes_concat_of_none events₁ hnone]
          exact hbefore hcode₁
        · rw [receivedBytes_concat, hnothing, Option.getD_some, List.append_nil]
          exact hbefore hcode₁
      rcases Classical.em code₁.InLoop with hloop | hother
      · -- the call has ended the loop
        obtain ⟨-, -, -, hnothing | hstops⟩ :=
          (Code.looping_of_run hrun₁).ends hloop (Code.step_cases hstep) hout' he
        · refine hquiet (Or.inr hnothing) fun l₁ hl₁ ↦ ?_
          subst hl₁
          rw [Code.delivered_eq_none (Code.step_cases hstep) (by simp)] at hnothing
          exact absurd hnothing (by simp)
        · exact NewlineSeen.of_stops hstops
      · exact hquiet
          (Or.inl (Code.delivered_eq_none (Code.step_cases hstep) fun l hl ↦ hother ⟨l, Or.inl hl⟩))
          fun l hl ↦ hother ⟨l, Or.inr hl⟩

/-- **The receive loop stops in time exactly when it sees the newline.** In every run in which no
NUL stands before the first newline received, or the bytes begin a command for the device, the
loop never asks for more than it must, and ends in time with the received bytes in the buffer. In
every other run, and in all states but the one in which the buffer is about to grow, it did
not. -/
theorem stops_in_time_iff_newlineSeen (os : List Outcome) (events : List Event) (code : Code)
    (hrun : run Code.step Code.threadfunc os = .ok (events, code)) :
    (NewlineSeen (receivedBytes events) → StopsInTime os) ∧
    (Allocates events → (∀ l, code ≠ .realloc l) →
      (StopsInTime os ↔ NewlineSeen (receivedBytes events))) := by
  have hforward : NewlineSeen (receivedBytes events) → StopsInTime os := by
    rintro hseen os₁ events₁ code₁ ⟨rest, rfl⟩ hrun₁
    obtain ⟨events₂, code₂, rs, hrun₂, -, rfl⟩ := run_append_eq_ok_iff.1 hrun
    obtain ⟨rfl, rfl⟩ := Prod.mk.inj (Except.ok.inj (hrun₁.symm.trans hrun₂))
    -- the newline was seen then as well
    obtain ⟨data, hdata⟩ := receivedBytes_isPrefix (List.prefix_append events₁ rs)
    rw [← hdata] at hseen
    exact (Code.looping_of_run hrun₁).stopsProperly hseen.of_append
  exact ⟨hforward, fun hgranted hcode ↦
    ⟨fun htime ↦ htime.newlineSeen hrun hgranted hcode, hforward⟩⟩

/-- A line in two pieces. -/
theorem stops_in_time_iff_newlineSeen_two_pieces :
    let os : List Outcome := List.replicate 4 (.granting [97]) ++ [.granting [98, newline]]
    StopsInTime os ↔ NewlineSeen [97, 98, newline] := by
  intro os
  let events : List Event := [.call .logAccepted, .malloc 1024 true, .call .lock, .recv 1023 [97],
    .recv 1022 [98, newline]]
  have hrun : run Code.step Code.threadfunc os = .ok (events,
      .openWrite ⟨[97, 98, newline] ++ List.replicate 1021 0, 1024, 3⟩) := by
    decide +kernel
  exact (stops_in_time_iff_newlineSeen os events _ hrun).2 ⟨by simp [events], by simp [events]⟩
    fun l h ↦ Code.noConfusion h

/-- A NUL hides the newline behind it: the thread asks for more. -/
theorem newline_behind_nul_missed :
    ¬ StopsInTime (List.replicate 4 (.granting [0, newline])) := by
  intro h
  have hrun : run Code.step Code.threadfunc (List.replicate 4 (.granting [0, newline])) =
      .ok ([.call .logAccepted, .malloc 1024 true, .call .lock, .recv 1023 [0, newline]],
        .recv ⟨[0, newline] ++ List.replicate 1022 0, 1024, 2⟩) := by
    decide +kernel
  exact (h _ _ _ (List.prefix_refl _) hrun).waits _ rfl (Or.inl (by decide))

end Aesd
