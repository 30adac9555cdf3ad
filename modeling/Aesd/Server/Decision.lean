import Aesd.Server.Receive

/-!
# What a thread does with a request

What a thread does to the device is an `Effect`: one `write`, one seek, or nothing but the message
that the request is malformed. Up to there the thread looks at nothing but the bytes it has received
when its loop ends, so the effect is a function of them, `decision`. A thread that has not decided
yet is `Gathering`, one that has decided `Will` do it, and one that has done it is `Quiet`: that is
the invariant of every run (`Deciding.step`), and so a thread that has returned has done what it
decided (`performs_decision`).

The loop ends with a newline, or as soon as the bytes of `IOCTL_CMD_STR` are there. The buffer has
not grown by then, so a command is decided with at most 1023 bytes (`Decides.early`).
-/

namespace Aesd

open Memory Execution

/-- A request whose only newline is its last byte and that has no NUL. -/
structure IsLine (m : List Byte) : Prop where
  nonul : 0 ∉ m
  exists_body : ∃ body, m = body ++ [newline] ∧ newline ∉ body

namespace IsLine

variable {m got : List Byte}

theorem ne_nil (h : IsLine m) : m ≠ [] := by
  obtain ⟨body, rfl, -⟩ := h.exists_body
  exact List.append_ne_nil_of_right_ne_nil body (List.cons_ne_nil newline [])

theorem newline_mem (h : IsLine m) : newline ∈ m := by
  obtain ⟨body, rfl, -⟩ := h.exists_body
  exact List.mem_append_right _ (List.mem_singleton_self _)

/-- A line has its newline only when it is complete. -/
theorem newline_mem_iff (h : IsLine m) (hgot : got <+: m) : newline ∈ got ↔ got = m := by
  refine ⟨fun hmem ↦ ?_, fun heq ↦ heq ▸ h.newline_mem⟩
  obtain ⟨body, rfl, hbody⟩ := h.exists_body
  rcases List.prefix_concat_iff.1 hgot with hfull | hpart
  · exact hfull
  · exact absurd (hpart.subset hmem) hbody

theorem cString_eq (h : IsLine m) (hgot : got <+: m) : cString got = got :=
  cString_eq_self fun h0 ↦ h.nonul (hgot.subset h0)

end IsLine

/-! ### Effects and decisions -/

/-- What a request does. -/
inductive Effect
  | write (bytes : List Byte)
  | seek (seekto : AesdSeekto)
  /-- The branch for a command that does not parse. -/
  | malformed
deriving DecidableEq

def Event.effect : Event → Option Effect
  | .write _ bytes => some (.write bytes)
  | .ioctl _ seekto _ => some (.seek seekto)
  | .call .malformed => some .malformed
  | _ => none

def effects (events : List Event) : List Effect :=
  events.filterMap Event.effect

/-- The device or the file could not be opened. -/
def OpenFails (events : List Event) : Prop :=
  .openDevice none ∈ events ∨ .openFilePath none ∈ events

/-- The thread does this to the device and nothing else, or nothing at all because `open` failed. -/
def Performs (effect : Effect) (events : List Event) : Prop :=
  effects events = [effect] ∨ (effects events = [] ∧ OpenFails events)

/-- Every `recv` delivers something, and no allocation fails. -/
structure Fed (events : List Event) : Prop where
  recv : ∀ asked, .recv asked [] ∉ events
  malloc : ∀ size, .malloc size false ∉ events
  realloc : ∀ size, .realloc size false ∉ events

/-- What the thread decides when its loop ends with these bytes. -/
def decision (got : List Byte) : Effect :=
  if ioctlCmdStr <+: cString got then
    match sscanfCmdOffset ((cString got).drop ioctlCmdStr.length) with
    | some seekto => .seek seekto
    | none => .malformed
  else .write got

/-- The loop ends with these bytes: with a newline, or with the beginning of a command, and then
still with the buffer of `malloc`. -/
structure Decides (got : List Byte) : Prop where
  ne_nil : got ≠ []
  stops : newline ∈ cString got ∨ ioctlCmdStr <+: cString got
  early : ioctlCmdStr <+: cString got → got.length < 1024

namespace Code

/-- The thread is in its receive loop or before it. The buffer has grown only when more has been
received than a command needs to be seen. -/
def Gathering (got : List Byte) : Code → Prop
  | .call a next => (Event.call a).effect = none ∧ next.Gathering got
  | .malloc => got = []
  | .recv l =>
    l.Ready got ∧ ¬ ioctlCmdStr <+: cString got ∧ (l.buffer.length = 1024 ∨ 1023 ≤ got.length)
  | .realloc l =>
    l.Full got ∧ (ioctlCmdStr <+: cString got → got.length < 1024) ∧ 1023 ≤ got.length
  | _ => False

/-- The thread does nothing more to the device. -/
def Quiet : Code → Prop
  | .call a next => (Event.call a).effect = none ∧ next.Quiet
  | .readIoctl .. | .openRead _ | .readBack .. | .ret => True
  | _ => False

/-- The thread does this next, unless `open` fails, and then nothing more. -/
def Will (effect : Effect) : Code → Prop
  | .call a next => (Event.call a).effect = some effect ∧ next.Quiet
  | .openIoctl _ seekto | .ioctl _ _ seekto => effect = .seek seekto
  | .openWrite l | .write l _ => effect = .write (l.buffer.take l.totalReceived)
  | _ => False

variable {l : Locals} {got : List Byte} {code code' : Code} {e : Event}

theorem quiet_finish : finish.Quiet :=
  ⟨rfl, rfl, rfl, rfl, trivial⟩

theorem quiet_finishIoctl : finishIoctl.Quiet :=
  ⟨rfl, rfl, rfl, rfl, rfl, trivial⟩

/-- When the loop ends, the decision is made. -/
theorem will_handle (h : l.Contains got) (hne : got ≠ []) : (handle l).Will (decision got) := by
  rw [h.handle_eq hne, decision]
  split
  · rcases sscanfCmdOffset ((cString got).drop ioctlCmdStr.length) with - | seekto
    · exact ⟨rfl, quiet_finishIoctl⟩
    · exact rfl
  · show Effect.write got = .write _
    rw [h.take_eq]

/-- The test at the end of the loop's body: it goes on, or the decision is made. -/
theorem gathering_or_will_scan (h : l.Ready got) (hne : got ≠ [])
    (hearly : ioctlCmdStr <+: cString got → got.length < 1024)
    (hgrown : l.buffer.length = 1024 ∨ 1023 ≤ got.length) :
    (scan l).Gathering got ∨ (Decides got ∧ (scan l).Will (decision got)) := by
  rw [h.toContains.scan_eq hne]
  split
  · rename_i hstops
    exact Or.inr ⟨⟨hne, hstops, hearly⟩, will_handle h.toContains hne⟩
  · rename_i hgoes
    exact Or.inl ⟨h, fun hstart ↦ hgoes (Or.inr hstart), hgrown⟩

/-- One call in the loop, or before it. -/
theorem Gathering.step (h : code.Gathering got) (hstep : Step code e code') (hfed : Fed [e]) :
    e.effect = none ∧ (code'.Gathering (got ++ e.delivered.getD []) ∨
      (Decides (got ++ e.delivered.getD []) ∧
        code'.Will (decision (got ++ e.delivered.getD [])))) := by
  cases hstep with
  | call a next =>
    rw [show (Event.call a).delivered.getD [] = [] from rfl, List.append_nil]
    exact ⟨h.1, Or.inl h.2⟩
  | mallocFails => exact absurd (List.mem_singleton_self _) (hfed.malloc 1024)
  | malloc junk =>
    obtain rfl : got = [] := h
    exact ⟨rfl, Or.inl ⟨rfl, Locals.Ready.init junk, by decide, Or.inl (by simp)⟩⟩
  | recvNothing l => exact absurd (List.mem_singleton_self _) (hfed.recv (asked l))
  | recv l data hne hle =>
    rw [show (Event.recv (asked l) data).delivered.getD [] = data from rfl]
    obtain ⟨hready, hstart, hgrown⟩ := h
    have hne' : got ++ data ≠ [] := List.append_ne_nil_of_right_ne_nil got hne
    -- a command is seen while the buffer is still the first one
    have hearly : ioctlCmdStr <+: cString (got ++ data) → (got ++ data).length < 1024 := by
      intro hnow
      rcases hgrown with hfirst | hlong
      · have hroom := hready.room
        rw [hready.asked_eq] at hle
        rw [List.length_append]
        omega
      · have hlen : ioctlCmdStr.length = 19 := rfl
        exact absurd (isPrefix_cString_of_append (by omega) hnow) hstart
    have hgrown' : l.buffer.length = 1024 ∨ 1023 ≤ (got ++ data).length := by
      rw [List.length_append]
      exact hgrown.imp_right fun hlong ↦ Nat.le_add_right_of_le hlong
    obtain ⟨l', hlen, ⟨hcode, hready'⟩ | ⟨hcode, hfull⟩⟩ := hready.received hne hle
    · rw [hcode]
      exact ⟨rfl, gathering_or_will_scan hready' hne' hearly (hlen ▸ hgrown')⟩
    · rw [hcode]
      refine ⟨rfl, Or.inl ⟨hfull, hearly, ?_⟩⟩
      rcases hgrown' with hfirst | hlong
      · have := hfull.full
        omega
      · exact hlong
  | reallocFails l => exact absurd (List.mem_singleton_self _) (hfed.realloc l.bufferSize)
  | realloc l junk hle =>
    obtain ⟨hfull, hearly, hlong⟩ := h
    rw [show (Event.realloc l.bufferSize true).delivered.getD [] = [] from rfl, List.append_nil]
    exact ⟨rfl, gathering_or_will_scan (hfull.realloc hle junk) hfull.ne_nil hearly (Or.inr hlong)⟩
  | _ => exact absurd h id

/-- After its effect the thread receives nothing and does nothing more. -/
theorem Quiet.step (h : code.Quiet) (hstep : Step code e code') :
    e.effect = none ∧ e.delivered = none ∧ code'.Quiet := by
  cases hstep with
  | call a next => exact ⟨h.1, rfl, h.2⟩
  | readIoctlEnd l fd => exact ⟨rfl, rfl, rfl, quiet_finishIoctl⟩
  | readIoctl l fd data hne hle => exact ⟨rfl, rfl, rfl, trivial⟩
  | openReadFails l => exact ⟨rfl, rfl, rfl, quiet_finish⟩
  | openRead l fd => exact ⟨rfl, rfl, trivial⟩
  | readBackEnd l fd => exact ⟨rfl, rfl, rfl, rfl, quiet_finish⟩
  | readBack l fd data hne hle => exact ⟨rfl, rfl, rfl, trivial⟩
  | _ => exact absurd h id

/-- The thread does what it decided, or `open` fails, or it is about to do it. -/
theorem Will.step {effect : Effect} (h : code.Will effect) (hstep : Step code e code') :
    e.delivered = none ∧ ((e.effect = some effect ∧ code'.Quiet) ∨
      (e.effect = none ∧ OpenFails [e] ∧ code'.Quiet) ∨ (e.effect = none ∧ code'.Will effect)) := by
  cases hstep with
  | call a next => exact ⟨rfl, Or.inl h⟩
  | openIoctlFails l seekto =>
    exact ⟨rfl, Or.inr (Or.inl ⟨rfl, Or.inl (List.mem_singleton_self _), quiet_finishIoctl⟩)⟩
  | openIoctl l seekto fd => exact ⟨rfl, Or.inr (Or.inr ⟨rfl, h⟩)⟩
  | ioctlFails l fd seekto =>
    obtain rfl : effect = .seek seekto := h
    exact ⟨rfl, Or.inl ⟨rfl, rfl, rfl, rfl, rfl, rfl, trivial⟩⟩
  | ioctl l fd seekto =>
    obtain rfl : effect = .seek seekto := h
    exact ⟨rfl, Or.inl ⟨rfl, trivial⟩⟩
  | openWriteFails l =>
    exact ⟨rfl, Or.inr (Or.inl ⟨rfl, Or.inr (List.mem_singleton_self _), rfl, rfl, rfl, trivial⟩)⟩
  | openWrite l fd => exact ⟨rfl, Or.inr (Or.inr ⟨rfl, h⟩)⟩
  | write l fd =>
    obtain rfl : effect = .write (l.buffer.take l.totalReceived) := h
    exact ⟨rfl, Or.inl ⟨rfl, rfl, rfl, rfl, rfl, trivial⟩⟩
  | _ => exact absurd h id

end Code

namespace Fed

variable {events : List Event} {e : Event}

theorem of_concat (h : Fed (events ++ [e])) : Fed events ∧ Fed [e] :=
  ⟨⟨fun n hmem ↦ h.recv n (List.mem_append_left _ hmem),
      fun n hmem ↦ h.malloc n (List.mem_append_left _ hmem),
      fun n hmem ↦ h.realloc n (List.mem_append_left _ hmem)⟩,
    ⟨fun n hmem ↦ h.recv n (List.mem_append_right _ hmem),
      fun n hmem ↦ h.malloc n (List.mem_append_right _ hmem),
      fun n hmem ↦ h.realloc n (List.mem_append_right _ hmem)⟩⟩

end Fed

/-- Where a run stands: nothing done yet and nothing decided; decided and about to be done; or done
as decided. -/
def Deciding (events : List Event) (code : Code) : Prop :=
  (effects events = [] ∧ code.Gathering (receivedBytes events)) ∨
    (Decides (receivedBytes events) ∧
      ((effects events = [] ∧ code.Will (decision (receivedBytes events))) ∨
        (Performs (decision (receivedBytes events)) events ∧ code.Quiet)))

theorem effects_concat (events : List Event) (e : Event) :
    effects (events ++ [e]) = effects events ++ e.effect.toList := by
  rw [effects, List.filterMap_append]
  rcases heffect : e.effect with - | effect <;> simp [heffect, effects]

theorem OpenFails.append_left {events events' : List Event} (h : OpenFails events) :
    OpenFails (events ++ events') :=
  h.imp (List.mem_append_left _) (List.mem_append_left _)

theorem OpenFails.append_right {events events' : List Event} (h : OpenFails events') :
    OpenFails (events ++ events') :=
  h.imp (List.mem_append_right _) (List.mem_append_right _)

/-- **One call** of a thread that is fed. -/
theorem Deciding.step {events : List Event} {code code' : Code} {e : Event}
    (h : Deciding events code) (hstep : Code.Step code e code') (hfed : Fed [e]) :
    Deciding (events ++ [e]) code' := by
  rw [Deciding, receivedBytes_concat, effects_concat]
  obtain ⟨hnone, hgathering⟩ | ⟨hdecides, ⟨hnone, hwill⟩ | ⟨hperforms, hquiet⟩⟩ := h
  · obtain ⟨heffect, hnext⟩ := hgathering.step hstep hfed
    rw [hnone, heffect]
    exact hnext.imp (⟨rfl, ·⟩) fun ⟨hdecides, hwill⟩ ↦ ⟨hdecides, Or.inl ⟨rfl, hwill⟩⟩
  · -- nothing is received any more, so the decision stands
    obtain ⟨hdelivered, hnext⟩ := hwill.step hstep
    rw [hdelivered, Option.getD_none, List.append_nil, Performs, effects_concat, hnone]
    refine Or.inr ⟨hdecides, ?_⟩
    obtain ⟨heffect, hquiet⟩ | ⟨heffect, hfails, hquiet⟩ | ⟨heffect, hwill⟩ := hnext <;>
      rw [heffect]
    · exact Or.inr ⟨Or.inl rfl, hquiet⟩
    · exact Or.inr ⟨Or.inr ⟨rfl, hfails.append_right⟩, hquiet⟩
    · exact Or.inl ⟨rfl, hwill⟩
  · obtain ⟨heffect, hdelivered, hquiet'⟩ := hquiet.step hstep
    rw [hdelivered, Option.getD_none, List.append_nil, Performs, effects_concat, heffect,
      Option.toList_none, List.append_nil]
    refine Or.inr ⟨hdecides, Or.inr ⟨?_, hquiet'⟩⟩
    exact hperforms.imp_right fun ⟨hnone, hfails⟩ ↦ ⟨hnone, hfails.append_left⟩

/-- **What a thread does is decided by the bytes it has received** when its loop ends. -/
theorem performs_decision {os : List Outcome} {events : List Event}
    (h : run Code.step Code.threadfunc os = .ok (events, .ret)) (hfed : Fed events) :
    Decides (receivedBytes events) ∧ Performs (decision (receivedBytes events)) events := by
  have hdeciding := history_of_run (I := fun events code ↦ Fed events → Deciding events code)
    (fun events code o e code' hI hstep hfed ↦
      (hI hfed.of_concat.1).step (Code.step_cases hstep) hfed.of_concat.2)
    (fun _ ↦ Or.inl ⟨rfl, show (Code.call .logAccepted .malloc).Gathering [] from ⟨rfl, rfl⟩⟩)
    h hfed
  obtain ⟨-, hgathering⟩ | ⟨hdecides, ⟨-, hwill⟩ | ⟨hperforms, -⟩⟩ := hdeciding
  · exact absurd hgathering id
  · exact absurd hwill id
  · exact ⟨hdecides, hperforms⟩

end Aesd
