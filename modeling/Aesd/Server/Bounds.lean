import Aesd.Server.Decision

/-!
# The bounds of the receive buffer

What the calls of a run say about the receive buffer: `capacity events` is the size of the block it
points to, and `Event.InBounds` that a call stays inside. `recv` always does, because the loop keeps
`buffer_size` equal to the size of the block (`Locals.Ready`).

When `realloc` fails, `buffer_size` has been doubled already and the block has not grown. The loop
ends there, but the variable is used once more, as the size of the reads that send the data back
(`Behind`). So a run that gets that far after a failed `realloc` asks for twice as many bytes as the
buffer has; and these are the only runs that leave the bounds (`never_overruns_iff_keepsSize`).
-/

namespace Aesd

open Memory Execution

/-- The size of the block `buffer` points to after the call, if it is a new one. -/
def Event.block : Event → Option ℕ
  | .malloc size true | .realloc size true => some size
  | _ => none

/-- The size of the block `buffer` points to. -/
def capacity (events : List Event) : ℕ :=
  (events.filterMap Event.block).getLast?.getD 0

/-- The request was written, so that what is read from now on is read into `buffer`. -/
def SendsBack (events : List Event) : Prop :=
  ∃ fd bytes, .write fd bytes ∈ events

/-- A call after `events` stays inside the receive buffer: a `recv` asks for at least one byte, and
behind what it asks for and what it delivers there is room for the NUL; a `read` of the send-back
loop asks for no more than the buffer has. -/
def Event.InBounds (events : List Event) : Event → Prop
  | .recv asked data =>
    1 ≤ asked ∧ (receivedBytes events).length + asked + 1 ≤ capacity events ∧
      (receivedBytes events).length + data.length < capacity events
  | .read _ asked _ => SendsBack events → asked ≤ capacity events
  | _ => True

/-- Every call of the run stays inside the receive buffer. -/
def NeverOverruns (events : List Event) : Prop :=
  ∀ (i : ℕ) e, events[i]? = some e → e.InBounds (events.take i)

def ReallocFails (events : List Event) : Prop :=
  ∃ size, .realloc size false ∈ events

/-- `buffer_size` is the size of the block wherever it is used: no `realloc` failed, or nothing is
sent back, because the request begins a command for the device or because `open` failed. -/
def KeepsSize (events : List Event) : Prop :=
  ¬ ReallocFails events ∨ ioctlCmdStr <+: receivedBytes events ∨ OpenFails events

/-- The call is a `realloc` that is refused. -/
def Event.refusesRealloc : Event → Bool
  | .realloc _ false => true
  | _ => false

instance (events : List Event) : Decidable (ReallocFails events) :=
  decidable_of_iff (events.any Event.refusesRealloc = true) <| by
    rw [List.any_eq_true]
    constructor
    · rintro ⟨e, he, hrefuses⟩
      match e, hrefuses with
      | .realloc size false, _ => exact ⟨size, he⟩
    · exact fun ⟨size, hmem⟩ ↦ ⟨_, hmem, rfl⟩

instance (events : List Event) : Decidable (KeepsSize events) :=
  inferInstanceAs (Decidable (_ ∨ _ ∨ (_ ∨ _)))

section Events

variable {events : List Event} {e : Event}

theorem capacity_concat (events : List Event) (e : Event) :
    capacity (events ++ [e]) = e.block.getD (capacity events) := by
  rw [capacity, List.filterMap_append]
  rcases hblock : e.block with - | size <;> simp [hblock, capacity]

theorem capacity_concat_of_none (events : List Event) {e : Event} (h : e.block = none) :
    capacity (events ++ [e]) = capacity events := by
  rw [capacity_concat, h, Option.getD_none]

theorem sendsBack_concat :
    SendsBack (events ++ [e]) ↔ SendsBack events ∨ ∃ fd bytes, e = .write fd bytes := by
  simp only [SendsBack, List.mem_append, List.mem_singleton, exists_or, eq_comm]

theorem reallocFails_concat :
    ReallocFails (events ++ [e]) ↔ ReallocFails events ∨ ∃ size, e = .realloc size false := by
  simp only [ReallocFails, List.mem_append, List.mem_singleton, exists_or, eq_comm]

theorem openFails_concat :
    OpenFails (events ++ [e]) ↔
      OpenFails events ∨ e = .openDevice none ∨ e = .openFilePath none := by
  simp only [OpenFails, List.mem_append, List.mem_singleton, eq_comm (b := e)]
  tauto

theorem neverOverruns_nil : NeverOverruns [] :=
  fun _ _ h ↦ absurd h (by simp)

theorem neverOverruns_concat :
    NeverOverruns (events ++ [e]) ↔ NeverOverruns events ∧ e.InBounds events := by
  constructor
  · refine fun h ↦ ⟨fun i e' hi ↦ ?_, ?_⟩
    · have hlt := (List.getElem?_eq_some_iff.1 hi).1
      have hbounds := h i e' (by rw [List.getElem?_append_left hlt, hi])
      rwa [List.take_append_of_le_length (Nat.le_of_lt hlt)] at hbounds
    · have hbounds := h events.length e List.getElem?_concat_length
      rwa [List.take_left] at hbounds
  · rintro ⟨h, he⟩ i e' hi
    rcases Nat.lt_trichotomy i events.length with hlt | rfl | hgt
    · rw [List.getElem?_append_left hlt] at hi
      rw [List.take_append_of_le_length (Nat.le_of_lt hlt)]
      exact h i e' hi
    · rw [List.getElem?_concat_length, Option.some.injEq] at hi
      rwa [List.take_left, ← hi]
    · rw [List.getElem?_eq_none (by simp; omega)] at hi
      exact absurd hi (by simp)

end Events

/-! ### Where `buffer_size` is used again -/

/-- From the end of the receive loop on, in a request that is no command: if `realloc` failed,
`buffer_size` is twice the size of the block. -/
structure Behind (events : List Event) (l : Locals) : Prop where
  opens : ¬ OpenFails events
  noCommand : ¬ ioctlCmdStr <+: receivedBytes events
  capacity_pos : 0 < capacity events
  kept : ¬ ReallocFails events → l.bufferSize = capacity events
  doubled : ReallocFails events → l.bufferSize = capacity events * 2

/-- Before the end of the receive loop. -/
structure Fresh (events : List Event) : Prop where
  opens : ¬ OpenFails events
  reallocs : ¬ ReallocFails events
  sends : ¬ SendsBack events

section Concat

variable {events : List Event} {e : Event} {l : Locals}

theorem Fresh.concat (h : Fresh events) (hopen : e ≠ .openDevice none ∧ e ≠ .openFilePath none)
    (hrealloc : ∀ size, e ≠ .realloc size false) (hwrite : ∀ fd bytes, e ≠ .write fd bytes) :
    Fresh (events ++ [e]) := by
  refine ⟨fun hfails ↦ ?_, fun hfails ↦ ?_, fun hsends ↦ ?_⟩
  · rcases openFails_concat.1 hfails with hold | heq | heq
    · exact h.opens hold
    · exact hopen.1 heq
    · exact hopen.2 heq
  · rcases reallocFails_concat.1 hfails with hold | ⟨size, heq⟩
    · exact h.reallocs hold
    · exact hrealloc size heq
  · rcases sendsBack_concat.1 hsends with hold | ⟨fd, bytes, heq⟩
    · exact h.sends hold
    · exact hwrite fd bytes heq

/-- A call that neither receives nor allocates, and no `open` that fails. -/
theorem Behind.concat (h : Behind events l) (hblock : e.block = none) (hdata : e.delivered = none)
    (hopen : e ≠ .openDevice none ∧ e ≠ .openFilePath none)
    (hrealloc : ∀ size, e ≠ .realloc size false) : Behind (events ++ [e]) l := by
  have hgot := receivedBytes_concat_of_none events hdata
  have hcapacity := capacity_concat_of_none events hblock
  have hsame : ReallocFails (events ++ [e]) ↔ ReallocFails events := by
    rw [reallocFails_concat, or_iff_left]
    exact fun ⟨size, heq⟩ ↦ hrealloc size heq
  refine ⟨?_, hgot ▸ h.noCommand, hcapacity ▸ h.capacity_pos, ?_, ?_⟩
  · rw [openFails_concat, or_iff_left]
    · exact h.opens
    · rintro (heq | heq)
      · exact hopen.1 heq
      · exact hopen.2 heq
  · rw [hsame, hcapacity]
    exact h.kept
  · rw [hsame, hcapacity]
    exact h.doubled

/-- A request that is a command for the device goes on as one. -/
theorem command_concat (h : ioctlCmdStr <+: receivedBytes events ∧ ¬ SendsBack events)
    (hdata : e.delivered = none) (hwrite : ∀ fd bytes, e ≠ .write fd bytes) :
    ioctlCmdStr <+: receivedBytes (events ++ [e]) ∧ ¬ SendsBack (events ++ [e]) := by
  rw [receivedBytes_concat_of_none events hdata, sendsBack_concat, or_iff_left]
  · exact h
  · rintro ⟨fd, bytes, heq⟩
    exact hwrite fd bytes heq

end Concat

namespace Code

/-- What the calls so far say about the buffer, where the thread still needs it. -/
def Measured (events : List Event) : Code → Prop
  | .call _ next => next.Measured events
  | .malloc => Fresh events
  | .recv l | .realloc l => Fresh events ∧ l.buffer.length = capacity events
  | .openIoctl .. | .ioctl .. | .readIoctl .. =>
    ioctlCmdStr <+: receivedBytes events ∧ ¬ SendsBack events
  | .openWrite l | .write l _ => Behind events l
  | .openRead l | .readBack l _ => Behind events l ∧ SendsBack events
  | .ret => KeepsSize events

/-- The thread sends back what it reads, or has done so. -/
def Sending : Code → Prop
  | .call _ next => next.Sending
  | .readBack .. | .ret => True
  | _ => False

variable {l : Locals} {events : List Event} {code code' : Code} {e : Event}

/-- A call of no interest here. -/
theorem Measured.concat_call (h : code.Measured events) (a : Action) :
    code.Measured (events ++ [.call a]) := by
  have hgot : receivedBytes (events ++ [.call a]) = receivedBytes events :=
    receivedBytes_concat_of_none events rfl
  have hcapacity : capacity (events ++ [.call a]) = capacity events :=
    capacity_concat_of_none events rfl
  have hfresh : Fresh events → Fresh (events ++ [.call a]) := fun h ↦
    h.concat (by simp) (by simp) (by simp)
  have hbehind : ∀ {l}, Behind events l → Behind (events ++ [.call a]) l := fun h ↦
    h.concat rfl rfl (by simp) (by simp)
  induction code with
  | call b next ih => exact ih h
  | malloc => exact hfresh h
  | recv l => exact ⟨hfresh h.1, hcapacity ▸ h.2⟩
  | realloc l => exact ⟨hfresh h.1, hcapacity ▸ h.2⟩
  | openIoctl l seekto => exact command_concat h rfl (by simp)
  | ioctl l fd seekto => exact command_concat h rfl (by simp)
  | readIoctl l fd => exact command_concat h rfl (by simp)
  | openWrite l => exact hbehind h
  | write l fd => exact hbehind h
  | openRead l => exact ⟨hbehind h.1, sendsBack_concat.2 (Or.inl h.2)⟩
  | readBack l fd => exact ⟨hbehind h.1, sendsBack_concat.2 (Or.inl h.2)⟩
  | ret =>
    have hkeeps : KeepsSize events := h
    show KeepsSize _
    simpa [KeepsSize, reallocFails_concat, openFails_concat, hgot] using hkeeps

/-- The loop ends: what the thread does next depends on what was received. -/
theorem measured_handle (h : l.Contains (receivedBytes events)) (hsends : ¬ SendsBack events)
    (hkeeps : receivedBytes events = [] → KeepsSize events)
    (hbehind : ¬ ioctlCmdStr <+: receivedBytes events → Behind events l) :
    (handle l).Measured events := by
  rcases Decidable.em (receivedBytes events = []) with hnil | hne
  · rw [Locals.handle_of_total_eq_zero (by rw [h.total, hnil]; rfl)]
    exact hkeeps hnil
  · rw [h.handle_eq hne]
    split
    · next hcommand =>
      rw [ioctlCmdStr_isPrefix_iff] at hcommand
      rcases sscanfCmdOffset ((cString (receivedBytes events)).drop ioctlCmdStr.length)
        with - | seekto
      · exact Or.inr (Or.inl hcommand)
      · exact ⟨hcommand, hsends⟩
    · next hcommand =>
      rw [ioctlCmdStr_isPrefix_iff] at hcommand
      exact hbehind hcommand

theorem behind_of_ready (h : l.Ready (receivedBytes events)) (hfresh : Fresh events)
    (hlen : l.buffer.length = capacity events) (hcommand : ¬ ioctlCmdStr <+: receivedBytes events) :
    Behind events l where
  opens := hfresh.opens
  noCommand := hcommand
  capacity_pos := by
    have hroom := h.room
    omega
  kept _ := by rw [h.size_eq, hlen]
  doubled hfails := absurd hfails hfresh.reallocs

theorem measured_handle_of_ready (h : l.Ready (receivedBytes events)) (hfresh : Fresh events)
    (hlen : l.buffer.length = capacity events) : (handle l).Measured events :=
  measured_handle h.toContains hfresh.sends (fun _ ↦ Or.inl hfresh.reallocs)
    (behind_of_ready h hfresh hlen)

theorem measured_scan (h : l.Ready (receivedBytes events)) (hne : receivedBytes events ≠ [])
    (hfresh : Fresh events) (hlen : l.buffer.length = capacity events) :
    (scan l).Measured events := by
  rw [h.toContains.scan_eq hne]
  split
  · exact measured_handle_of_ready h hfresh hlen
  · exact ⟨hfresh, hlen⟩

/-- `realloc` fails: the block is as it was, and `buffer_size` is twice its size. -/
theorem measured_reallocFails (h : l.Full (receivedBytes events)) (hfresh : Fresh events)
    (hlen : l.buffer.length = capacity events) :
    (handle l).Measured (events ++ [.realloc l.bufferSize false]) := by
  have hgot : receivedBytes (events ++ [.realloc l.bufferSize false]) = receivedBytes events :=
    receivedBytes_concat_of_none events rfl
  have hcapacity : capacity (events ++ [.realloc l.bufferSize false]) = l.buffer.length :=
    (capacity_concat_of_none events rfl).trans hlen.symm
  have hfails : ReallocFails (events ++ [.realloc l.bufferSize false]) :=
    reallocFails_concat.2 (Or.inr ⟨_, rfl⟩)
  have hsends : ¬ SendsBack (events ++ [.realloc l.bufferSize false]) := by
    simpa [sendsBack_concat] using hfresh.sends
  rw [← hgot] at h
  refine measured_handle h.toContains hsends (fun hnil ↦ absurd hnil h.ne_nil) fun hcommand ↦
    ⟨?_, hcommand, ?_, fun hkept ↦ absurd hfails hkept, fun _ ↦ ?_⟩
  · simpa [openFails_concat] using hfresh.opens
  · have hfull := h.full
    rw [hcapacity]
    omega
  · rw [hcapacity]
    exact h.size_eq

/-- What `recv` asks for and delivers. -/
theorem inBounds_recv (h : l.Ready (receivedBytes events))
    (hlen : l.buffer.length = capacity events)
    {data : List Byte} (hle : data.length ≤ asked l) :
    (Event.recv (asked l) data).InBounds events := by
  have hroom := h.room
  rw [h.asked_eq] at hle
  refine ⟨h.asked_pos, ?_, by omega⟩
  rw [h.asked_eq]
  omega

/-- **A read of the send-back loop** asks for `buffer_size` bytes: it stays inside the buffer unless
`realloc` failed, and then nothing excuses it. -/
theorem inBounds_readBack (h : Behind events l) (hsends : SendsBack events) (fd : ℕ)
    (data : List Byte) :
    ((Event.read fd l.bufferSize data).InBounds events ∧ ¬ ReallocFails events) ∨
      (¬ (Event.read fd l.bufferSize data).InBounds events ∧
        ¬ KeepsSize (events ++ [.read fd l.bufferSize data])) := by
  have hgot : receivedBytes (events ++ [.read fd l.bufferSize data]) = receivedBytes events :=
    receivedBytes_concat_of_none events rfl
  rcases Classical.em (ReallocFails events) with hfails | hkept
  · refine Or.inr ⟨fun hinside ↦ ?_, ?_⟩
    · have hle := hinside hsends
      rw [h.doubled hfails] at hle
      have hpos := h.capacity_pos
      omega
    · rintro (hnot | hcommand | hopen)
      · exact hnot (reallocFails_concat.2 (Or.inl hfails))
      · exact h.noCommand (hgot ▸ hcommand)
      · rcases openFails_concat.1 hopen with hold | heq | heq
        · exact h.opens hold
        · exact absurd heq (by simp)
        · exact absurd heq (by simp)
  · exact Or.inl ⟨fun _ ↦ Nat.le_of_eq (h.kept hkept), hkept⟩

/-- **One call**: it stays inside the buffer, or it is a read into a buffer that did not grow, and
then the thread is past everything that could excuse it. -/
theorem Measured.step (h : code.Measured events) (htracks : code.Tracks (receivedBytes events))
    (hstep : Step code e code') :
    (e.InBounds events ∧ code'.Measured (events ++ [e])) ∨
      (¬ e.InBounds events ∧ ¬ KeepsSize (events ++ [e]) ∧ code'.Sending) := by
  have hcapacity := capacity_concat events e
  have hgot : e.delivered.getD [] = [] → receivedBytes (events ++ [e]) = receivedBytes events := by
    intro hnothing
    rw [receivedBytes_concat, hnothing, List.append_nil]
  cases hstep with
  | call a next => exact Or.inl ⟨trivial, Measured.concat_call h a⟩
  | mallocFails =>
    exact Or.inl ⟨trivial, Or.inl (Fresh.concat h (by simp) (by simp) (by simp)).reallocs⟩
  | malloc junk =>
    refine Or.inl ⟨trivial, Fresh.concat h (by simp) (by simp) (by simp), ?_⟩
    rw [hcapacity, length_resize]
    simp only [Event.block, Option.getD_some]
  | recvNothing l =>
    obtain ⟨hfresh, hlen⟩ := h
    refine Or.inl ⟨inBounds_recv htracks hlen (Nat.zero_le _), ?_⟩
    exact measured_handle_of_ready ((hgot rfl).symm ▸ htracks)
      (hfresh.concat (by simp) (by simp) (by simp)) (hlen.trans hcapacity.symm)
  | recv l data hne hle =>
    obtain ⟨hfresh, hlen⟩ := h
    have hfresh' : Fresh (events ++ [.recv (asked l) data]) :=
      hfresh.concat (by simp) (by simp) (by simp)
    have hmore : receivedBytes (events ++ [.recv (asked l) data]) = receivedBytes events ++ data :=
      receivedBytes_concat ..
    have hne' : receivedBytes (events ++ [.recv (asked l) data]) ≠ [] := by
      rw [hmore]
      exact List.append_ne_nil_of_right_ne_nil _ hne
    refine Or.inl ⟨inBounds_recv htracks hlen hle, ?_⟩
    obtain ⟨l', hlen', ⟨hcode, hready⟩ | ⟨hcode, hfull⟩⟩ := Locals.Ready.received htracks hne hle
    · rw [hcode]
      exact measured_scan (hmore ▸ hready) hne' hfresh' (hlen'.trans (hlen.trans hcapacity.symm))
    · rw [hcode]
      exact ⟨hfresh', hlen'.trans (hlen.trans hcapacity.symm)⟩
  | reallocFails l =>
    exact Or.inl ⟨trivial, measured_reallocFails htracks h.1 h.2⟩
  | realloc l junk hle =>
    have hsame := (hgot rfl).symm
    have hready := Locals.Full.realloc htracks hle junk
    refine Or.inl ⟨trivial, measured_scan (hsame ▸ hready) (hsame ▸ Locals.Full.ne_nil htracks)
      (h.1.concat (by simp) (by simp) (by simp)) ?_⟩
    exact (length_resize _ _ _).trans hcapacity.symm
  | openIoctlFails l seekto =>
    exact Or.inl ⟨trivial, Or.inr (Or.inl (command_concat h rfl (by simp)).1)⟩
  | openIoctl l seekto fd => exact Or.inl ⟨trivial, command_concat h rfl (by simp)⟩
  | ioctlFails l fd seekto =>
    exact Or.inl ⟨trivial, Or.inr (Or.inl (command_concat h rfl (by simp)).1)⟩
  | ioctl l fd seekto => exact Or.inl ⟨trivial, command_concat h rfl (by simp)⟩
  | readIoctlEnd l fd =>
    exact Or.inl ⟨fun hsends ↦ absurd hsends h.2,
      Or.inr (Or.inl (command_concat h rfl (by simp)).1)⟩
  | readIoctl l fd data hne hle =>
    exact Or.inl ⟨fun hsends ↦ absurd hsends h.2, command_concat h rfl (by simp)⟩
  | openWriteFails l =>
    exact Or.inl ⟨trivial, Or.inr (Or.inr (openFails_concat.2 (Or.inr (Or.inr rfl))))⟩
  | openWrite l fd => exact Or.inl ⟨trivial, Behind.concat h rfl rfl (by simp) (by simp)⟩
  | write l fd =>
    exact Or.inl ⟨trivial, Behind.concat h rfl rfl (by simp) (by simp),
      sendsBack_concat.2 (Or.inr ⟨_, _, rfl⟩)⟩
  | openReadFails l =>
    exact Or.inl ⟨trivial, Or.inr (Or.inr (openFails_concat.2 (Or.inr (Or.inl rfl))))⟩
  | openRead l fd =>
    exact Or.inl ⟨trivial, h.1.concat rfl rfl (by simp) (by simp),
      sendsBack_concat.2 (Or.inl h.2)⟩
  | readBackEnd l fd =>
    rcases inBounds_readBack h.1 h.2 fd [] with ⟨hinside, hkept⟩ | ⟨houtside, hlost⟩
    · refine Or.inl ⟨hinside, Or.inl fun hfails ↦ ?_⟩
      rcases reallocFails_concat.1 hfails with hold | ⟨size, heq⟩
      · exact hkept hold
      · exact absurd heq (by simp)
    · exact Or.inr ⟨houtside, hlost, trivial⟩
  | readBack l fd data hne hle =>
    rcases inBounds_readBack h.1 h.2 fd data with ⟨hinside, -⟩ | ⟨houtside, hlost⟩
    · have hnext := h.1.concat (e := .read fd l.bufferSize data) rfl rfl (by simp) (by simp)
      exact Or.inl ⟨hinside, ⟨hnext.opens, hnext.noCommand, hnext.capacity_pos, hnext.kept,
        hnext.doubled⟩, sendsBack_concat.2 (Or.inl h.2)⟩
    · exact Or.inr ⟨houtside, hlost, trivial⟩

/-- A thread that sends back opens, allocates and receives nothing more. -/
theorem Sending.step (h : code.Sending) (hstep : Step code e code') :
    code'.Sending ∧ (KeepsSize (events ++ [e]) → KeepsSize events) := by
  have hsame : e.delivered = none → (∀ size, e ≠ .realloc size false) →
      e ≠ .openDevice none → e ≠ .openFilePath none →
      KeepsSize (events ++ [e]) → KeepsSize events := by
    intro hdata hrealloc hdevice hpath hkeeps
    rw [KeepsSize, receivedBytes_concat_of_none events hdata] at hkeeps
    refine hkeeps.imp (fun hkept hfails ↦ hkept (reallocFails_concat.2 (Or.inl hfails)))
      (Or.imp_right fun hopen ↦ ?_)
    rcases openFails_concat.1 hopen with hold | heq | heq
    · exact hold
    · exact absurd heq hdevice
    · exact absurd heq hpath
  cases hstep with
  | call a next => exact ⟨h, hsame rfl (by simp) (by simp) (by simp)⟩
  | readBackEnd l fd => exact ⟨trivial, hsame rfl (by simp) (by simp) (by simp)⟩
  | readBack l fd data hne hle => exact ⟨trivial, hsame rfl (by simp) (by simp) (by simp)⟩
  | _ => exact absurd h id

/-- Where every run stands: inside the buffer, or past an inexcusable read. -/
theorem measured_of_run {os : List Outcome}
    (h : run Code.step threadfunc os = .ok (events, code)) :
    (NeverOverruns events ∧ code.Measured events) ∨
      (¬ NeverOverruns events ∧ ¬ KeepsSize events ∧ code.Sending) := by
  have hinit : threadfunc.Tracks (receivedBytes []) ∧
      ((NeverOverruns [] ∧ threadfunc.Measured []) ∨
        (¬ NeverOverruns [] ∧ ¬ KeepsSize [] ∧ threadfunc.Sending)) :=
    ⟨rfl, Or.inl ⟨neverOverruns_nil, by simp [OpenFails], by simp [ReallocFails],
      by simp [SendsBack]⟩⟩
  refine (history_of_run (I := fun events code ↦ code.Tracks (receivedBytes events) ∧
    ((NeverOverruns events ∧ code.Measured events) ∨
      (¬ NeverOverruns events ∧ ¬ KeepsSize events ∧ code.Sending)))
    (fun events code o e code' ⟨htracks, hstands⟩ hstep ↦ ⟨?_, ?_⟩) hinit h).2
  · rw [receivedBytes_concat]
    exact htracks.step hstep
  · rw [neverOverruns_concat]
    rcases hstands with ⟨hinside, hmeasured⟩ | ⟨houtside, hlost, hsending⟩
    · rcases hmeasured.step htracks (step_cases hstep) with ⟨he, hnext⟩ | ⟨he, hlost, hsending⟩
      · exact Or.inl ⟨⟨hinside, he⟩, hnext⟩
      · exact Or.inr ⟨fun hboth ↦ he hboth.2, hlost, hsending⟩
    · obtain ⟨hnext, hkeeps⟩ := hsending.step (step_cases hstep)
      exact Or.inr ⟨fun hboth ↦ houtside hboth.1, fun h ↦ hlost (hkeeps h), hnext⟩

end Code

theorem neverOverruns_of_keepsSize {os : List Outcome} {events : List Event} {code : Code}
    (h : run Code.step Code.threadfunc os = .ok (events, code)) (hkeeps : KeepsSize events) :
    NeverOverruns events := by
  rcases Code.measured_of_run h with ⟨hinside, -⟩ | ⟨-, hlost, -⟩
  · exact hinside
  · exact absurd hkeeps hlost

/-- **The receive buffer is over-run exactly when it is read into after `realloc` failed.** A run
of a thread stays inside its buffer as long as no `realloc` fails, or the request begins a command
for the device, or an `open` fails; and a thread that has returned stayed inside only in these
cases. -/
theorem never_overruns_iff_keepsSize (os : List Outcome) (events : List Event) (code : Code) :
    (run Code.step Code.threadfunc os = .ok (events, code) → KeepsSize events →
      NeverOverruns events) ∧
    (run Code.step Code.threadfunc os = .ok (events, .ret) →
      (NeverOverruns events ↔ KeepsSize events)) := by
  refine ⟨neverOverruns_of_keepsSize, fun h ↦ ⟨fun hinside ↦ ?_, neverOverruns_of_keepsSize h⟩⟩
  rcases Code.measured_of_run h with ⟨-, hmeasured⟩ | ⟨houtside, -⟩
  · exact hmeasured
  · exact absurd hinside houtside

/-- A short line is handled inside the first buffer. -/
theorem never_overruns_iff_keepsSize_short_line :
    let events : List Event := [.call .logAccepted, .malloc 1024 true, .call .lock,
      .recv 1023 [97, newline], .openFilePath (some 3), .write 3 [97, newline], .call (.fsync 3),
      .call (.closeFile 3), .call .unlock, .call .lock, .openDevice (some 3), .read 3 1024 [],
      .call (.closeFile 3), .call .unlock, .call .logClosed, .call .closeSocket, .call .free,
      .call .setStatus]
    NeverOverruns events ↔ KeepsSize events := by
  intro events
  exact (never_overruns_iff_keepsSize (List.replicate 18 (.granting [97, newline])) events
    .ret).2 (by decide +kernel)

/-- A line of 1023 bytes fills the buffer, and `realloc` fails: the line, which is stored, is sent
back by reads of 2048 bytes into the 1024 there are. -/
theorem failed_realloc_overruns :
    let line : List Byte := List.replicate 1022 97 ++ [newline]
    let os : List Outcome := List.replicate 4 (.granting line) ++
      [{ Outcome.granting line with alloc := none }] ++ List.replicate 7 (.granting line) ++
        [{ Outcome.granting line with read := line }] ++ List.replicate 8 (.granting line)
    ∃ events, run Code.step Code.threadfunc os = .ok (events, .ret) ∧ ¬ NeverOverruns events := by
  intro line os
  have hrun : run Code.step Code.threadfunc os = .ok ([.call .logAccepted, .malloc 1024 true,
      .call .lock, .recv 1023 line, .realloc 2048 false, .openFilePath (some 3), .write 3 line,
      .call (.fsync 3), .call (.closeFile 3), .call .unlock, .call .lock, .openDevice (some 3),
      .read 3 2048 line, .call (.send line), .read 3 2048 [], .call (.closeFile 3), .call .unlock,
      .call .logClosed, .call .closeSocket, .call .free, .call .setStatus], .ret) := by
    decide +kernel
  refine ⟨_, hrun, fun h ↦ ?_⟩
  have hread := h 12 (.read 3 2048 line) rfl
  exact absurd (hread ⟨3, line, by simp⟩) (by decide)

end Aesd
