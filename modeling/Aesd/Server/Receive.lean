import Aesd.Server.Thread

/-!
# The receive loop

Where the receive loop stands is `Locals.Ready l got`: the buffer begins with the bytes received
so far, `got`, there is room for at least one more and for the NUL, and `buffer_size` is the size
of the block. The body of the loop keeps it (`Ready.received`), by way of `Locals.Full l got` when
the buffer has to grow, which is where `realloc` is called (`Full.realloc`). Whatever ends the
loop, the buffer holds `got` (`Locals.Contains l got`), and the tests of the source are tests of
`got` (`Contains.scan_eq`, `Contains.handle_eq`).

So the thread keeps track of what it has received, from its first call to the `write`
(`tracks_of_run`): what it writes is exactly that.
-/

namespace Aesd

open Memory Code

/-- The buffer begins with the bytes received so far, and with a NUL behind them. -/
structure Locals.Contains (l : Locals) (got : List Byte) : Prop where
  total : l.totalReceived = got.length
  contents : got <+: l.buffer
  terminated : got ≠ [] → got ++ [0] <+: l.buffer

/-- The loop may receive more. -/
structure Locals.Ready (l : Locals) (got : List Byte) : Prop extends l.Contains got where
  size_eq : l.bufferSize = l.buffer.length
  room : got.length + 1 < l.buffer.length
  size_le : l.buffer.length ≤ mallocMaxSize

/-- The buffer is full, and `buffer_size` has been doubled. -/
structure Locals.Full (l : Locals) (got : List Byte) : Prop extends l.Contains got where
  ne_nil : got ≠ []
  full : got.length + 1 = l.buffer.length
  size_eq : l.bufferSize = l.buffer.length * 2

/-- The body of the loop up to the test whether the buffer is full: `data` and a NUL are put behind
what was received. -/
def Locals.gather (l : Locals) (data : List Byte) : Locals :=
  let l := { l.store l.totalReceived data with
    totalReceived := sizeT (l.totalReceived + data.length) }
  l.store l.totalReceived [0]

/-- The test at the end of the loop's body. -/
def Locals.stops (l : Locals) : Bool :=
  strchrNewline l.buffer || strncmpIoctl l.buffer

theorem Code.received_eq (l : Locals) (data : List Byte) :
    received l data =
      if (l.gather data).totalReceived ≥ l.bufferSize - 1 then
        realloc { l.gather data with bufferSize := sizeT (l.bufferSize * 2) }
      else scan (l.gather data) :=
  rfl

theorem Code.scan_eq (l : Locals) : scan l = if l.stops then handle l else recv l :=
  rfl

namespace Locals

variable {l : Locals} {got data : List Byte}

theorem store_buffer {off : ℕ} {bytes : List Byte} (h : off + bytes.length ≤ l.buffer.length) :
    (l.store off bytes).buffer = overwrite l.buffer off bytes := by
  rw [store, ← length_overwrite h]
  exact List.take_length

theorem length_store_buffer {off : ℕ} {bytes : List Byte}
    (h : off + bytes.length ≤ l.buffer.length) :
    (l.store off bytes).buffer.length = l.buffer.length := by
  rw [store_buffer h, length_overwrite h]

/-- Storing behind what the buffer begins with. -/
theorem append_isPrefix_store (h : got <+: l.buffer)
    (hroom : got.length + data.length ≤ l.buffer.length) :
    got ++ data <+: (l.store got.length data).buffer := by
  have htake : l.buffer.take got.length = got := (List.prefix_iff_eq_take.1 h).symm
  have hlen : (got ++ data).length = got.length + data.length := List.length_append
  rw [List.prefix_iff_eq_take, store_buffer hroom, hlen, take_overwrite (by omega), htake]

namespace Contains

theorem cString_eq (h : l.Contains got) (hne : got ≠ []) : cString l.buffer = cString got := by
  obtain ⟨rest, hrest⟩ := h.terminated hne
  rw [← hrest, List.append_assoc, List.singleton_append, cString_append_zero]

theorem take_eq (h : l.Contains got) : l.buffer.take l.totalReceived = got := by
  rw [h.total]
  exact (List.prefix_iff_eq_take.1 h.contents).symm

theorem total_pos_iff (h : l.Contains got) : l.totalReceived > 0 ↔ got ≠ [] := by
  rw [h.total]
  exact List.length_pos_iff

/-- The test at the end of the loop's body looks at what was received. -/
theorem stops_iff (h : l.Contains got) (hne : got ≠ []) :
    l.stops = true ↔ newline ∈ cString got ∨ ioctlCmdStr <+: cString got := by
  rw [stops, Bool.or_eq_true, strchrNewline_iff, strncmpIoctl_iff, h.cString_eq hne]

theorem scan_eq (h : l.Contains got) (hne : got ≠ []) :
    scan l = if newline ∈ cString got ∨ ioctlCmdStr <+: cString got then handle l else recv l := by
  rw [Code.scan_eq]
  simp only [h.stops_iff hne]

/-- What the thread does with what was received. -/
theorem handle_eq (h : l.Contains got) (hne : got ≠ []) :
    handle l =
      if ioctlCmdStr <+: cString got then
        parsed l (sscanfCmdOffset ((cString got).drop ioctlCmdStr.length))
      else openWrite l := by
  have htest : strncmpIoctl l.buffer = true ↔ ioctlCmdStr <+: cString got := by
    rw [strncmpIoctl_iff, h.cString_eq hne]
  rw [handle, if_pos (h.total_pos_iff.2 hne), h.cString_eq hne]
  rcases Decidable.em (ioctlCmdStr <+: cString got) with hstart | hstart
  · rw [if_pos hstart, if_pos (htest.2 hstart)]
  · rw [if_neg hstart, if_neg fun hnot ↦ hstart (htest.1 hnot)]

end Contains

/-- With nothing received the thread is done, still under the mutex. -/
theorem handle_of_total_eq_zero (h : l.totalReceived = 0) : handle l = finish := by
  rw [handle, if_neg (by omega)]

namespace Ready

/-- After `malloc`. -/
theorem init (junk : Junk) : Ready ⟨resize [] 1024 junk, 1024, 0⟩ [] where
  total := rfl
  contents := List.nil_prefix
  terminated h := absurd rfl h
  size_eq := by simp
  room := by simp
  size_le := by simp [mallocMaxSize]

theorem asked_eq (h : l.Ready got) : asked l = l.buffer.length - got.length - 1 := by
  have hroom := h.room
  have hmax : mallocMaxSize < 2 ^ 63 := by decide
  have hle := h.size_le
  rw [asked, h.size_eq, h.total, sizeT]
  omega

/-- **Each `recv` asks for at least one byte.** -/
theorem asked_pos (h : l.Ready got) : 0 < asked l := by
  have hroom := h.room
  rw [h.asked_eq]
  omega

/-- What `recv` delivered stands behind what there was, in the same block, with a NUL behind it. -/
theorem gather (h : l.Ready got) (hdata : data.length ≤ asked l) :
    (l.gather data).Contains (got ++ data) ∧
      (l.gather data).buffer.length = l.buffer.length := by
  rw [h.asked_eq] at hdata
  have hroom := h.room
  have hle := h.size_le
  have hmax : mallocMaxSize < 2 ^ 63 := by decide
  have hlen : (got ++ data).length = got.length + data.length := List.length_append
  have htotal : sizeT (l.totalReceived + data.length) = (got ++ data).length := by
    rw [h.total, hlen, sizeT_of_lt (by omega)]
  -- the variables between the store of the data and that of the NUL
  set l₁ : Locals := { l.store l.totalReceived data with
    totalReceived := sizeT (l.totalReceived + data.length) }
  have hgather : l.gather data = l₁.store (got ++ data).length [0] := by
    rw [← htotal]
    rfl
  have hlength : l₁.buffer.length = l.buffer.length := by
    show (l.store l.totalReceived data).buffer.length = _
    rw [length_store_buffer (by rw [h.total]; omega)]
  have hcontents : got ++ data <+: l₁.buffer := by
    show got ++ data <+: (l.store l.totalReceived data).buffer
    rw [h.total]
    exact append_isPrefix_store h.contents (by omega)
  have hfits : (got ++ data).length + [(0 : Byte)].length ≤ l₁.buffer.length := by
    rw [hlength, List.length_singleton]
    omega
  have hterminated : got ++ data ++ [0] <+: (l.gather data).buffer := by
    rw [hgather]
    exact append_isPrefix_store hcontents hfits
  refine ⟨⟨htotal, (List.prefix_append _ _).trans hterminated, fun _ ↦ hterminated⟩, ?_⟩
  rw [hgather, length_store_buffer hfits, hlength]

/-- **The body of the loop**: it comes to the test at its end, or the buffer has to grow. -/
theorem received (h : l.Ready got) (hne : data ≠ []) (hdata : data.length ≤ asked l) :
    ∃ l' : Locals, l'.buffer.length = l.buffer.length ∧
      ((Code.received l data = scan l' ∧ l'.Ready (got ++ data)) ∨
        (Code.received l data = Code.realloc l' ∧ l'.Full (got ++ data))) := by
  obtain ⟨hcontains, hlength⟩ := h.gather hdata
  rw [h.asked_eq] at hdata
  have hroom := h.room
  have hle := h.size_le
  have hmax : mallocMaxSize < 2 ^ 63 := by decide
  have hlen : (got ++ data).length = got.length + data.length := List.length_append
  have hcode : Code.received l data =
      if (got ++ data).length ≥ l.buffer.length - 1 then
        Code.realloc { l.gather data with bufferSize := sizeT (l.buffer.length * 2) }
      else scan (l.gather data) := by
    rw [Code.received_eq, hcontains.total, h.size_eq]
  rcases Nat.lt_or_ge (got ++ data).length (l.buffer.length - 1) with hlt | hge
  · refine ⟨l.gather data, hlength, Or.inl ⟨?_, hcontains, ?_, by omega, by omega⟩⟩
    · rw [hcode, if_neg (by omega)]
    · show l.bufferSize = _
      rw [h.size_eq, hlength]
  · refine ⟨{ l.gather data with bufferSize := sizeT (l.buffer.length * 2) }, hlength, Or.inr ⟨?_,
      ⟨hcontains.total, hcontains.contents, hcontains.terminated⟩,
      List.append_ne_nil_of_right_ne_nil got hne, ?_, ?_⟩⟩
    · rw [hcode, if_pos hge]
    · show (got ++ data).length + 1 = (l.gather data).buffer.length
      omega
    · show sizeT (l.buffer.length * 2) = (l.gather data).buffer.length * 2
      rw [sizeT_of_lt (by omega), hlength]

end Ready

/-- **`realloc` succeeds**: the loop may go on. -/
theorem Full.realloc (h : l.Full got) (hle : l.bufferSize ≤ mallocMaxSize) (junk : Junk) :
    Ready { l with buffer := resize l.buffer l.bufferSize junk } got := by
  have hfull := h.full
  have hsize := h.size_eq
  have hterminated : got ++ [0] <+: resize l.buffer l.bufferSize junk := by
    have hold := h.terminated h.ne_nil
    have hlen : (got ++ [0]).length = l.buffer.length := by
      rw [List.length_append, List.length_singleton, hfull]
    rw [List.prefix_iff_eq_take, hlen] at hold ⊢
    rw [take_resize (Nat.le_refl _) (by omega)]
    exact hold
  exact
    { total := h.total
      contents := (List.prefix_append _ _).trans hterminated
      terminated := fun _ ↦ hterminated
      size_eq := (length_resize _ _ _).symm
      room := by
        show got.length + 1 < (resize l.buffer l.bufferSize junk).length
        rw [length_resize]
        omega
      size_le := by
        show (resize l.buffer l.bufferSize junk).length ≤ mallocMaxSize
        rw [length_resize]
        exact hle }

end Locals

/-! ### The thread keeps track -/

/-- What a `recv` delivers. -/
def Event.delivered : Event → Option (List Byte)
  | .recv _ data => some data
  | _ => none

/-- Only `recv` delivers anything. -/
theorem Code.delivered_eq_none {code code' : Code} {e : Event} (hstep : Code.Step code e code')
    (hcode : ∀ l, code ≠ .recv l) : e.delivered = none := by
  cases hstep with
  | recvNothing l => exact absurd rfl (hcode l)
  | recv l data hne hle => exact absurd rfl (hcode l)
  | _ => rfl

/-- What is delivered is part of what `recv` has for the thread. -/
theorem Code.exists_take_of_delivered {code code' : Code} {o : Outcome} {e : Event}
    (hstep : code.step o = .ok (e, code')) {data : List Byte} (h : e.delivered = some data) :
    ∃ n, data = o.recv.take n := by
  cases code with
  | recv l =>
    obtain ⟨he, -⟩ := Prod.mk.inj (Except.ok.inj hstep)
    rw [← he] at h
    exact ⟨asked l, (Option.some.inj h).symm⟩
  | _ =>
    rw [Code.delivered_eq_none (Code.step_cases hstep) (by simp)] at h
    exact absurd h (by simp)

/-- The bytes the thread has received. -/
def receivedBytes (events : List Event) : List Byte :=
  (events.filterMap Event.delivered).flatten

theorem receivedBytes_concat (events : List Event) (e : Event) :
    receivedBytes (events ++ [e]) = receivedBytes events ++ (e.delivered.getD []) := by
  rw [receivedBytes, List.filterMap_append, List.flatten_append]
  rcases hdata : e.delivered with - | data <;> simp [hdata, receivedBytes]

/-- Most calls deliver nothing. -/
theorem receivedBytes_concat_of_none (events : List Event) {e : Event} (h : e.delivered = none) :
    receivedBytes (events ++ [e]) = receivedBytes events := by
  rw [receivedBytes_concat, h, Option.getD_none, List.append_nil]

theorem receivedBytes_isPrefix {events events' : List Event} (h : events <+: events') :
    receivedBytes events <+: receivedBytes events' := by
  obtain ⟨rest, rfl⟩ := h
  rw [receivedBytes, receivedBytes, List.filterMap_append, List.flatten_append]
  exact List.prefix_append _ _

/-- Up to its `write`, the thread has what it received in its buffer. -/
def Code.Tracks (got : List Byte) : Code → Prop
  | .call _ next => next.Tracks got
  | .malloc => got = []
  | .recv l => l.Ready got
  | .realloc l => l.Full got
  | .openWrite l | .write l _ => l.Contains got ∧ got ≠ []
  | _ => True

namespace Code

variable {l : Locals} {got : List Byte}

theorem tracks_finish (got : List Byte) : finish.Tracks got :=
  trivial

theorem tracks_finishIoctl (got : List Byte) : finishIoctl.Tracks got :=
  trivial

theorem tracks_handle (h : l.Contains got) : (handle l).Tracks got := by
  rcases Decidable.em (got = []) with hnil | hne
  · rw [Locals.handle_of_total_eq_zero (by rw [h.total, hnil]; rfl)]
    exact tracks_finish got
  · rw [h.handle_eq hne]
    split
    · rcases sscanfCmdOffset ((cString got).drop ioctlCmdStr.length) with - | seekto
      · exact tracks_finishIoctl got
      · exact trivial
    · exact ⟨h, hne⟩

theorem tracks_scan (h : l.Ready got) (hne : got ≠ []) : (scan l).Tracks got := by
  rw [h.toContains.scan_eq hne]
  split
  · exact tracks_handle h.toContains
  · exact h

/-- **One call keeps track.** -/
theorem Tracks.step {code code' : Code} (h : code.Tracks got) {o : Outcome} {e : Event}
    (hstep : code.step o = .ok (e, code')) : code'.Tracks (got ++ e.delivered.getD []) := by
  -- only `recv` delivers anything
  have hself : ∀ {next : Code}, next.Tracks got → next.Tracks (got ++ []) := fun h ↦ by
    rwa [List.append_nil]
  cases step_cases hstep with
  | call a next => exact hself h
  | mallocFails => exact hself trivial
  | malloc junk =>
    obtain rfl : got = [] := h
    exact Locals.Ready.init junk
  | recvNothing l => exact hself (tracks_handle (Locals.Ready.toContains h))
  | recv l data hne hle =>
    show (received l data).Tracks (got ++ data)
    have hne' : got ++ data ≠ [] := List.append_ne_nil_of_right_ne_nil got hne
    obtain ⟨l', -, ⟨hcode, hready⟩ | ⟨hcode, hfull⟩⟩ := Locals.Ready.received h hne hle
    · rw [hcode]
      exact tracks_scan hready hne'
    · rw [hcode]
      exact hfull
  | reallocFails l => exact hself (tracks_handle (Locals.Full.toContains h))
  | realloc l junk hle =>
    exact hself (tracks_scan (Locals.Full.realloc h hle junk) (Locals.Full.ne_nil h))
  | openIoctlFails l seekto => exact hself (tracks_finishIoctl got)
  | openIoctl l seekto fd => exact hself trivial
  | ioctlFails l fd seekto => exact hself trivial
  | ioctl l fd seekto => exact hself trivial
  | readIoctlEnd l fd => exact hself (tracks_finishIoctl got)
  | readIoctl l fd data hne hle => exact hself trivial
  | openWriteFails l => exact hself trivial
  | openWrite l fd => exact hself h
  | write l fd => exact hself trivial
  | openReadFails l => exact hself (tracks_finish got)
  | openRead l fd => exact hself trivial
  | readBackEnd l fd => exact hself (tracks_finish got)
  | readBack l fd data hne hle => exact hself trivial

/-- **A thread tracks what it has received**, in every run. -/
theorem tracks_of_run {os : List Outcome} {events : List Event} {code : Code}
    (h : Execution.run Code.step threadfunc os = .ok (events, code)) :
    code.Tracks (receivedBytes events) := by
  refine Execution.history_of_run (I := fun events code ↦ code.Tracks (receivedBytes events))
    (fun events code o e code' hI hstep ↦ ?_) rfl h
  rw [receivedBytes_concat]
  exact hI.step hstep

end Code

end Aesd
