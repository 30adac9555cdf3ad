import Aesd.Server.Decision

/-!
# Requests cut into chunks

A cut of a request into chunks can be delivered when each chunk is within the length that `recv`
asks for at that point (`Fits`). Every such cut is handled (`exists_run_of_fits`), and what the
thread does is the decision on the bytes it has received by then.

For a line that is no command those are the whole line, however it was cut. For a line that begins
with `IOCTL_CMD_STR` they are what has arrived when the first 19 bytes are there, from 19 bytes to
1023. So the cut matters exactly for the commands that can be parsed within 1023 bytes
(`same_effect_iff_not_early`).
-/

namespace Aesd

open Memory Execution

/-- A whole run of the thread, to its return, in which the successive `recv` calls deliver the
chunks of `cut`. -/
structure Handles (m : List Byte) (cut : List (List Byte)) (events : List Event) : Prop where
  flatten_eq : cut.flatten = m
  nonempty : ∀ chunk ∈ cut, chunk ≠ []
  delivered : events.filterMap Event.delivered <+: cut
  malloc : ∀ size, .malloc size false ∉ events
  realloc : ∀ size, .realloc size false ∉ events
  returns : ∃ os, run Code.step Code.threadfunc os = .ok (events, .ret)

/-- Each chunk is within the length asked for, when `n` bytes have been received into a block of
`size` bytes. -/
def Fits (n size : ℕ) : List (List Byte) → Prop
  | [] => True
  | chunk :: cut =>
    chunk ≠ [] ∧ n + chunk.length < size ∧
      Fits (n + chunk.length) (if n + chunk.length + 1 = size then 2 * size else size) cut

/-- The call was granted. -/
def Event.Granted : Event → Prop
  | .malloc _ ok | .realloc _ ok => ok = true
  | .recv _ data => data ≠ []
  | .openDevice fd | .openFilePath fd => fd ≠ none
  | _ => True

/-- A part of a run in which every call is granted, with the chunks delivered in it and the effects
it has. -/
structure Goes (chunks : List (List Byte)) (effs : List Effect) (events : List Event) : Prop where
  granted : ∀ e ∈ events, e.Granted
  delivered : events.filterMap Event.delivered = chunks
  effects : effects events = effs

namespace Goes

variable {chunks chunks' : List (List Byte)} {effs effs' : List Effect}
  {events events' : List Event}

theorem append (h : Goes chunks effs events) (h' : Goes chunks' effs' events') :
    Goes (chunks ++ chunks') (effs ++ effs') (events ++ events') where
  granted e he := (List.mem_append.1 he).elim (h.granted e) (h'.granted e)
  delivered := by rw [List.filterMap_append, h.delivered, h'.delivered]
  effects := by rw [Aesd.effects, List.filterMap_append, ← Aesd.effects, ← Aesd.effects, h.effects,
    h'.effects]

end Goes

/-! ### Every cut that fits is handled -/

section Runs

open Code

variable {l : Locals} {got : List Byte} {cut : List (List Byte)}

/-- The end of a request, from the decision on, when all goes well. -/
theorem exists_run_of_handle (h : l.Contains got) (hne : got ≠ []) :
    ∃ os events, run Code.step (handle l) os = .ok (events, .ret) ∧
      Goes [] [decision got] events := by
  rw [h.handle_eq hne, decision]
  split
  · rcases sscanfCmdOffset ((cString got).drop ioctlCmdStr.length) with - | seekto
    · refine ⟨List.replicate 6 (.granting []), [.call .malformed, .call .logClosed,
        .call .closeSocket, .call .free, .call .setStatus, .call .unlock], rfl, ?_, rfl, rfl⟩
      simp [Event.Granted]
    · refine ⟨List.replicate 9 (.granting []), [.openDevice (some 3), .ioctl 3 seekto true,
        .read 3 l.bufferSize [], .call (.closeFile 3), .call .logClosed, .call .closeSocket,
        .call .free, .call .setStatus, .call .unlock], ?_, ?_, rfl, rfl⟩
      · simp [run, parsed, Code.step, Outcome.granting, finishIoctl, calls]
      · simp [Event.Granted]
  · refine ⟨List.replicate 14 (.granting []), [.openFilePath (some 3),
      .write 3 (l.buffer.take l.totalReceived), .call (.fsync 3), .call (.closeFile 3),
      .call .unlock, .call .lock, .openDevice (some 3), .read 3 l.bufferSize [],
      .call (.closeFile 3), .call .unlock, .call .logClosed, .call .closeSocket, .call .free,
      .call .setStatus], ?_, ?_, rfl, ?_⟩
    · simp [run, Code.step, Outcome.granting, sendBack, finish, calls]
    · simp [Event.Granted]
    · show [Effect.write (l.buffer.take l.totalReceived)] = _
      rw [h.take_eq]

/-- The body of the loop for one chunk, with the `realloc` when it fills the buffer. -/
theorem exists_run_of_chunk (h : l.Ready got) {chunk : List Byte} (hne : chunk ≠ [])
    (hfits : got.length + chunk.length < l.buffer.length)
    (hlen : got.length + chunk.length < 2 ^ 61) :
    ∃ os events l', run Code.step (Code.recv l) os = .ok (events, scan l') ∧
      Goes [chunk] [] events ∧ l'.Ready (got ++ chunk) ∧
      l'.buffer.length = if got.length + chunk.length + 1 = l.buffer.length
        then 2 * l.buffer.length else l.buffer.length := by
  have hasked := h.asked_eq
  have hroom := h.room
  have hle : chunk.length ≤ asked l := by omega
  have hstep : (Code.recv l).step (.granting chunk) =
      .ok (.recv (asked l) chunk, received l chunk) := by
    show Except.ok _ = _
    rw [show (Outcome.granting chunk).recv = chunk from rfl, List.take_of_length_le hle, if_neg hne]
  obtain ⟨l', hlength, ⟨hcode, hready⟩ | ⟨hcode, hfull⟩⟩ := h.received hne hle
  · refine ⟨[.granting chunk], [.recv (asked l) chunk], l', ?_, ⟨?_, rfl, rfl⟩, hready, ?_⟩
    · rw [hcode] at hstep
      exact run_cons_of_ok hstep rfl
    · simpa [Event.Granted] using hne
    · have hmore := hready.room
      rw [List.length_append] at hmore
      rw [if_neg (by omega), hlength]
  · -- the buffer is full and grows to twice its size
    have hsize := hfull.full
    rw [List.length_append] at hsize
    have hmax : l'.bufferSize ≤ mallocMaxSize := by
      rw [hfull.size_eq, mallocMaxSize]
      omega
    refine ⟨[.granting chunk, .granting []],
      [.recv (asked l) chunk, .realloc l'.bufferSize true], _, ?_, ⟨?_, rfl, rfl⟩,
      hfull.realloc hmax fun _ ↦ 0, ?_⟩
    · rw [hcode] at hstep
      refine run_cons_of_ok hstep (run_cons_of_ok ?_ rfl)
      show (if l'.bufferSize ≤ mallocMaxSize then _ else _) = _
      rw [if_pos hmax]
    · simpa [Event.Granted] using hne
    · show (resize l'.buffer l'.bufferSize _).length = _
      rw [length_resize, hfull.size_eq, hlength, if_pos (by omega), Nat.mul_comm]

/-- The receive loop, when the chunks that are coming end it. -/
theorem exists_run_of_fits (h : l.Ready got) (hfits : Fits got.length l.buffer.length cut)
    (hgoes : ¬ (newline ∈ cString got ∨ ioctlCmdStr <+: cString got))
    (hstops : newline ∈ cString (got ++ cut.flatten) ∨ ioctlCmdStr <+: cString (got ++ cut.flatten))
    (hlen : got.length + cut.flatten.length < 2 ^ 61) :
    ∃ os events chunks l', run Code.step (Code.recv l) os = .ok (events, handle l') ∧
      Goes chunks [] events ∧ chunks <+: cut ∧ l'.Contains (got ++ chunks.flatten) ∧
      got ++ chunks.flatten ≠ [] := by
  induction cut generalizing l got with
  | nil =>
    rw [List.flatten_nil, List.append_nil] at hstops
    exact absurd hstops hgoes
  | cons chunk cut ih =>
    obtain ⟨hne, hlt, hfits'⟩ := hfits
    rw [List.flatten_cons, List.length_append] at hlen
    obtain ⟨os, events, l', hrun, hgoes', hready, hlength⟩ :=
      exists_run_of_chunk h hne hlt (by omega)
    have hne' : got ++ chunk ≠ [] := List.append_ne_nil_of_right_ne_nil got hne
    rw [hready.toContains.scan_eq hne'] at hrun
    split at hrun
    · refine ⟨os, events, [chunk], l', hrun, hgoes', ?_, ?_, ?_⟩
      · exact ⟨cut, rfl⟩
      · rw [List.flatten_singleton]
        exact hready.toContains
      · rw [List.flatten_singleton]
        exact hne'
    · rename_i hmore
      rw [List.flatten_cons, ← List.append_assoc] at hstops
      obtain ⟨os', events', chunks, l'', hrun', hgoes'', hchunks, hcontains, hgot⟩ :=
        ih hready (by rwa [List.length_append, hlength]) hmore hstops
          (by rw [List.length_append]; omega)
      rw [List.append_assoc, ← List.flatten_cons] at hcontains hgot
      exact ⟨os ++ os', events ++ events', chunk :: chunks, l'',
        run_append_eq_ok_iff.2 ⟨_, _, _, hrun, hrun', rfl⟩, hgoes'.append hgoes'',
        (List.prefix_cons_inj chunk).2 hchunks, hcontains, hgot⟩

/-- **Every cut that fits is handled**: the thread returns, having done what it decided. -/
theorem exists_run_of_threadfunc (hfits : Fits 0 1024 cut)
    (hstops : newline ∈ cString cut.flatten ∨ ioctlCmdStr <+: cString cut.flatten)
    (hlen : cut.flatten.length < 2 ^ 61) :
    ∃ os events chunks, run Code.step threadfunc os = .ok (events, .ret) ∧ chunks <+: cut ∧
      chunks ≠ [] ∧ Goes chunks [decision chunks.flatten] events := by
  have hready := Locals.Ready.init fun _ ↦ 0
  have hstart : run Code.step threadfunc (List.replicate 3 (.granting [])) =
      .ok ([.call .logAccepted, .malloc 1024 true, .call .lock],
        Code.recv ⟨resize [] 1024 fun _ ↦ 0, 1024, 0⟩) := rfl
  have hgoes : Goes [] [] [.call .logAccepted, .malloc 1024 true, .call .lock] :=
    ⟨by simp [Event.Granted], rfl, rfl⟩
  obtain ⟨os, events, chunks, l, hrun, hgoes', hchunks, hcontains, hne⟩ :=
    exists_run_of_fits hready (by simpa using hfits) (by decide) (by simpa using hstops)
      (by simpa using hlen)
  obtain ⟨os', events', hrun', hgoes''⟩ := exists_run_of_handle hcontains hne
  refine ⟨_, _, chunks, run_append_eq_ok_iff.2 ⟨_, _, _, hstart,
    run_append_eq_ok_iff.2 ⟨_, _, _, hrun, hrun', rfl⟩, rfl⟩, hchunks, ?_, ?_⟩
  · rintro rfl
    exact hne rfl
  · have := hgoes.append (hgoes'.append hgoes'')
    simpa using this

end Runs

theorem handles_of_goes {os : List Outcome} {chunks cut : List (List Byte)} {effs : List Effect}
    {events : List Event} (hrun : run Code.step Code.threadfunc os = .ok (events, .ret))
    (hgoes : Goes chunks effs events) (hchunks : chunks <+: cut) (hne : ∀ chunk ∈ cut, chunk ≠ []) :
    Handles cut.flatten cut events where
  flatten_eq := rfl
  nonempty := hne
  delivered := hgoes.delivered ▸ hchunks
  malloc _ hmem := Bool.false_ne_true (hgoes.granted _ hmem)
  realloc _ hmem := Bool.false_ne_true (hgoes.granted _ hmem)
  returns := ⟨os, hrun⟩

/-! ### Two cuts of one request -/

section Line

variable {m got : List Byte} {cut : List (List Byte)} {events : List Event}

/-- A cut into the first bytes and the rest. -/
theorem exists_cut_of_take {k : ℕ} (hk : m.take k ≠ []) :
    ∃ cut, cut.flatten = m ∧ (∀ chunk ∈ cut, chunk ≠ []) ∧ [m.take k] <+: cut := by
  rcases Decidable.em (m.drop k = []) with hnil | hrest
  · refine ⟨[m.take k], ?_, by simpa using hk, List.prefix_refl _⟩
    rw [List.flatten_singleton, List.take_of_length_le (List.drop_eq_nil_iff.1 hnil)]
  · refine ⟨[m.take k, m.drop k], ?_, by simp [hk, hrest], m.drop k :: [], rfl⟩
    rw [List.flatten_cons, List.flatten_singleton, List.take_append_drop]

/-- A command of which the first chunk brings `k` bytes, enough to see that it is one. -/
theorem exists_handles_take (hm : IsLine m) (hstart : ioctlCmdStr <+: m) {k : ℕ} (hk : 19 ≤ k)
    (hk' : k ≤ 1023) :
    ∃ cut events, Handles m cut events ∧ effects events = [decision (m.take k)] ∧
      ¬ OpenFails events := by
  have hlen : (m.take k).length ≤ k := List.length_take_le ..
  have hseen : ioctlCmdStr <+: m.take k := by
    rw [List.prefix_take_iff]
    exact ⟨hstart, hk⟩
  have hne : m.take k ≠ [] := by
    intro hnil
    rw [hnil] at hseen
    exact absurd hseen (by decide)
  have hfits : Fits 0 1024 [m.take k] := ⟨hne, by omega, trivial⟩
  obtain ⟨os, events, chunks, hrun, hchunks, hnil, hgoes⟩ := exists_run_of_threadfunc hfits
    (Or.inr (by rwa [List.flatten_singleton, hm.cString_eq (List.take_prefix k m)]))
    (by rw [List.flatten_singleton]; omega)
  obtain rfl : chunks = [m.take k] := by
    rcases List.prefix_cons_iff.1 hchunks with hempty | ⟨rest, rfl, hrest⟩
    · exact absurd hempty hnil
    · rw [List.prefix_nil.1 hrest]
  obtain ⟨cut, hflatten, hnonempty, hfirst⟩ := exists_cut_of_take hne
  have hhandles := handles_of_goes hrun hgoes hfirst hnonempty
  rw [hflatten] at hhandles
  have heffects := hgoes.effects
  rw [List.flatten_singleton] at heffects
  refine ⟨cut, events, hhandles, heffects, ?_⟩
  rintro (hmem | hmem)
  · exact hgoes.granted _ hmem rfl
  · exact hgoes.granted _ hmem rfl

/-- The decision on a line does not depend on how much of it has arrived, unless it is a command
that can be parsed early. -/
theorem decision_of_decides (hm : IsLine m) (hgot : got <+: m) (hdecides : Decides got)
    (hearly : ¬ (ioctlCmdStr <+: m ∧
      (sscanfCmdOffset ((m.take 1023).drop ioctlCmdStr.length)).isSome)) :
    decision got = if ioctlCmdStr <+: m then .malformed else .write m := by
  have hself := hm.cString_eq hgot
  have hstops := hdecides.stops
  have hfirst := hdecides.early
  rw [hself, hm.newline_mem_iff hgot] at hstops
  rw [hself] at hfirst
  rw [decision, hself]
  rcases Decidable.em (ioctlCmdStr <+: m) with hstart | hother
  · have hseen : ioctlCmdStr <+: got := hstops.elim (fun heq ↦ heq ▸ hstart) id
    have hnone : sscanfCmdOffset (got.drop ioctlCmdStr.length) = none := by
      rw [← Option.not_isSome_iff_eq_none]
      refine fun hsome ↦ hearly ⟨hstart, ?_⟩
      have hlt := hfirst hseen
      -- the bytes that have arrived are among the first 1023
      obtain ⟨t, ht⟩ : got <+: m.take 1023 := by
        rw [List.prefix_take_iff]
        exact ⟨hgot, by omega⟩
      rw [← ht, List.drop_append_of_le_length hseen.length_le]
      exact sscanfCmdOffset_append hsome t
    rw [if_pos hseen, if_pos hstart, hnone]
  · have hunseen : ¬ ioctlCmdStr <+: got := fun hseen ↦ hother (hseen.trans hgot)
    rw [if_neg hunseen, if_neg hother, hstops.resolve_right hunseen]

/-- What every run of a request comes to, whatever the cut. -/
theorem Handles.performs (h : Handles m cut events) :
    receivedBytes events <+: m ∧ Decides (receivedBytes events) ∧
      Performs (decision (receivedBytes events)) events := by
  obtain ⟨os, hrun⟩ := h.returns
  have hfed : Fed events := by
    refine ⟨fun asked hmem ↦ ?_, h.malloc, h.realloc⟩
    refine h.nonempty [] (h.delivered.subset ?_) rfl
    exact List.mem_filterMap.2 ⟨_, hmem, rfl⟩
  refine ⟨?_, performs_decision hrun hfed⟩
  obtain ⟨rest, hrest⟩ := h.delivered
  refine ⟨rest.flatten, ?_⟩
  rw [receivedBytes, ← List.flatten_append, hrest, h.flatten_eq]

end Line

/-- **When the cut into chunks does not change what a request does.** For a line without NUL, any
two runs do the same to the device, a `write` of the line, a seek or the malformed branch, if and
only if the line is not a command whose two numbers can be scanned within its first 1023 bytes. -/
theorem same_effect_iff_not_early {m : List Byte} (hm : IsLine m) :
    (∀ cut₁ cut₂ events₁ events₂, Handles m cut₁ events₁ → Handles m cut₂ events₂ →
      ∃ effect, (effect = .write m ∨ (∃ seekto, effect = .seek seekto) ∨ effect = .malformed) ∧
        Performs effect events₁ ∧ Performs effect events₂) ↔
    ¬ (ioctlCmdStr <+: m ∧
      (sscanfCmdOffset ((m.take 1023).drop ioctlCmdStr.length)).isSome) := by
  constructor
  · rintro hsame ⟨hstart, hsome⟩
    -- one run sees the first 1023 bytes at once, the other only that it is a command
    obtain ⟨cut₁, events₁, hhandles₁, heffects₁, hopen₁⟩ :=
      exists_handles_take hm hstart (k := 1023) (by decide) (Nat.le_refl _)
    obtain ⟨cut₂, events₂, hhandles₂, heffects₂, hopen₂⟩ :=
      exists_handles_take hm hstart (k := 19) (Nat.le_refl _) (by decide)
    obtain ⟨effect, -, hperforms₁, hperforms₂⟩ := hsame _ _ _ _ hhandles₁ hhandles₂
    have h₁ := hperforms₁.resolve_right fun hfails ↦ hopen₁ hfails.2
    have h₂ := hperforms₂.resolve_right fun hfails ↦ hopen₂ hfails.2
    rw [heffects₁] at h₁
    rw [heffects₂] at h₂
    have heq : decision (m.take 1023) = decision (m.take 19) :=
      (List.singleton_inj.1 h₁).trans (List.singleton_inj.1 h₂).symm
    have hcmd : m.take 19 = ioctlCmdStr := (List.prefix_iff_eq_take.1 hstart).symm
    have hseen : ioctlCmdStr <+: m.take 1023 := by
      rw [List.prefix_take_iff]
      exact ⟨hstart, by decide⟩
    obtain ⟨seekto, hseekto⟩ := Option.isSome_iff_exists.1 hsome
    have hmalformed : decision ioctlCmdStr = .malformed := by decide
    rw [hcmd, hmalformed, decision, hm.cString_eq (List.take_prefix 1023 m), if_pos hseen,
      hseekto] at heq
    exact absurd heq Effect.noConfusion
  · intro hearly cut₁ cut₂ events₁ events₂ hhandles₁ hhandles₂
    obtain ⟨hgot₁, hdecides₁, hperforms₁⟩ := hhandles₁.performs
    obtain ⟨hgot₂, hdecides₂, hperforms₂⟩ := hhandles₂.performs
    rw [decision_of_decides hm hgot₁ hdecides₁ hearly] at hperforms₁
    rw [decision_of_decides hm hgot₂ hdecides₂ hearly] at hperforms₂
    refine ⟨_, ?_, hperforms₁, hperforms₂⟩
    split
    · exact Or.inr (Or.inr rfl)
    · exact Or.inl rfl

/-- A line in one chunk and in two. -/
theorem same_effect_iff_not_early_line :
    let line : List Byte := [104, 105, newline]
    ∃ events₁ events₂, Handles line [line] events₁ ∧ Handles line [[104], [105, newline]] events₂ ∧
      ∃ effect, Performs effect events₁ ∧ Performs effect events₂ := by
  intro line
  have hline : IsLine line := ⟨by decide, [104, 105], rfl, by decide⟩
  have hcut₁ : Fits 0 1024 [line] := ⟨by decide, by decide, trivial⟩
  have hcut₂ : Fits 0 1024 [[104], [105, newline]] :=
    ⟨by decide, by decide, by decide, by decide, trivial⟩
  obtain ⟨os₁, events₁, chunks₁, hrun₁, hchunks₁, -, hgoes₁⟩ :=
    exists_run_of_threadfunc hcut₁ (by decide) (by decide)
  obtain ⟨os₂, events₂, chunks₂, hrun₂, hchunks₂, -, hgoes₂⟩ :=
    exists_run_of_threadfunc hcut₂ (by decide) (by decide)
  have h₁ := handles_of_goes hrun₁ hgoes₁ hchunks₁ (by decide)
  have h₂ := handles_of_goes hrun₂ hgoes₂ hchunks₂ (by decide)
  obtain ⟨effect, -, hperforms⟩ :=
    (same_effect_iff_not_early hline).2 (by decide) _ _ events₁ events₂ h₁ h₂
  exact ⟨events₁, events₂, h₁, h₂, effect, hperforms⟩

/-- A seek that arrives at once is done; cut behind the colon it is malformed. -/
theorem cut_seek_is_malformed :
    let request := ioctlCmdStr ++ [49, 44, 50, newline]
    let whole : List Event := [.call .logAccepted, .malloc 1024 true, .call .lock,
      .recv 1023 request, .openDevice (some 3), .ioctl 3 ⟨1, 2⟩ true, .read 3 1024 [],
      .call (.closeFile 3), .call .logClosed, .call .closeSocket, .call .free, .call .setStatus,
      .call .unlock]
    let cut : List Event := [.call .logAccepted, .malloc 1024 true, .call .lock,
      .recv 1023 ioctlCmdStr, .call .malformed, .call .logClosed, .call .closeSocket, .call .free,
      .call .setStatus, .call .unlock]
    IsLine request ∧ Handles request [request] whole ∧
      Handles request [ioctlCmdStr, [49, 44, 50, newline]] cut ∧
      effects whole = [.seek ⟨1, 2⟩] ∧ effects cut = [.malformed] ∧
      ¬ ∃ effect, Performs effect whole ∧ Performs effect cut := by
  intro request whole cut
  have hwhole : Goes [request] [.seek ⟨1, 2⟩] whole :=
    ⟨by simp [whole, Event.Granted, request], rfl, rfl⟩
  have hne : ioctlCmdStr ≠ [] := by decide
  have hcut : Goes [ioctlCmdStr] [.malformed] cut :=
    ⟨by simp [cut, Event.Granted, hne], rfl, rfl⟩
  have hrun : run Code.step Code.threadfunc (List.replicate 13 (.granting request)) =
      .ok (whole, .ret) := by decide +kernel
  have hrun' : run Code.step Code.threadfunc (List.replicate 10 (.granting ioctlCmdStr)) =
      .ok (cut, .ret) := by decide +kernel
  refine ⟨⟨by decide, ioctlCmdStr ++ [49, 44, 50], rfl, by decide⟩,
    handles_of_goes hrun hwhole (List.prefix_refl _) (by decide),
    handles_of_goes hrun' hcut ⟨[[49, 44, 50, newline]], rfl⟩ (by decide), rfl, rfl, ?_⟩
  rintro ⟨effect, hperforms, hperforms'⟩
  have heffect := hperforms.resolve_right fun hfails ↦ absurd hfails.1 (by decide)
  have heffect' := hperforms'.resolve_right fun hfails ↦ absurd hfails.1 (by decide)
  rw [hwhole.effects] at heffect
  rw [hcut.effects, ← heffect] at heffect'
  exact absurd heffect' (by decide)

end Aesd
