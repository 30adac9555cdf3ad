import Aesd.Driver.WriteRuns
import Aesd.Server.Decision
import Aesd.Service.World

/-!
# Whose bytes a command has

What a thread writes is all it has received and will receive, up to the limit of one write
(`eq_take_of_mem_writes`), but the device keeps what it was given until a newline comes, whoever
sends it. So a command is made of whole writes, in the order they were made (`Composed`), and of one
connection's bytes only if that connection found nothing pending. That is so if every connection
that writes has received a newline and no write fails; a client that closes before its newline
leaves its bytes to the next one (`unfinished_line_is_mixed`).
-/

namespace Aesd

open Framing Execution MutualExclusion

/-- A write to the device: the connection and the bytes the driver got. -/
def writeOf (x : ℕ × Event) : Option (ℕ × List Byte) :=
  match x.2 with
  | .write _ bytes => some (x.1, bytes.take maxRwCount)
  | _ => none

/-- All writes, in order. -/
def writes (trace : List (ℕ × Event)) : List (ℕ × List Byte) :=
  trace.filterMap writeOf

/-- The bytes of writes, one after the other. -/
def joined (part : List (ℕ × List Byte)) : List Byte :=
  (part.map Prod.snd).flatten

/-- The log is made of the writes `ws`: each command of one part of them, what is pending of `rest`.
Writes that failed may be missing. -/
structure Composed (ws : List (ℕ × List Byte)) (s : Log Byte)
    (parts : List (List (ℕ × List Byte))) (rest : List (ℕ × List Byte)) : Prop where
  sublist : (parts.flatten ++ rest).Sublist ws
  committed_eq : s.committed = parts.map joined
  pending_eq : s.pending = joined rest
  ne_nil : ∀ part ∈ parts, part ≠ []

/-- A thread that writes finds nothing pending. -/
def WritesAlone (w : World) (x : ℕ × Choice) : Prop :=
  ∀ l fd, (w.proc x.1).code = .write l fd → w.env.kernel.pending = []

/-- A thread that writes has received a newline, and its write does not fail. -/
def WritesLine (w : World) (x : ℕ × Choice) : Prop :=
  ∀ l fd, (w.proc x.1).code = .write l fd →
    newline ∈ (userBuf (l.buffer.take l.totalReceived)).bytes ∧
      0 ≤ (w.env.kernel.writeFate (userBuf (l.buffer.take l.totalReceived)) x.2.outcome).ret
        (userBuf (l.buffer.take l.totalReceived)).count

/-- The variables of a thread that is about to write. -/
def Code.writesFrom : Code → Option Locals
  | .write l _ => some l
  | _ => none

theorem Code.exists_eq_write {code : Code} {l : Locals} (h : l ∈ code.writesFrom) :
    ∃ fd, code = .write l fd := by
  cases code with
  | write l' fd =>
    obtain rfl := Option.some.inj h
    exact ⟨fd, rfl⟩
  | _ => exact absurd h (by simp [writesFrom])

instance (w : World) (x : ℕ × Choice) : Decidable (WritesLine w x) :=
  decidable_of_iff
    (∀ l ∈ (w.proc x.1).code.writesFrom,
      newline ∈ (userBuf (l.buffer.take l.totalReceived)).bytes ∧
        0 ≤ (w.env.kernel.writeFate (userBuf (l.buffer.take l.totalReceived)) x.2.outcome).ret
          (userBuf (l.buffer.take l.totalReceived)).count)
    ⟨fun h l fd hcode ↦ h l (by rw [hcode]; rfl), fun h l hl ↦ by
      obtain ⟨fd, hcode⟩ := Code.exists_eq_write hl
      exact h l fd hcode⟩

/-- Every command has the bytes of one connection: what it received, from the first byte on. -/
def OneSource (trace : List (ℕ × Event)) (cmds : List (List Byte)) : Prop :=
  ∀ cmd ∈ cmds, ∃ i, cmd <+: receivedBytes (own i trace)

/-! ### What the writes make of the log -/

section Composed

variable {ws : List (ℕ × List Byte)} {s : Log Byte} {parts : List (List (ℕ × List Byte))}
  {rest : List (ℕ × List Byte)}

theorem writes_concat_of_ne {trace : List (ℕ × Event)} {y : ℕ × Event}
    (h : ∀ fd bytes, y.2 ≠ .write fd bytes) : writes (trace ++ [y]) = writes trace := by
  have hnone : writeOf y = none := by
    rw [writeOf]
    split
    · rename_i fd bytes hy
      exact absurd hy (h fd bytes)
    · rfl
  rw [writes, List.filterMap_append, List.filterMap_cons_none hnone, List.filterMap_nil,
    List.append_nil]
  rfl

theorem writes_concat_write (trace : List (ℕ × Event)) (i fd : ℕ) (bytes : List Byte) :
    writes (trace ++ [(i, .write fd bytes)]) = writes trace ++ [(i, bytes.take maxRwCount)] := by
  rw [writes, List.filterMap_append]
  rfl

theorem joined_concat (part : List (ℕ × List Byte)) (i : ℕ) (b : List Byte) :
    joined (part ++ [(i, b)]) = joined part ++ b := by
  simp [joined]

theorem Composed.mono (h : Composed ws s parts rest) (x : ℕ × List Byte) :
    Composed (ws ++ [x]) s parts rest :=
  { h with sublist := h.sublist.trans (List.sublist_append_left ..) }

/-- **One more write**, whatever its fate. -/
theorem Composed.write (h : Composed ws s parts rest) (fate : WriteFate) (i : ℕ) (b : List Byte) :
    ∃ parts' rest', Composed (ws ++ [(i, b)]) (fate.log s b) parts' rest' := by
  have hkept : Composed (ws ++ [(i, b)]) ⟨s.committed, s.pending ++ b⟩ parts (rest ++ [(i, b)]) :=
    { sublist := by
        rw [← List.append_assoc]
        exact h.sublist.append (List.Sublist.refl _)
      committed_eq := h.committed_eq
      pending_eq := by rw [joined_concat, h.pending_eq]
      ne_nil := h.ne_nil }
  cases fate with
  | noRoom => exact ⟨parts, rest, h.mono _⟩
  | badCopy =>
    -- what was pending is lost
    refine ⟨parts, [], ?_, h.committed_eq, rfl, h.ne_nil⟩
    rw [List.append_nil]
    exact ((List.sublist_append_left ..).trans h.sublist).trans (List.sublist_append_left ..)
  | noCommand => exact ⟨parts, rest ++ [(i, b)], hkept⟩
  | kept => exact ⟨parts, rest ++ [(i, b)], hkept⟩
  | committed =>
    refine ⟨parts ++ [rest ++ [(i, b)]], [], ?_, ?_, rfl, ?_⟩
    · rw [List.append_nil, List.flatten_concat]
      exact hkept.sublist
    · rw [List.map_append, List.map_singleton, joined_concat, ← h.pending_eq, ← h.committed_eq]
      rfl
    · intro part hpart
      rcases List.mem_append.1 hpart with hold | hnew
      · exact h.ne_nil part hold
      · rw [List.mem_singleton.1 hnew]
        exact List.append_ne_nil_of_right_ne_nil _ (List.cons_ne_nil _ _)

end Composed

/-! ### Runs of the server -/

section Runs

variable {inboxes : ℕ → List (List Byte)} {xs : List (ℕ × Choice)} {trace : List (ℕ × Event)}
  {w w' : World} {x : ℕ × Choice} {y : ℕ × Event}

/-- **What a call does to the log**: nothing, or it is a write of all the thread has received, on a
closed file or with some fate. -/
theorem log_of_serve (hrun : run serve (start inboxes) xs = .ok (trace, w))
    (hserve : serve w x = .ok (y, w')) {s : Log Byte} (hs : w.env.Represents s) :
    (w'.env.Represents s ∧ ∀ fd bytes, y.2 ≠ .write fd bytes) ∨
      ∃ l fd, (w.proc x.1).code = .write l fd ∧
        y = (x.1, .write fd (l.buffer.take l.totalReceived)) ∧
        l.buffer.take l.totalReceived = receivedBytes (own x.1 trace) ∧
        (w'.env.Represents s ∨ w'.env.Represents
          ((w.env.kernel.writeFate (userBuf (l.buffer.take l.totalReceived)) x.2.outcome).log s
            ((l.buffer.take l.totalReceived).take maxRwCount))) := by
  obtain ⟨a, code, hdevice, hstep, hx, -, -⟩ := serve_cases hserve
  have hrep := represents_of_device hs hdevice
  rcases write_or_log_eq hstep with ⟨l, fd, hcode, he⟩ | ⟨hne, hlog⟩
  · refine Or.inr ⟨l, fd, hcode, Prod.ext hx he, ?_, ?_⟩
    · obtain ⟨os, hown⟩ := exists_run_own hrun x.1
      have htracks := Code.tracks_of_run hown
      rw [hcode] at htracks
      exact htracks.1.take_eq
    · rw [hcode] at hrep
      rcases hfile : w.env.files fd with - | filp
      · simp only [Code.op, Option.elim_some, Op.log, hfile] at hrep
        exact Or.inl hrep
      · simp only [Code.op, Option.elim_some, Op.log, hfile] at hrep
        exact Or.inr hrep
  · rw [hlog] at hrep
    exact Or.inl ⟨hrep, hne⟩

theorem receivedBytes_own_isPrefix (trace : List (ℕ × Event)) (y : ℕ × Event) (i : ℕ) :
    receivedBytes (own i trace) <+: receivedBytes (own i (trace ++ [y])) := by
  refine receivedBytes_isPrefix ?_
  rw [own, own, List.filterMap_append]
  exact List.prefix_append _ _

theorem OneSource.concat {cmds : List (List Byte)} (h : OneSource trace cmds) (y : ℕ × Event) :
    OneSource (trace ++ [y]) cmds := by
  intro cmd hcmd
  obtain ⟨i, hi⟩ := h cmd hcmd
  exact ⟨i, hi.trans (receivedBytes_own_isPrefix trace y i)⟩

/-- After its `write` a thread receives nothing, so what it wrote is all it will have received. -/
theorem eq_of_mem_write {os : List Outcome} {events : List Event} {code : Code}
    (h : run Code.step Code.threadfunc os = .ok (events, code)) :
    ∀ fd bytes, .write fd bytes ∈ events → bytes = receivedBytes events ∧ code.Quiet := by
  refine history_of_along (C := fun _ _ ↦ True) (I := fun events (code : Code) ↦
      ∀ fd bytes, .write fd bytes ∈ events → bytes = receivedBytes events ∧ code.Quiet) ?_ ?_ h
    (along_of_forall fun _ _ ↦ trivial)
  · intro os events code o e code' hbefore hI _ hstep fd bytes hmem
    have hcases := Code.step_cases hstep
    rcases List.mem_append.1 hmem with hold | hnew
    · obtain ⟨rfl, hquiet⟩ := hI fd bytes hold
      obtain ⟨-, hnone, hquiet'⟩ := hquiet.step hcases
      exact ⟨(receivedBytes_concat_of_none events hnone).symm, hquiet'⟩
    · obtain rfl := List.mem_singleton.1 hnew
      have htracks := Code.tracks_of_run hbefore
      cases hcases with
      | write l =>
        refine ⟨?_, rfl, rfl, rfl, rfl, trivial⟩
        rw [receivedBytes_concat_of_none events rfl]
        exact htracks.1.take_eq
  · exact fun fd bytes hmem ↦ absurd hmem List.not_mem_nil

/-- A write brings what its connection receives in the whole run, up to the limit of one write. -/
theorem eq_take_of_mem_writes (hrun : run serve (start inboxes) xs = .ok (trace, w)) :
    ∀ z ∈ writes trace, z.2 = (receivedBytes (own z.1 trace)).take maxRwCount := by
  rintro ⟨i, b⟩ hz
  obtain ⟨⟨j, e⟩, hmem, hwrite⟩ := List.mem_filterMap.1 hz
  rw [writeOf] at hwrite
  split at hwrite
  · rename_i fd bytes he
    obtain ⟨rfl, rfl⟩ := Prod.mk.inj (Option.some.inj hwrite)
    obtain ⟨os, hown⟩ := exists_run_own hrun j
    have hmem' : .write fd bytes ∈ own j trace := List.mem_filterMap.2 ⟨_, hmem, by simp [← he]⟩
    rw [← (eq_of_mem_write hown fd bytes hmem').1]
  · cases hwrite

/-- The log is made of the writes, always. -/
theorem exists_composed_of_run (hrun : run serve (start inboxes) xs = .ok (trace, w)) :
    ∃ s parts rest, w.env.Represents s ∧ Composed (writes trace) s parts rest := by
  refine history_of_along (C := fun _ _ ↦ True) (I := fun trace (w : World) ↦
      ∃ s parts rest, w.env.Represents s ∧ Composed (writes trace) s parts rest) ?_ ?_ hrun
    (along_of_forall fun _ _ ↦ trivial)
  · rintro xs trace w x y w' hbefore ⟨s, parts, rest, hs, hcomposed⟩ - hserve
    obtain ⟨hs', hne⟩ | ⟨l, fd, -, rfl, -, hs' | hs'⟩ := log_of_serve hbefore hserve hs
    · rw [writes_concat_of_ne hne]
      exact ⟨s, parts, rest, hs', hcomposed⟩
    · rw [writes_concat_write]
      exact ⟨s, parts, rest, hs', hcomposed.mono _⟩
    · rw [writes_concat_write]
      obtain ⟨parts', rest', hcomposed'⟩ := hcomposed.write
        (w.env.kernel.writeFate (userBuf (l.buffer.take l.totalReceived)) x.2.outcome) x.1
        ((l.buffer.take l.totalReceived).take maxRwCount)
      exact ⟨_, parts', rest', hs', hcomposed'⟩
  · exact ⟨Log.empty, [], [], System.represents_init, List.Sublist.refl _, rfl, rfl,
      fun part hpart ↦ absurd hpart List.not_mem_nil⟩

/-- A call before which nothing was pending, if it is a write, adds no command of mixed bytes. -/
theorem OneSource.serve (hrun : run Aesd.serve (start inboxes) xs = .ok (trace, w))
    (hserve : Aesd.serve w x = .ok (y, w')) (halone : WritesAlone w x)
    (h : OneSource trace w.env.kernel.committed) :
    OneSource (trace ++ [y]) w'.env.kernel.committed := by
  obtain ⟨s, hs⟩ := exists_represents_of_run hrun
  rw [hs.kernel.committed_eq] at h
  obtain ⟨hs', -⟩ | ⟨l, fd, hcode, rfl, hall, hs' | hs'⟩ := log_of_serve hrun hserve hs
  · rw [hs'.kernel.committed_eq]
    exact h.concat y
  · rw [hs'.kernel.committed_eq]
    exact h.concat _
  · have hnone : s.pending = [] := by
      rw [← hs.kernel.pending_eq]
      exact halone l fd hcode
    rw [hs'.kernel.committed_eq]
    rcases hfate : w.env.kernel.writeFate (userBuf (l.buffer.take l.totalReceived)) x.2.outcome with
      - | - | - | - | -
    case committed =>
      intro cmd hcmd
      rcases List.mem_append.1 hcmd with hold | hnew
      · exact h.concat _ cmd hold
      · -- the new command is what the writing connection has received
        rw [List.mem_singleton.1 hnew, hnone, List.nil_append]
        have hsame : l.buffer.take l.totalReceived <+: receivedBytes (own x.1 trace) :=
          hall ▸ List.prefix_refl _
        exact ⟨x.1, ((List.take_prefix _ _).trans hsame).trans
          (receivedBytes_own_isPrefix trace _ x.1)⟩
    all_goals exact h.concat _

/-- A call that is no write, or the write of a line that does not fail, leaves nothing pending. -/
theorem pending_of_writesLine (hrun : run serve (start inboxes) xs = .ok (trace, w))
    (hserve : serve w x = .ok (y, w')) (hline : WritesLine w x)
    (h : w.env.kernel.pending = []) : w'.env.kernel.pending = [] := by
  obtain ⟨s, hs⟩ := exists_represents_of_run hrun
  have hnone : s.pending = [] := by rwa [← hs.kernel.pending_eq]
  obtain ⟨hs', -⟩ | ⟨l, fd, hcode, rfl, -, hs' | hs'⟩ := log_of_serve hrun hserve hs
  · rw [hs'.kernel.pending_eq, hnone]
  · rw [hs'.kernel.pending_eq, hnone]
  · obtain ⟨hnewline, hret⟩ := hline l fd hcode
    rw [hs'.kernel.pending_eq]
    rcases WriteFate.eq_of_ret_nonneg hret with hfate | hfate
    · exact absurd (List.mem_append_right _ hnewline) (not_mem_of_writeFate_kept hfate)
    · rw [hfate]
      rfl

end Runs

/-- **Whose bytes a command has.** In every run of the server on the device, with any bytes from
any number of clients that may close at any point, and whatever fails: every command is made of
whole writes, in the order they were made, and each of these has all the bytes one connection
received, up to the limit of one write. If no connection that writes finds anything pending, every
command has the bytes of one connection. That is so if every connection that writes has received a
newline and no write fails. -/
theorem commands_made_of_whole_writes (inboxes : ℕ → List (List Byte)) {xs : List (ℕ × Choice)}
    {trace : List (ℕ × Event)} {w : World}
    (hrun : run serve (start inboxes) xs = .ok (trace, w)) :
    (∃ parts rest, Composed (writes trace) ⟨w.env.kernel.committed, w.env.kernel.pending⟩ parts
      rest) ∧
    (∀ z ∈ writes trace, z.2 = (receivedBytes (own z.1 trace)).take maxRwCount) ∧
    (Along serve WritesAlone (start inboxes) xs → OneSource trace w.env.kernel.committed) ∧
    (Along serve WritesLine (start inboxes) xs →
      OneSource trace w.env.kernel.committed ∧ w.env.kernel.pending = []) := by
  have hnone : OneSource [] (start inboxes).env.kernel.committed :=
    fun cmd hcmd ↦ absurd hcmd List.not_mem_nil
  refine ⟨?_, eq_take_of_mem_writes hrun, fun halone ↦ ?_, fun hline ↦ ?_⟩
  · obtain ⟨s, parts, rest, hs, hcomposed⟩ := exists_composed_of_run hrun
    rw [committed_eq_and_pending_eq hs]
    exact ⟨parts, rest, hcomposed⟩
  · exact history_of_along (I := fun trace (w : World) ↦ OneSource trace w.env.kernel.committed)
      (fun xs trace w x y w' hbefore hI halone hserve ↦ hI.serve hbefore hserve halone)
      hnone hrun halone
  · refine history_of_along (I := fun trace (w : World) ↦
        OneSource trace w.env.kernel.committed ∧ w.env.kernel.pending = []) ?_ ⟨hnone, rfl⟩ hrun
      hline
    rintro xs trace w x y w' hbefore ⟨hI, hpending⟩ hline hserve
    exact ⟨hI.serve hbefore hserve fun _ _ _ ↦ hpending,
      pending_of_writesLine hbefore hserve hline hpending⟩

/-- Two clients send a line each, and a third one's `open` of the device is refused. -/
theorem commands_made_of_whole_writes_two_lines :
    let inboxes : ℕ → List (List Byte) := fun i ↦
      if i = 0 then [[97], [newline]] else if i = 1 then [[98, newline]] else [[99, newline]]
    let xs := List.replicate 6 (0, Choice.granting 3) ++ List.replicate 2 (1, Choice.granting 4) ++
      List.replicate 4 (0, Choice.granting 3) ++ List.replicate 7 (1, Choice.granting 3) ++
      List.replicate 8 (2, { Choice.granting 3 with fd := none })
    ∃ trace w, run serve (start inboxes) xs = .ok (trace, w) ∧
      (2, .openFilePath none) ∈ trace ∧
      w.env.kernel.committed = [[97, newline], [98, newline]] ∧
      writes trace = [(0, [97, newline]), (1, [98, newline])] ∧
      OneSource trace w.env.kernel.committed ∧ w.env.kernel.pending = [] := by
  intro inboxes xs
  have heval : (run serve (start inboxes) xs).map (fun z ↦ (z.2.env.kernel.committed, writes z.1,
      decide ((2, .openFilePath none) ∈ z.1))) =
      .ok ([[97, newline], [98, newline]], [(0, [97, newline]), (1, [98, newline])], true) := by
    decide +kernel
  obtain ⟨⟨trace, w⟩, hrun, hend⟩ := exists_of_map_eq_ok heval
  simp only [Prod.mk.injEq, decide_eq_true_eq] at hend
  obtain ⟨hcommitted, hwrites, hrefused⟩ := hend
  obtain ⟨-, -, -, hlines⟩ := commands_made_of_whole_writes inboxes hrun
  exact ⟨trace, w, hrun, hrefused, hcommitted, hwrites, hlines (by decide +kernel)⟩

/-- A client that closes before its newline leaves its bytes to the next one: the command has bytes
that no one connection received. -/
theorem unfinished_line_is_mixed :
    let inboxes : ℕ → List (List Byte) := fun i ↦
      if i = 0 then [[97, 98]] else if i = 1 then [[99, newline]] else []
    let xs := List.replicate 10 (0, Choice.granting 3) ++ List.replicate 9 (1, Choice.granting 3)
    ∃ trace w, run serve (start inboxes) xs = .ok (trace, w) ∧
      w.env.kernel.committed = [[97, 98, 99, newline]] ∧
      ∀ i, ¬ [97, 98, 99, newline] ⊆ receivedBytes (own i trace) := by
  intro inboxes xs
  have heval : (run serve (start inboxes) xs).map (fun z ↦ z.2.env.kernel.committed) =
      .ok [[97, 98, 99, newline]] := by
    decide +kernel
  obtain ⟨⟨trace, w⟩, hrun, hcommitted⟩ := exists_of_map_eq_ok heval
  refine ⟨trace, w, hrun, hcommitted, fun i hsubset ↦ ?_⟩
  have hsent : receivedBytes (own i trace) ⊆ (inboxes i).flatten := by
    rw [← receivedBytes_append_inbox hrun i]
    exact List.subset_append_left _ _
  rcases i with - | - | i
  · exact absurd (hsent (hsubset (List.mem_of_getElem? (i := 3) rfl))) (by decide)
  · exact absurd (hsent (hsubset (List.mem_of_getElem? (i := 0) rfl))) (by decide)
  · exact absurd (hsent (hsubset (List.mem_of_getElem? (i := 0) rfl))) (by simp [inboxes])

end Aesd
