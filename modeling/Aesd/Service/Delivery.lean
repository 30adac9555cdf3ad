import Aesd.Service.Projection
import Aesd.Service.Refinement
import Aesd.Service.Standstill

/-!
# What the process does for its clients

What is known of the threads, said of the process and of its clients, in two cases.

Whatever fails, a thread that has returned has closed its connection, unless the command of its
client failed (`connections_left_open`).

If nothing fails, the process is a store of lines that the clients visit, each in the critical
sections of its thread (`process_refines_store`). When `main` has reaped the thread of a client, the
client has been sent the reply that the store gave it, and its connection has been closed.
-/

namespace Aesd

open Execution MutualExclusion

/-! ### Connections that stay open -/

namespace Code

/-- The thread will close its connection if no command fails. -/
def Closes : Code → Prop
  | call .closeSocket _ => True
  | call _ next => next.Closes
  | ret => False
  | _ => True

variable {code code' : Code} {e : Event}

theorem closes_handle (l : Locals) : (handle l).Closes := by
  obtain ⟨seekto, h⟩ | h | h | h := handle_cases l <;> rw [h] <;> exact trivial

theorem closes_scan (l : Locals) : (scan l).Closes := by
  rcases scan_cases l with h | h
  · rw [h]
    exact closes_handle l
  · rw [h]
    exact trivial

theorem Closes.usesConnection (h : code.Closes) : code.usesConnection = true := by
  induction code with
  | call a next ih =>
    cases a with
    | closeSocket => rfl
    | send => rfl
    | _ => exact ih h
  | ret => exact h.elim
  | _ => rfl

/-- The thread closes its connection, or a command fails, or the thread still will close it. -/
theorem Closes.step (h : code.Closes) (hlast : code.ClosesLast) (hstep : Step code e code') :
    (e = .call .closeSocket ∧ ¬ code'.Closes) ∨ (e.commandFailed = true ∧ ¬ code'.Closes) ∨
      (e ≠ .call .closeSocket ∧ e.commandFailed = false ∧ code'.Closes) := by
  have hgoes : ∀ {e : Event} {code' : Code}, e ≠ .call .closeSocket → e.commandFailed = false →
      code'.Closes → (e = .call .closeSocket ∧ ¬ code'.Closes) ∨
        (e.commandFailed = true ∧ ¬ code'.Closes) ∨
        (e ≠ .call .closeSocket ∧ e.commandFailed = false ∧ code'.Closes) :=
    fun hne hfailed hcloses ↦ Or.inr (Or.inr ⟨hne, hfailed, hcloses⟩)
  cases hstep with
  | call a next =>
    cases a with
    | closeSocket =>
      refine Or.inl ⟨rfl, fun hcloses ↦ ?_⟩
      exact absurd (hcloses.usesConnection.symm.trans hlast) (by decide)
    | _ => exact hgoes (by simp) rfl h
  | recvNothing l => exact hgoes (by simp) rfl (closes_handle l)
  | recv l data =>
    obtain ⟨l', h⟩ | ⟨l', h⟩ := received_cases l data
    · exact hgoes (by simp) rfl (by rw [h]; exact trivial)
    · exact hgoes (by simp) rfl (by rw [h]; exact closes_scan l')
  | reallocFails l => exact hgoes (by simp) rfl (closes_handle l)
  | realloc l junk => exact hgoes (by simp) rfl (closes_scan _)
  | ioctlFails => exact Or.inr (Or.inl ⟨rfl, id⟩)
  | _ => exact hgoes (by simp) rfl trivial

/-- A thread that will not close its connection does not, and no command of it fails. -/
theorem not_closes_step (h : ¬ code.Closes) (hstep : Step code e code') :
    ¬ code'.Closes ∧ e ≠ .call .closeSocket ∧ e.commandFailed = false := by
  cases hstep with
  | call a next =>
    cases a with
    | closeSocket => exact absurd trivial h
    | _ => exact ⟨h, by simp, rfl⟩
  | _ => exact absurd trivial h

/-- The thread has its connection still to close and no command has failed; or it will not close
it any more, and has closed it unless a command has failed. -/
def Settles (events : List Event) (code : Code) : Prop :=
  (code.Closes ∧ .call .closeSocket ∉ events ∧ ∀ e ∈ events, e.commandFailed = false) ∨
    (¬ code.Closes ∧ (.call .closeSocket ∈ events ↔ ∀ e ∈ events, e.commandFailed = false))

theorem Settles.step {events : List Event} (h : Settles events code) (hlast : code.ClosesLast)
    (hstep : Step code e code') : Settles (events ++ [e]) code' := by
  simp only [Settles, List.mem_append, List.mem_singleton, or_imp, forall_and, forall_eq]
  rcases h with ⟨hcloses, hnot, hgood⟩ | ⟨hcloses, hiff⟩
  · rcases hcloses.step hlast hstep with ⟨rfl, hclosed⟩ | ⟨hfailed, hopen⟩ |
      ⟨hne, hfailed, hcloses'⟩
    · exact Or.inr ⟨hclosed, iff_of_true (Or.inr rfl) ⟨hgood, rfl⟩⟩
    · refine Or.inr ⟨hopen, iff_of_false ?_ fun hall ↦ ?_⟩
      · rintro (hmem | rfl)
        · exact hnot hmem
        · cases hfailed
      · exact absurd (hfailed.symm.trans hall.2) (by decide)
    · exact Or.inl ⟨hcloses', by simp [hnot, Ne.symm hne], hgood, hfailed⟩
  · obtain ⟨hcloses', hne, hfailed⟩ := not_closes_step hcloses hstep
    refine Or.inr ⟨hcloses', ?_⟩
    rw [or_iff_left (Ne.symm hne), hiff]
    simp [hfailed]

/-- **A thread that has returned has closed its connection if and only if no command failed.** -/
theorem closed_iff_of_run {events : List Event} {os : List Outcome}
    (hrun : run Code.step threadfunc os = .ok (events, .ret)) :
    .call .closeSocket ∈ events ↔ ∀ e ∈ events, e.commandFailed = false := by
  have hstart : threadfunc.ClosesLast ∧ Settles [] threadfunc :=
    ⟨trivial, Or.inl ⟨trivial, List.not_mem_nil, by simp⟩⟩
  obtain ⟨-, hsettles⟩ := history_of_run
    (I := fun events code ↦ code.ClosesLast ∧ Settles events code)
    (fun events code o e code' h hstep ↦
      ⟨h.1.step (step_cases hstep), h.2.step h.1 (step_cases hstep)⟩)
    hstart hrun
  rcases hsettles with ⟨hcloses, -⟩ | ⟨-, hiff⟩
  · exact hcloses.elim
  · exact hiff

end Code

section Left

variable {clients : ℕ → List (List Byte)} {D : World → ℕ × Choice → Prop} {junk : SockaddrStorage}
  {turns : List ProcessTurn} {trace : List Happening} {p : Process} {id k : ℕ}

theorem Server.exists_running_of_returned {s : Server} (h : s.returned id = true) :
    ∃ a addr newFd, s.threads[id]? = some (.running a addr newFd .ret) := by
  rw [Server.returned] at h
  split at h
  · rename_i w hw
    cases w with
    | created => cases h
    | running a addr newFd code =>
      obtain rfl := of_decide_eq_true h
      exact ⟨a, addr, newFd, hw⟩
  · cases h

theorem mem_own_iff {i : ℕ} {trace : List (ℕ × Event)} {e : Event} :
    e ∈ own i trace ↔ (i, e) ∈ trace := by
  simp [own, List.mem_filterMap]

/-- The connection of a thread that has returned is open exactly if a command failed. -/
theorem Whole.left_open_iff (h : Whole clients D junk trace p)
    (hk : clientOf id (happened trace) = some k) (hret : p.server.returned id = true) :
    (∃ fd s, p.sockets fd = some s ∧ s.client = k) ↔
      ∃ e ∈ callsOf id (happened trace), e.commandFailed = true := by
  obtain ⟨a, addr, newFd, hw⟩ := Server.exists_running_of_returned hret
  obtain ⟨os, hrun⟩ := h.orderly.manned.ran id _ hw
  rw [h.kept.unclosed_iff hk, Code.closed_iff_of_run hrun]
  simp

/-- **Which connections stay open.** In every run of the whole process, and whatever fails, the
connection of a thread that has returned is open if and only if the command of its client failed.
If every copy to and from user memory succeeds, that happens to one thread at most. -/
theorem connections_left_open (clients : ℕ → List (List Byte)) {junk : SockaddrStorage}
    {turns : List ProcessTurn} {trace : List Happening} {p : Process}
    (hrun : run (Process.step clients) (.start junk) turns = .ok (trace, p)) :
    (∀ id k, clientOf id (happened trace) = some k → p.server.returned id = true →
      ((∃ fd s, p.sockets fd = some s ∧ s.client = k) ↔
        ∃ e ∈ callsOf id (happened trace), e.commandFailed = true)) ∧
    ((∀ id c, .thread id c ∈ turns → c.uncopied = 0) → ∀ i j,
      (∃ e ∈ callsOf i (happened trace), e.commandFailed = true) →
        (∃ e ∈ callsOf j (happened trace), e.commandFailed = true) → i = j) := by
  refine ⟨fun id k hk hret ↦ (whole_of_run hrun).left_open_iff hk hret, ?_⟩
  rintro hcopy i j ⟨e, he, hfailed⟩ ⟨e', he', hfailed'⟩
  have h : Whole clients (fun _ x ↦ x.2.uncopied = 0) junk trace p := by
    refine whole_of_along (C := fun _ turn ↦ ∀ id c, turn = .thread id c → c.uncopied = 0)
      (fun _ id c _ _ hC _ ↦ hC id c rfl) hrun (along_of_forall ?_)
    rintro turn hturn id c rfl
    exact hcopy id c hturn
  obtain ⟨inboxes, hassigns⟩ := exists_assigns clients (happened trace)
  obtain ⟨xs, w, hrun', -, halong⟩ := h.world inboxes hassigns
  -- both are among the commands that have failed, and there is one at most
  have hmem : ∀ {i e}, e ∈ callsOf i (happened trace) → e.commandFailed = true →
      (i, e) ∈ commandFailures (threadCalls (happened trace)) := by
    intro i e he hfailed
    rw [← own_threadCalls, mem_own_iff] at he
    exact List.mem_filter.2 ⟨he, hfailed⟩
  have hcount := toNat_held_of_run hrun' halong
  have hone := Bool.toNat_le w.env.kernel.mutex.held
  obtain ⟨y, hy⟩ := List.length_eq_one_iff.1
    (show (commandFailures (threadCalls (happened trace))).length = 1 from
      Nat.le_antisymm (by omega) (List.length_pos_of_mem (hmem he hfailed)))
  have hi := hmem he hfailed
  have hj := hmem he' hfailed'
  rw [hy, List.mem_singleton] at hi hj
  exact congrArg Prod.fst (hi.trans hj.symm)

/-- The `open` of the second client's thread is refused, and its connection is closed; the first
client's command on the empty device fails, and its connection stays open. -/
theorem connections_left_open_failed_command :
    let turns : List ProcessTurn :=
      List.replicate 8 (.main ⟨some (3, .inet 10), some ⟨0, false, 0, .theirAddr, none⟩, true⟩) ++
      List.replicate 8 (.main ⟨some (4, .inet 11), some ⟨0, false, 0, .theirAddr, none⟩, true⟩) ++
      List.replicate 9 (.thread 1 { Choice.granting 5 with fd := none }) ++
      List.replicate 12 (.thread 0 (.granting 4))
    let clients : ℕ → List (List Byte) := fun k ↦
      if k = 0 then [ioctlCmdStr ++ [48, 44, 48, newline]] else [[97, newline]]
    ∃ trace p, run (Process.step clients) (.start (.inet 0)) turns = .ok (trace, p) ∧
      (∀ id < 2, p.server.returned id = true) ∧
      (∃ fd s, p.sockets fd = some s ∧ s.client = 0) ∧
      ∀ fd s, p.sockets fd = some s → s.client ≠ 1 := by
  intro turns clients
  have heval : (run (Process.step clients) (.start (.inet 0)) turns).map
      (fun z ↦ (decide (∀ id : ℕ, id < 2 → z.2.server.returned id = true ∧
          clientOf id (happened z.1) = some id),
        (callsOf 0 (happened z.1)).any Event.commandFailed,
        (callsOf 1 (happened z.1)).any Event.commandFailed)) = .ok (true, true, false) := by
    decide +kernel
  obtain ⟨⟨trace, p⟩, hrun, hend⟩ := exists_of_map_eq_ok heval
  simp only [Prod.mk.injEq, decide_eq_true_eq, List.any_eq_true, List.any_eq_false] at hend
  obtain ⟨hthreads, hfailed, hnone⟩ := hend
  obtain ⟨hret₀, hclient₀⟩ := hthreads 0 (by decide)
  obtain ⟨hret₁, hclient₁⟩ := hthreads 1 (by decide)
  obtain ⟨hopen, -⟩ := connections_left_open clients hrun
  refine ⟨trace, p, hrun, fun id hid ↦ (hthreads id hid).1, (hopen 0 0 hclient₀ hret₀).2 hfailed,
    fun fd s hs hclient ↦ ?_⟩
  obtain ⟨e, he, hcommand⟩ := (hopen 1 1 hclient₁ hret₁).1 ⟨fd, s, hs, hclient⟩
  exact hnone e he hcommand

end Left

/-! ### Clients of a run in which nothing fails -/

/-- The pair that the next call of a thread passes to the device. -/
def Process.seeksTo (p : Process) (id : ℕ) : Option AesdSeekto :=
  match p.server.threads[id]? with
  | some (.running _ _ _ code) => code.seeksTo
  | _ => none

/-- A step in a run that goes well: nothing is refused to a thread, everything is copied, and a
command for the device names a byte of the ring. -/
def Process.GoesWell (p : Process) : ProcessTurn → Prop
  | .main _ => True
  | .thread id c => c.Grants ∧
    (p.seeksTo id).all fun seekto ↦ (seekTarget p.sys.kernel.commands seekto).isSome

instance (p : Process) : (turn : ProcessTurn) → Decidable (p.GoesWell turn)
  | .main _ => .isTrue trivial
  | .thread _ _ => inferInstanceAs (Decidable (_ ∧ _))

/-- What was sent to client `k`. -/
def sentTo (k : ℕ) (trace : List Happening) : List Byte :=
  (trace.filterMap fun y ↦
    if y.client = some k then (y.event.threadCall.map Prod.snd).bind Event.sent else none).flatten

/-- The clients whose threads have left a critical section, in order. -/
def visits (trace : List Happening) : List ℕ :=
  (sections (threadCalls (happened trace))).filterMap fun id ↦ clientOf id (happened trace)

/-- The number of the client of a thread. -/
def clientOr0 (trace : List Happening) (id : ℕ) : ℕ :=
  (clientOf id (happened trace)).getD 0

namespace Store

variable {req : ℕ → Request} {c : ℕ → ℕ} {l : List ℕ}

/-- Who has a reply has visited. -/
theorem mem_of_reply {i : ℕ} {bytes : List Byte} (h : (after req l).reply i = some bytes) :
    i ∈ l := by
  obtain ⟨before, rest, rfl, -⟩ := exists_visit_of_reply h
  simp

/-- **Visitors by other names** leave the same lines and get the same replies. -/
theorem after_map (hinj : ∀ i ∈ l, ∀ j ∈ l, c i = c j → i = j) :
    (after req (l.map c)).first = (after (fun i ↦ req (c i)) l).first.map c ∧
      ∀ i ∈ l, (after req (l.map c)).reply (c i) = (after (fun i ↦ req (c i)) l).reply i := by
  induction l using List.reverseRecOn with
  | nil => exact ⟨rfl, fun i hi ↦ absurd hi List.not_mem_nil⟩
  | append_singleton l j ih =>
    have hmem : ∀ i ∈ l, i ∈ l ++ [j] := fun i hi ↦ List.mem_append_left _ hi
    have hj : j ∈ l ++ [j] := List.mem_append_right _ List.mem_cons_self
    obtain ⟨hfirst, hreply⟩ := ih fun i hi i' hi' ↦ hinj i (hmem i hi) i' (hmem i' hi')
    have hkept : (after req (l.map c)).kept req =
        (after (fun i ↦ req (c i)) l).kept fun i ↦ req (c i) := by
      rw [kept, lines, hfirst, List.map_map]
      rfl
    have hvisited : c j ∈ (after req (l.map c)).first ↔
        j ∈ (after (fun i ↦ req (c i)) l).first := by
      rw [hfirst, List.mem_map]
      constructor
      · rintro ⟨i, hi, heq⟩
        have hil := (mem_first_after _ l i).1 hi
        rwa [← hinj i (hmem i hil.1) j hj heq]
      · exact fun hi ↦ ⟨j, hi, rfl⟩
    rw [List.map_append, List.map_singleton, after_concat, after_concat, visit, visit]
    by_cases hnew : (req (c j)).isLine = true ∧ j ∉ (after (fun i ↦ req (c i)) l).first
    · rw [if_pos (by rwa [hvisited]), if_pos hnew]
      refine ⟨by rw [hfirst, List.map_append, List.map_singleton], fun i hi ↦ ?_⟩
      rcases List.mem_append.1 hi with hi | hi
      · exact hreply i hi
      · obtain rfl := List.mem_singleton.1 hi
        by_cases hil : i ∈ l
        · exact hreply i hil
        · have hnone : ∀ {req : ℕ → Request} {l : List ℕ} {i : ℕ}, i ∉ l →
              (after req l).reply i = none := fun hi ↦
            Option.eq_none_iff_forall_not_mem.2 fun bytes hbytes ↦ hi (mem_of_reply hbytes)
          refine (hnone fun hc ↦ hil ?_).trans (hnone hil).symm
          obtain ⟨i', hi', heq⟩ := List.mem_map.1 hc
          rwa [← hinj i' (hmem i' hi') i hj heq]
    · rw [if_neg (by rwa [hvisited]), if_neg hnew]
      refine ⟨hfirst, fun i hi ↦ ?_⟩
      dsimp only
      rcases eq_or_ne i j with rfl | hne
      · rw [Function.update_self, Function.update_self, hkept]
      · rw [Function.update_of_ne hne, Function.update_of_ne fun heq ↦ hne (hinj i hi j hj heq)]
        refine hreply i ((List.mem_append.1 hi).resolve_right ?_)
        simpa using hne

end Store

section Served

variable {req : ℕ → Request} {clients inboxes : ℕ → List (List Byte)}
  {D : World → ℕ × Choice → Prop} {junk : SockaddrStorage} {turns : List ProcessTurn}
  {trace : List Happening} {p : Process} {w : World} {id k : ℕ}

/-- A thread inside a critical section is between two calls of the device. -/
theorem Inside.free {r : Request} {cmds inbox : List (List Byte)} {stored : Bool} {sys : System}
    {code : Code} {sent : List Byte} {left : ℕ}
    (h : Inside r cmds stored sys code inbox sent left) : sys.kernel.mutex.held = false := by
  cases h with
  | receiving hsys | growing hsys | entry hsys | opening _ hsys | leaving _ hsys | finishing hsys =>
    exact hsys.free
  | writing _ hsys | syncing _ hsys | closing _ hsys | seeking _ hsys | reading hsys | sending hsys
  | closingFile hsys => exact hsys.free

/-- The mutex of the device is free. -/
theorem Follows.held_eq_false {trace : List (ℕ × Event)} {s : Store}
    (h : Follows req inboxes trace w s) : w.env.kernel.mutex.held = false := by
  rcases howner : w.owner with - | i
  · exact (h.idle howner).free
  · obtain ⟨-, left, hinside, -⟩ := h.inside i howner
    exact hinside.free

theorem Process.GoesWell.serve (h : p.GoesWell (.thread id c)) (hproj : Projects inboxes p w) :
    Aesd.GoesWell w (id, c) := by
  obtain ⟨hgrants, hvalid⟩ := h
  refine ⟨hgrants, fun l fd seekto hcode ↦ ?_⟩
  by_cases hrunning : ∃ a addr newFd code, p.server.threads[id]? = some (.running a addr newFd code)
  · obtain ⟨a, addr, newFd, code, hw⟩ := hrunning
    obtain rfl := (hproj.running id a addr newFd code hw).1.symm.trans hcode
    rw [Process.seeksTo, hw] at hvalid
    rw [hproj.env]
    exact hvalid
  · simp only [not_exists] at hrunning
    rw [hproj.waiting id hrunning] at hcode
    cases hcode

/-- What is sent to a client is what its thread sends. -/
theorem Whole.sentTo_eq (h : Whole clients D junk trace p)
    (hk : clientOf id (happened trace) = some k) :
    sentTo k trace = sentBytes (callsOf id (happened trace)) := by
  rw [sentTo, sentBytes, callsOf, happened, List.filterMap_map, List.filterMap_filterMap]
  refine congrArg List.flatten (List.filterMap_congr fun y hy ↦ ?_)
  rcases hevent : y.event with m | j | ⟨j, e, peer⟩
  · simp [hevent, ServerEvent.threadCall, ServerEvent.callOf]
  · simp [hevent, ServerEvent.threadCall, ServerEvent.callOf]
  · simp only [hevent, ServerEvent.threadCall, ServerEvent.callOf, Function.comp_apply,
      Option.map_some, Option.bind_some]
    rcases hsent : e.sent with - | data
    · rcases eq_or_ne j id with rfl | hne
      · simp [hsent]
      · simp [hne]
    · have hon : e.onConnection = true := by
        cases e with
        | call a =>
          cases a with
          | send => rfl
          | _ => cases hsent
        | _ => cases hsent
      obtain ⟨k', hk', hclient⟩ := h.reaches y hy j e peer hevent hon
      rcases eq_or_ne j id with rfl | hne
      · obtain rfl := Option.some.inj (hk.symm.trans hk')
        simp [hclient, hsent]
      · have hk'ne : k' ≠ k := fun heq ↦ hne (h.kept.injective j id k (heq ▸ hk') hk)
        simp [hclient, hk'ne, hne]

theorem clientOr0_eq (hk : clientOf id (happened trace) = some k) : clientOr0 trace id = k := by
  rw [clientOr0, hk]
  rfl

/-- Whoever has left a critical section has a client. -/
theorem Whole.exists_client_of_section (h : Whole clients D junk trace p)
    (hid : id ∈ sections (threadCalls (happened trace))) :
    ∃ k, clientOf id (happened trace) = some k := by
  obtain ⟨y, hy, hunlock⟩ := List.mem_filterMap.1 hid
  rw [Option.ite_none_right_eq_some] at hunlock
  obtain ⟨-, hself⟩ := hunlock
  obtain rfl := Option.some.inj hself
  rcases hk : clientOf y.1 (happened trace) with - | k
  · have hnone := h.orderly.manned.unborn y.1 ((h.kept.born y.1).1 hk)
    rw [← own_threadCalls] at hnone
    have hmem : y.2 ∈ own y.1 (threadCalls (happened trace)) := mem_own_iff.2 hy
    rw [hnone] at hmem
    exact absurd hmem List.not_mem_nil
  · exact ⟨k, rfl⟩

theorem Whole.visits_eq (h : Whole clients D junk trace p) :
    visits trace = (sections (threadCalls (happened trace))).map (clientOr0 trace) := by
  rw [visits, ← List.filterMap_eq_map]
  refine List.filterMap_congr fun id hid ↦ ?_
  obtain ⟨k, hk⟩ := h.exists_client_of_section hid
  rw [hk, Function.comp_apply, clientOr0_eq hk]

/-- The process follows the store, with the clients under the numbers of their threads. -/
theorem exists_follows (hsends : ∀ k, (req k).Sends (clients k))
    (hrun : run (Process.step clients) (.start junk) turns = .ok (trace, p))
    (hgood : Along (Process.step clients) Process.GoesWell (.start junk) turns) :
    ∃ inboxes w, Projects inboxes p w ∧ Follows (fun id ↦ req (clientOr0 trace id)) inboxes
      (threadCalls (happened trace)) w (Store.after (fun id ↦ req (clientOr0 trace id))
        (sections (threadCalls (happened trace)))) ∧
      commandFailures (threadCalls (happened trace)) = [] := by
  have h : Whole clients GoesWell junk trace p :=
    whole_of_along (fun _ _ _ _ _ hgood hproj ↦ hgood.serve hproj) hrun hgood
  have hassigns : Assigns clients (fun id ↦ clients (clientOr0 trace id)) (happened trace) :=
    fun id k hk ↦ congrArg clients (clientOr0_eq hk)
  obtain ⟨xs, w, hserve, hproj, halong⟩ := h.world _ hassigns
  have hfollows := follows_of_run (fun id ↦ hsends (clientOr0 trace id)) hserve halong
  refine ⟨_, w, hproj, hfollows, ?_⟩
  have hcount := toNat_held_of_run hserve (halong.mono fun w x hgood ↦ hgood.grants.uncopied)
  rw [hfollows.held_eq_false] at hcount
  exact List.eq_nil_of_length_eq_zero hcount.symm

/-- **The process is a store of lines.** Any number of clients are accepted, each with a line in
chunks cut in any way or a command for the device in one chunk; nothing is refused to their threads,
and the commands name bytes of the ring. Let the clients visit the store as their threads leave the
critical sections. Then, at any point of the run:

* while nobody is in a critical section, the device has committed the lines of the store, its ring
  has the last ten of them, and nothing is pending;
* a client whose thread `main` has reaped has left its line, if it has one, has been sent the reply
  that the store gave it and nothing else, and its connection has been closed. -/
theorem process_refines_store (hsends : ∀ k, (req k).Sends (clients k))
    (hrun : run (Process.step clients) (.start junk) turns = .ok (trace, p))
    (hgood : Along (Process.step clients) Process.GoesWell (.start junk) turns) :
    let s := Store.after req (visits trace)
    (p.owner = none → p.sys.kernel.committed = s.lines req ∧
      p.sys.kernel.commands = s.kept req ∧ p.sys.kernel.pending = []) ∧
    ∀ a id, .main (.pthreadCreate a (some id)) ∈ happened trace →
      .main (.free a) ∈ happened trace → ∃ k, clientOf id (happened trace) = some k ∧
        s.reply k = some (sentTo k trace) ∧ decide (k ∈ s.first) = (req k).isLine ∧
        ∀ fd socket, p.sockets fd = some socket → socket.client ≠ k := by
  intro s
  have h := whole_of_run hrun
  obtain ⟨inboxes, w, hproj, hfollows, hnone⟩ := exists_follows hsends hrun hgood
  -- the store that the clients visit is that of their threads
  have hinj : ∀ i ∈ sections (threadCalls (happened trace)),
      ∀ j ∈ sections (threadCalls (happened trace)), clientOr0 trace i = clientOr0 trace j →
        i = j := by
    intro i hi j hj heq
    obtain ⟨k, hk⟩ := h.exists_client_of_section hi
    obtain ⟨k', hk'⟩ := h.exists_client_of_section hj
    rw [clientOr0_eq hk, clientOr0_eq hk'] at heq
    exact h.kept.injective i j k' (heq ▸ hk) hk'
  have hsame := @Store.after_map req (clientOr0 trace) _ hinj
  rw [← h.visits_eq] at hsame
  obtain ⟨hfirst, hreply⟩ := hsame
  have hlines : s.lines req = (Store.after (fun id ↦ req (clientOr0 trace id))
      (sections (threadCalls (happened trace)))).lines fun id ↦ req (clientOr0 trace id) := by
    rw [Store.lines, hfirst, List.map_map]
    rfl
  refine ⟨fun hfree ↦ ?_, fun a id hcreated hfreed ↦ ?_⟩
  · rw [← hproj.env, Store.kept, hlines]
    exact hfollows.device_eq (hproj.owner.trans hfree)
  · obtain ⟨u, hu, rfl⟩ := h.orderly.accounts.ids a id hcreated
    have hmem : u.node ∈ freedBy (happened trace) := by
      rw [freedBy, List.mem_filterMap]
      exact ⟨_, hfreed, rfl⟩
    have hgone : p.server.nodes.record u.node = none := by
      refine Option.not_isSome_iff_eq_none.1 fun hlive ↦ ?_
      exact (h.orderly.accounts.live _ (h.orderly.accounts.lt _ hmem)).1 hlive hmem
    have hret : p.server.returned id = true := by
      rw [Server.returned, hu]
      exact h.orderly.manned.gone id u hu hgone
    obtain ⟨k, hk⟩ := h.kept.exists_client hu
    obtain ⟨a, addr, newFd, hw⟩ := Server.exists_running_of_returned hret
    obtain ⟨hsent, hstored⟩ := hfollows.returned (hproj.running id a addr newFd .ret hw).1
    have hid := Store.mem_of_reply hsent
    refine ⟨k, hk, ?_, ?_, fun fd socket hsocket hclient ↦ ?_⟩
    · rw [h.sentTo_eq hk, ← own_threadCalls, ← hsent, ← hreply id hid, clientOr0_eq hk]
    · rw [← clientOr0_eq hk, ← hstored, hfirst]
      refine decide_eq_decide.2 ⟨fun hmem ↦ ?_, fun hmem ↦ List.mem_map_of_mem hmem⟩
      obtain ⟨j, hj, heq⟩ := List.mem_map.1 hmem
      rwa [← hinj j ((Store.mem_first_after _ _ j).1 hj).1 id hid heq]
    · obtain ⟨e, he, hfailed⟩ := (h.left_open_iff hk hret).1 ⟨fd, socket, hsocket, hclient⟩
      rw [← own_threadCalls, mem_own_iff] at he
      have hfailure : (id, e) ∈ commandFailures (threadCalls (happened trace)) :=
        List.mem_filter.2 ⟨he, hfailed⟩
      rw [hnone] at hfailure
      exact List.not_mem_nil hfailure

/-- Two clients send a line each, in two chunks. The second one stores its line while the first is
still receiving, and both read back after both have stored; with the next client `main` reaps the
two threads. -/
theorem process_refines_store_two_lines :
    let clients : ℕ → List (List Byte) := fun k ↦ [[if k = 0 then 97 else 98], [newline]]
    let req : ℕ → Request := fun k ↦ .line [if k = 0 then 97 else 98, newline]
    let main : ℕ → ProcessTurn := fun fd ↦
      .main ⟨some (fd, .inet 10), some ⟨0, false, 0, .theirAddr, none⟩, true⟩
    let calls : ℕ → ℕ → List ProcessTurn := fun n id ↦ List.replicate n (.thread id (.granting 5))
    let turns : List ProcessTurn := List.replicate 8 (main 3) ++ List.replicate 8 (main 4) ++
      calls 2 0 ++ calls 11 1 ++ calls 9 0 ++ calls 13 1 ++ calls 13 0 ++ List.replicate 20 (main 3)
    ∃ trace p, run (Process.step clients) (.start (.inet 0)) turns = .ok (trace, p) ∧
      visits trace = [1, 0, 1, 0] ∧
      p.sys.kernel.committed = [[98, newline], [97, newline]] ∧
      ∀ k < 2, sentTo k trace = [98, newline, 97, newline] ∧
        (Store.after req (visits trace)).reply k = some (sentTo k trace) := by
  intro clients req main calls turns
  have hsends : ∀ k, (req k).Sends (clients k) := by
    have hline : ∀ b ∈ [(97 : Byte), 98], (Request.line [b, newline]).Sends [[b], [newline]] := by
      intro b hb
      obtain rfl | rfl := List.mem_pair.1 hb
      · exact .line ⟨by decide, [97], rfl, by decide⟩ (by decide) (by decide) rfl (by simp)
      · exact .line ⟨by decide, [98], rfl, by decide⟩ (by decide) (by decide) rfl (by simp)
    exact fun k ↦ hline _ (by split <;> decide)
  have heval : (run (Process.step clients) (.start (.inet 0)) turns).map
      (fun z : List Happening × Process ↦ ((z.2.owner, visits z.1),
        decide (∀ k : ℕ, k < 2 → clientOf k (happened z.1) = some k ∧
          sentTo k z.1 = [98, newline, 97, newline]),
        decide (∀ k : ℕ, k < 2 → .main (.pthreadCreate k (some k)) ∈ happened z.1 ∧
          .main (.free k) ∈ happened z.1))) =
      .ok ((none, [1, 0, 1, 0]), true, true) := by
    decide +kernel
  have hgood : Along (Process.step clients) Process.GoesWell (.start (.inet 0)) turns := by
    decide +kernel
  obtain ⟨⟨trace, p⟩, hrun, hend⟩ := exists_of_map_eq_ok heval
  simp only [Prod.mk.injEq, decide_eq_true_eq] at hend
  obtain ⟨⟨howner, hvisits⟩, hclients, hmain⟩ := hend
  obtain ⟨hdevice, hserved⟩ := process_refines_store hsends hrun hgood
  refine ⟨trace, p, hrun, hvisits, ?_, fun k hk ↦ ?_⟩
  · rw [(hdevice howner).1, hvisits]
    rfl
  · obtain ⟨hclient, hsent⟩ := hclients k hk
    obtain ⟨hcreated, hfreed⟩ := hmain k hk
    obtain ⟨k', hk', hreply, -⟩ := hserved k k hcreated hfreed
    obtain rfl := Option.some.inj (hclient.symm.trans hk')
    exact ⟨hsent, hreply⟩

end Served

end Aesd
