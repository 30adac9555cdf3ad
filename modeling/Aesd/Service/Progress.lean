import Aesd.Server.Bounds
import Aesd.Service.Delivery

/-!
# The process goes on

As long as no thread over-runs its receive buffer, after which anything can have happened to the
nodes of the list, no step of the process uses memory that is freed or `NULL`, whatever else fails
(`process_never_faults`), unless `malloc` refuses `main` a node, which it writes to all the same.

The accept loop waits for no client (`accept_loop_advances`): it never asks for `aesdsocket_mutex`,
and a thread it joins has at most its last `unlock` to call. Left out: a `send` to a client that has
gone can end the process by `SIGPIPE`, since nobody asks for `MSG_NOSIGNAL` or ignores the signal,
and then `main` makes no step any more; nor does it after `handle_signal`. A `send` that waits for
its client holds up its own thread, and those that want the mutex, but not `main`.
-/

namespace Aesd

open Execution MutualExclusion

/-! ### No step faults -/

/-- A call on the device that does not return waits for its mutex. -/
theorem System.Represents.ne_fault {sys : System} {s : Framing.Log Byte} (h : sys.Represents s)
    (op : Op) : Aesd.step stayPut sys op ≠ .error .fault := by
  rcases hmutex : sys.kernel.mutex.held with - | -
  · obtain ⟨a, sys', hstep, -⟩ := h.exists_step hmutex stayPut op
    rw [hstep]
    simp
  · have hlock := Kernel.mutexLock_of_held hmutex
    have hcall : ∀ {f operation}, (∀ filp, sys.files f = some filp →
        operation filp ≠ .error .fault) → sys.call f operation ≠ .error .fault := by
      intro f operation hoperation
      rw [System.call]
      rcases hf : sys.files f with - | filp
      · simp
      · rcases hop : operation filp with stop | reply
        · simpa [hop] using hoperation filp hf
        · simp [hop]
    cases op with
    | openFile f => rw [Aesd.step]; split <;> simp
    | release f => rw [Aesd.step]; split <;> simp
    | read f count uncopied =>
      refine hcall fun filp hf ↦ ?_
      rw [aesdRead, File.dev_of_open (h.opened f filp hf), ok_bind, hlock]
      exact fun heq ↦ by cases heq
    | write f buf o =>
      refine hcall fun filp hf ↦ ?_
      rw [aesdWrite, File.dev_of_open (h.opened f filp hf), ok_bind, hlock]
      exact fun heq ↦ by cases heq
    | llseek f offset whence =>
      refine hcall fun filp hf ↦ ?_
      rw [aesdLlseek, File.dev_of_open (h.opened f filp hf), ok_bind, hlock]
      exact fun heq ↦ by cases heq
    | ioctl f cmd seekto uncopied =>
      refine hcall fun filp hf ↦ ?_
      rcases aesdUnlockedIoctl_of_held hmutex (h.opened f filp hf) cmd seekto uncopied with
        hblocked | ⟨ret, hret⟩
      · rw [hblocked]
        simp
      · rw [hret]
        simp

section Faults

variable {clients : ℕ → List (List Byte)} {D : World → ℕ × Choice → Prop} {junk : SockaddrStorage}
  {trace : List Happening} {p : Process} {id : ℕ}

/-- `malloc` grants `main` its node, if it is the turn of `main` and it asks for one. -/
def Process.Grants (p : Process) : ProcessTurn → Prop
  | .main o => ∀ newFd, p.server.main = .malloc newFd → o.malloc.isSome = true
  | .thread _ _ => True

/-- A computation faults if its first part does, or the rest. -/
theorem ne_fault_of_bind {α β : Type} {x : Except Stop α} {f : α → Except Stop β}
    (hx : x ≠ .error .fault) (hf : ∀ a, x = .ok a → f a ≠ .error .fault) :
    (x >>= f) ≠ .error .fault := by
  rcases hcases : x with stop | a
  · rw [hcases] at hx
    simpa [bind, Except.bind] using hx
  · exact hf a hcases

theorem Code.step_ne_fault (code : Code) (o : Outcome) : code.step o ≠ .error .fault := by
  by_cases hret : code = .ret
  · rw [hret]
    simp [Code.step]
  · obtain ⟨e, code', hstep⟩ := Code.exists_step hret o
    rw [hstep]
    simp

namespace Whole

theorem exists_represents (h : Whole clients D junk trace p) : ∃ s, p.sys.Represents s := by
  obtain ⟨inboxes, hassigns⟩ := exists_assigns clients (happened trace)
  obtain ⟨xs, w, hrun, hproj, -⟩ := h.world inboxes hassigns
  rw [← hproj.env]
  exact exists_represents_of_run hrun

theorem mainTurn_ne_fault (h : Whole clients D junk trace p) {o : MainOutcome}
    (hgrants : p.Grants (.main o)) : p.mainTurn clients o ≠ .error .fault := by
  have hmain : ∀ accept, p.server.mainStep { o with accept } ≠ .error .fault := by
    intro accept hfault
    have hne : p.server.step (.main { o with accept }) ≠ .error .fault :=
      h.orderly.ne_fault hgrants
    rw [Server.step, hfault] at hne
    exact hne rfl
  refine ne_fault_of_bind (hmain _) ?_
  · rintro ⟨m, server⟩ -
    dsimp only
    split <;> simp

theorem threadTurn_ne_fault (h : Whole clients D junk trace p) (id : ℕ) (c : Choice) :
    p.threadTurn id c ≠ .error .fault := by
  have hthread : ∀ o, p.server.threadStep id o ≠ .error .fault := by
    intro o
    have hne : p.server.step (.thread id o) ≠ .error .fault := h.orderly.ne_fault trivial
    exact hne
  rw [Process.threadTurn]
  split
  · rename_i a addr newFd code hw
    rw [Process.callTurn]
    split
    · simp
    · refine ne_fault_of_bind ?_ ?_
      · rw [Code.device]
        split
        · simp
        · obtain ⟨s, hs⟩ := h.exists_represents
          exact hs.ne_fault _
      · rintro ⟨ans, sys⟩ -
        refine ne_fault_of_bind (Code.step_ne_fault _ _) ?_
        rintro ⟨e, code'⟩ -
        refine ne_fault_of_bind (hthread _) ?_
        rintro ⟨event, server⟩ -
        dsimp only
        split <;> simp
  · refine ne_fault_of_bind (hthread _) ?_
    rintro ⟨event, server⟩ -
    simp

end Whole

/-- Each thread has stayed inside its receive buffer. -/
theorem Manned.neverOverruns {trace : List ServerEvent} {s : Server} (h : Manned trace s)
    (hkeeps : ∀ id < s.threads.length, KeepsSize (callsOf id trace)) (id : ℕ) :
    NeverOverruns (callsOf id trace) := by
  rcases Nat.lt_or_ge id s.threads.length with hlt | hge
  · have hran := h.ran id _ (List.getElem?_eq_getElem hlt)
    rcases hw : s.threads[id] with a | ⟨a, addr, newFd, code⟩
    · rw [hw] at hran
      rw [show callsOf id trace = [] from hran]
      exact neverOverruns_nil
    · rw [hw] at hran
      obtain ⟨os, hrun⟩ := hran
      exact neverOverruns_of_keepsSize hrun (hkeeps id hlt)
  · rw [h.unborn id hge]
    exact neverOverruns_nil

/-- **No step faults.** In every run of the whole process in which each thread keeps `buffer_size`
the size of its receive buffer, every call of every thread has stayed inside that buffer; and
whoever's turn is next and whatever is answered, the step uses no node of the list, no memory of the
driver and no entry of the ring that is freed or `NULL`. Only `main` must not be refused its
node. -/
theorem process_never_faults (clients : ℕ → List (List Byte)) {junk : SockaddrStorage}
    {turns : List ProcessTurn} {trace : List Happening} {p : Process}
    (hrun : run (Process.step clients) (.start junk) turns = .ok (trace, p))
    (hkeeps : ∀ id < p.server.threads.length, KeepsSize (callsOf id (happened trace))) :
    (∀ id, NeverOverruns (callsOf id (happened trace))) ∧
      ∀ turn, p.Grants turn → p.step clients turn ≠ .error .fault := by
  have h := whole_of_run hrun
  refine ⟨h.orderly.manned.neverOverruns hkeeps, fun turn hgrants ↦ ?_⟩
  cases turn with
  | main o => exact h.mainTurn_ne_fault hgrants
  | thread id c => exact h.threadTurn_ne_fault id c

/-- The thread of a client whose line is stored calls `fsync`. -/
theorem process_never_faults_line :
    let turns : List ProcessTurn :=
      List.replicate 8 (.main ⟨some (3, .inet 10), some ⟨0, false, 0, .theirAddr, none⟩, true⟩) ++
      List.replicate 7 (.thread 0 (.granting 4))
    ∃ trace p, run (Process.step fun _ ↦ [[97, newline]]) (.start (.inet 0)) turns =
        .ok (trace, p) ∧
      p.sys.kernel.committed = [[97, newline]] ∧ NeverOverruns (callsOf 0 (happened trace)) ∧
      p.step (fun _ ↦ [[97, newline]]) (.thread 0 (.granting 4)) ≠ .error .fault := by
  intro turns
  have heval : (run (Process.step fun _ ↦ [[97, newline]]) (.start (.inet 0)) turns).map
      (fun z ↦ (z.2.sys.kernel.committed,
        decide (∀ id < z.2.server.threads.length, KeepsSize (callsOf id (happened z.1))))) =
      .ok ([[97, newline]], true) := by
    decide +kernel
  obtain ⟨⟨trace, p⟩, hrun, hend⟩ := exists_of_map_eq_ok heval
  obtain ⟨hcommitted, hkeeps⟩ := Prod.mk.inj hend
  obtain ⟨hinside, hsteps⟩ := process_never_faults _ hrun (of_decide_eq_true hkeeps)
  exact ⟨trace, p, hrun, hcommitted, hinside 0, hsteps (.thread 0 (.granting 4)) trivial⟩

end Faults

/-! ### The accept loop -/

section Advances

variable {clients : ℕ → List (List Byte)} {p : Process} {id : ℕ}

theorem Process.exists_mainTurn {o : MainOutcome}
    (h : ∃ e s, p.server.mainStep { o with accept := o.accept.filter fun conn ↦ p.unused conn.1 } =
      .ok (e, s)) : ∃ y p', p.step clients (.main o) = .ok (y, p') := by
  obtain ⟨e, s, hstep⟩ := h
  rw [step, mainTurn, hstep]
  dsimp only [bind, Except.bind]
  split <;> exact ⟨_, _, rfl⟩

/-- `main` joins a thread that has returned. -/
theorem Server.exists_mainStep_of_join {s : Server} {a : ℕ} {temp : Option ℕ} {n : SlistData}
    (hmain : s.main = .join a temp) (hn : s.nodes.record a = some n)
    (hret : s.returned n.threadID = true) (o : MainOutcome) :
    ∃ e s', s.mainStep o = .ok (e, s') := by
  simp only [Server.mainStep, hmain, Server.node_eq_ok_iff.2 hn, bind, Except.bind, hret, if_true]
  exact ⟨_, _, rfl⟩

/-- A thread that has only to unlock the mutex can do that. -/
theorem Process.step_of_unlock {a newFd : ℕ} {addr : SockaddrIn}
    (hw : p.server.threads[id]? = some (.running a addr newFd (.call .unlock .ret)))
    (c : Choice) : p.step clients (.thread id c) =
      .ok (⟨.thread id (.call .unlock) none, none⟩,
        { p with
          server := { p.server with
            threads := p.server.threads.set id (.running a addr newFd .ret) }
          owner := none }) := by
  have hthread : ∀ o, p.server.threadStep id o = .ok (.thread id (.call .unlock) none,
      { p.server with threads := p.server.threads.set id (.running a addr newFd .ret) }) := by
    intro o
    rw [Server.threadStep, hw]
    rfl
  simp only [step, threadTurn, hw, callTurn, hthread]
  rfl

/-- **The accept loop waits for no client.** In every run of the whole process, whatever the threads
do and whoever holds `aesdsocket_mutex`, unless `malloc` is to refuse it a node `main` can take its
next step, or it waits for a thread that can make its last call at once, and then `main` can. -/
theorem accept_loop_advances (clients : ℕ → List (List Byte)) {junk : SockaddrStorage}
    {turns : List ProcessTurn} {trace : List Happening} {p : Process}
    (hrun : run (Process.step clients) (.start junk) turns = .ok (trace, p)) (o : MainOutcome)
    (hgrants : p.Grants (.main o)) :
    (∃ y p', p.step clients (.main o) = .ok (y, p')) ∨
      ∃ id, ∀ c, ∃ p', p.step clients (.thread id c) =
        .ok (⟨.thread id (.call .unlock) none, none⟩, p') ∧ p'.server.returned id = true ∧
          ∃ y p'', p'.step clients (.main o) = .ok (y, p'') := by
  have horderly := (whole_of_run hrun).orderly
  rcases horderly.exists_mainStep { o with accept := o.accept.filter fun conn ↦ p.unused conn.1 }
    with hstep | ⟨newFd, hmain, hnone⟩ | ⟨⟨a, temp, n, addr, newFd, hmain, hn, hw⟩, -⟩
  · exact Or.inl (Process.exists_mainTurn hstep)
  · have hsome := hgrants newFd hmain
    rw [show o.malloc = none from hnone] at hsome
    cases hsome
  · refine Or.inr ⟨n.threadID, fun c ↦ ⟨_, Process.step_of_unlock hw c, ?_⟩⟩
    have hret : ({ p.server with
        threads := p.server.threads.set n.threadID (.running a addr newFd .ret) } :
          Server).returned n.threadID = true := by
      simp [Server.returned, Worker.returned, (List.getElem?_eq_some_iff.1 hw).1]
    refine ⟨hret, Process.exists_mainTurn ?_⟩
    exact Server.exists_mainStep_of_join (by exact hmain) (by exact hn) hret _

/-- The thread of a malformed command has set its status and holds the mutex; `main` joins it. -/
theorem accept_loop_advances_joining :
    let o : MainOutcome := ⟨some (3, .inet 10), some ⟨0, false, 0, .theirAddr, none⟩, true⟩
    let turns : List ProcessTurn := List.replicate 8 (.main o) ++
      List.replicate 10 (.thread 0 (.granting 4)) ++ List.replicate 9 (.main o)
    let clients : ℕ → List (List Byte) := fun _ ↦ [ioctlCmdStr ++ [newline]]
    ∃ trace p, run (Process.step clients) (.start (.inet 0)) turns = .ok (trace, p) ∧
      p.owner = some 0 ∧ (∀ y p', p.step clients (.main o) ≠ .ok (y, p')) ∧
      ∃ id, ∀ c, ∃ p', p.step clients (.thread id c) =
        .ok (⟨.thread id (.call .unlock) none, none⟩, p') := by
  intro o turns clients
  have heval : (run (Process.step clients) (.start (.inet 0)) turns).map (fun z ↦ (z.2.owner,
      z.2.server.main, (z.2.step clients (.main o)).isOk)) =
        .ok (some 0, .join 0 none, false) := by
    decide +kernel
  obtain ⟨⟨trace, p⟩, hrun, hend⟩ := exists_of_map_eq_ok heval
  simp only [Prod.mk.injEq] at hend
  obtain ⟨howner, hmain, hwaits⟩ := hend
  have hnot : ∀ y p', p.step clients (.main o) ≠ .ok (y, p') := by
    intro y p' hstep
    rw [hstep] at hwaits
    exact Bool.false_ne_true hwaits.symm
  have hgrants : p.Grants (.main o) := by
    intro newFd hmalloc
    rw [hmain] at hmalloc
    cases hmalloc
  refine ⟨trace, p, hrun, howner, hnot, ?_⟩
  rcases accept_loop_advances clients hrun o hgrants with ⟨y, p', hstep⟩ | ⟨id, hid⟩
  · exact absurd hstep (hnot y p')
  · refine ⟨id, fun c ↦ ?_⟩
    obtain ⟨p', hstep, -⟩ := hid c
    exact ⟨p', hstep⟩

end Advances

end Aesd
