import Mathlib.Data.Finset.Basic
import Aesd.Service.Lives

/-!
# The launch of the server

What `main` does up to its accept loop, and `daemonize`. With `-d` there are up to three processes:
`daemonize` forks twice, and the parents exit. They run at the same time, any call can fail, and a
signal can come to any of them (`Launch.step`); in the accept loop a process is that of `Site`
(`site_launch_of_run`).

The processes but the last are on their way out, or gone. The last one is where `main` would be if
`fork` only gave it another identity, or it frees what it has and exits, or a signal has come
(`Launch.Last`). So one process at most comes to the accept loop, and what it has got there is what
the calls of `main` and `daemonize`, one after the other, give it (`launch_leaves_one_server`).

Left out: messages, and the descriptor they go to; the file mode mask and the working directory,
which no path of the server depends on; what the signal handler does to the mutex.
-/

namespace Aesd

open Execution

/-- A call on the way to the accept loop. -/
inductive LaunchCall
  | getaddrinfo
  | socket
  | setsockopt
  | bind
  | freeaddrinfo
  | fork
  | setsid
  /-- `signal(SIGHUP, SIG_IGN)`. -/
  | ignoreHangup
  | umask
  | chdir
  | close (fd : ℕ)
  | listen
  | exit (status : ℕ)
  /-- A call that `handle_signal` makes too. -/
  | ending (a : EndCall)
deriving DecidableEq

def EXIT_SUCCESS : ℕ := 0

def EXIT_FAILURE : ℕ := 1

/-- `daemonize`; what is left after each `fork` is for the child. -/
def daemonize : List LaunchCall :=
  [.fork, .setsid, .ignoreHangup, .fork, .umask, .chdir, .close 0, .close 1, .close 2]

def daemonizeFlag (argv : List String) : Bool :=
  argv.length = 2 && argv[1]? = some "-d"

/-- `main` from where the signal handlers are set, up to the accept loop. -/
def mainStart (daemonizeFlag : Bool) : List LaunchCall :=
  [.getaddrinfo, .socket, .setsockopt, .bind, .freeaddrinfo] ++
    (if daemonizeFlag then daemonize else []) ++ [.listen]

/-- What is done if the call fails; where nothing is, its result is not looked at. -/
def LaunchCall.onError : LaunchCall → List LaunchCall
  | .getaddrinfo | .fork | .setsid => [.exit EXIT_FAILURE]
  | .socket => [.freeaddrinfo, .exit EXIT_FAILURE]
  | .setsockopt | .bind => [.freeaddrinfo, .ending .closeSockfd, .exit EXIT_FAILURE]
  | .listen => [.ending .closeSockfd, .exit EXIT_FAILURE]
  | _ => []

/-- What `servinfo` points to. -/
inductive Servinfo
  | uninitialized
  | allocated
  | freed
deriving DecidableEq

def LaunchCall.usesServinfo : LaunchCall → Bool
  | .socket | .bind | .freeaddrinfo => true
  | _ => false

inductive Fate
  | exit (status : ℕ)
  | hangup
deriving DecidableEq

structure Proc where
  /-- The calls that are left; none in the accept loop. -/
  code : List LaunchCall
  ended : Option Fate
  servinfo : Servinfo
  /-- `none` for -1. -/
  sockfd : Option ℕ
  /-- The open descriptors. -/
  fds : Finset ℕ
  groupLeader : Bool
  sessionLeader : Bool
  /-- It has a controlling terminal. -/
  terminal : Bool
  ignoresHangup : Bool

namespace Proc

/-- A process `p` executes the program. -/
def launched (p : Proc) (argv : List String) : Proc :=
  { p with code := mainStart (daemonizeFlag argv), ended := none, servinfo := .uninitialized,
           sockfd := some 0 }

/-- The process is in the accept loop. -/
def Serving (p : Proc) : Prop :=
  p.ended = none ∧ p.code = []

def socketOpen (p : Proc) : Bool :=
  match p.sockfd with
  | none => false
  | some fd => fd ∈ p.fds

def closeSockfd (p : Proc) : Proc :=
  match p.sockfd with
  | none => p
  | some fd => { p with fds := p.fds.erase fd }

@[simp] theorem closeSockfd_code (p : Proc) : p.closeSockfd.code = p.code := by
  rw [closeSockfd]
  split <;> rfl

@[simp] theorem closeSockfd_ended (p : Proc) : p.closeSockfd.ended = p.ended := by
  rw [closeSockfd]
  split <;> rfl

@[simp] theorem closeSockfd_servinfo (p : Proc) : p.closeSockfd.servinfo = p.servinfo := by
  rw [closeSockfd]
  split <;> rfl

def down (p : Proc) (fate : Fate) : Proc :=
  { p with code := [], ended := some fate, fds := ∅ }

/-- The process after a call that succeeds; after `fork`, the child. `fd` is the descriptor that
`socket` gives. -/
def after (fd : ℕ) (p : Proc) : LaunchCall → Proc
  | .getaddrinfo => { p with servinfo := .allocated }
  | .socket => { p with sockfd := some fd, fds := insert fd p.fds }
  | .freeaddrinfo => { p with servinfo := .freed }
  | .fork => { p with groupLeader := false, sessionLeader := false }
  | .setsid => { p with groupLeader := true, sessionLeader := true, terminal := false }
  | .ignoreHangup => { p with ignoresHangup := true }
  | .close fd => { p with fds := p.fds.erase fd }
  | .ending .closeSockfd => p.closeSockfd
  | .exit status => p.down (.exit status)
  | .ending .exit => p.down (.exit EXIT_SUCCESS)
  | .setsockopt | .bind | .umask | .chdir | .listen | .ending _ => p

/-- The call fails; `ok` is whether it could succeed. The leader of a process group cannot be that
of a new session. -/
def fails (p : Proc) (ok : Bool) : LaunchCall → Bool
  | .getaddrinfo | .socket | .fork => !ok
  | .setsockopt | .bind | .listen => !(ok && p.socketOpen)
  | .setsid => p.groupLeader
  | _ => false

/-- The process after a call that fails. -/
def failed (p : Proc) (c : LaunchCall) : Proc :=
  { p with code := c.onError, sockfd := if c = .socket then none else p.sockfd }

end Proc

/-- The processes, the socket and the files. -/
structure Launch where
  procs : List Proc
  bound : Bool
  listening : Bool
  host : Host

inductive LaunchTurn
  | call (i : ℕ) (ok : Bool)
  /-- `SIGINT` or `SIGTERM`. -/
  | signal (i : ℕ)
  | hangup (i : ℕ)

def LaunchTurn.proc : LaunchTurn → ℕ
  | .call i _ | .signal i | .hangup i => i

inductive LaunchEvent
  | call (i : ℕ) (c : LaunchCall) (ok : Bool)
  | signal (i : ℕ)
  | hangup (i : ℕ)
deriving DecidableEq

/-- `handle_signal`. -/
def signalCode : List LaunchCall :=
  handleSignal.map .ending

namespace Launch

/-- A process is launched. -/
def start (argv : List String) (p : Proc) (host : Host) : Launch :=
  ⟨[p.launched argv], false, false, host⟩

def setProc (s : Launch) (i : ℕ) (p : Proc) : Launch :=
  { s with procs := s.procs.set i p }

/-- The socket and the files after a call that succeeds; `ok` is whether a `remove` is allowed. -/
def after (s : Launch) (ok : Bool) : LaunchCall → Launch
  | .bind => { s with bound := true }
  | .listen => { s with listening := true }
  | .ending .remove => if ok then { s with host := { s.host with filePath := none } } else s
  | _ => s

/-- The next call, `c`, succeeds, or nobody looks at its result. -/
def proceed (fd : ℕ) (ok : Bool) (s : Launch) (i : ℕ) (p : Proc) (c : LaunchCall)
    (rest : List LaunchCall) : Launch :=
  match c with
  | .fork =>
    { s with procs := s.procs.set i { p with code := [.exit EXIT_SUCCESS] } ++
              [{ p.after fd .fork with code := rest }] }
  | c => (s.setProc i ({ p with code := rest }.after fd c)).after ok c

def callTurn (fd : ℕ) (s : Launch) (i : ℕ) (p : Proc) (ok : Bool) :
    Except Stop (LaunchEvent × Launch) :=
  match p.code with
  | [] => .error .blocked
  | c :: rest =>
    if c.usesServinfo ∧ p.servinfo ≠ .allocated then .error .fault
    else if p.fails ok c then .ok (.call i c false, s.setProc i (p.failed c))
    else .ok (.call i c true, s.proceed fd ok i p c rest)

/-- One step. A process in the accept loop, and one that has ended, makes none. -/
def step (fd : ℕ) (s : Launch) (turn : LaunchTurn) : Except Stop (LaunchEvent × Launch) :=
  match s.procs[turn.proc]? with
  | none => .error .blocked
  | some p =>
    if p.ended.isSome || p.code.isEmpty then .error .blocked
    else
      match turn with
      | .call i ok => s.callTurn fd i p ok
      | .signal i => .ok (.signal i, s.setProc i { p with code := signalCode })
      | .hangup i =>
        .ok (.hangup i, if p.ignoresHangup then s else s.setProc i (p.down .hangup))

/-! ### What a step does -/

/-- What a step can be. -/
inductive Step (fd : ℕ) (s : Launch) : LaunchEvent → Launch → Prop
  | fails {i : ℕ} {p : Proc} {c : LaunchCall} {rest : List LaunchCall} {ok : Bool}
      (hp : s.procs[i]? = some p) (hended : p.ended = none) (hcode : p.code = c :: rest)
      (hfails : p.fails ok c = true) :
      Step fd s (.call i c false) (s.setProc i (p.failed c))
  | proceeds {i : ℕ} {p : Proc} {c : LaunchCall} {rest : List LaunchCall} {ok : Bool}
      (hp : s.procs[i]? = some p) (hended : p.ended = none) (hcode : p.code = c :: rest)
      (hfails : p.fails ok c = false) :
      Step fd s (.call i c true) (s.proceed fd ok i p c rest)
  | signal {i : ℕ} {p : Proc} (hp : s.procs[i]? = some p) (hended : p.ended = none)
      (hcode : p.code ≠ []) :
      Step fd s (.signal i) (s.setProc i { p with code := signalCode })
  | ignored {i : ℕ} : Step fd s (.hangup i) s
  | hangup {i : ℕ} {p : Proc} (hp : s.procs[i]? = some p) (hended : p.ended = none)
      (hcode : p.code ≠ []) :
      Step fd s (.hangup i) (s.setProc i (p.down .hangup))

variable {fd : ℕ} {s s' : Launch} {y : LaunchEvent} {turn : LaunchTurn}

theorem callTurn_cases {i : ℕ} {p : Proc} {ok : Bool} (hp : s.procs[i]? = some p)
    (hended : p.ended = none) (h : s.callTurn fd i p ok = .ok (y, s')) : s.Step fd y s' := by
  rw [callTurn] at h
  split at h
  · cases h
  · rename_i c rest hcode
    split at h
    · cases h
    · split at h
      · rename_i hfails
        obtain ⟨rfl, rfl⟩ := Prod.mk.inj (Except.ok.inj h)
        exact .fails hp hended hcode hfails
      · rename_i hfails
        obtain ⟨rfl, rfl⟩ := Prod.mk.inj (Except.ok.inj h)
        exact .proceeds hp hended hcode (Bool.not_eq_true _ ▸ hfails)

/-- **What a step does.** -/
theorem step_cases (h : s.step fd turn = .ok (y, s')) : s.Step fd y s' := by
  rw [step] at h
  split at h
  · cases h
  · rename_i p hp
    split at h
    · cases h
    · rename_i hlive
      rw [Bool.or_eq_true, not_or, Option.not_isSome_iff_eq_none, List.isEmpty_iff] at hlive
      cases turn with
      | call i ok => exact callTurn_cases hp hlive.1 h
      | signal i =>
        obtain ⟨rfl, rfl⟩ := Prod.mk.inj (Except.ok.inj h)
        exact .signal hp hlive.1 hlive.2
      | hangup i =>
        obtain ⟨rfl, rfl⟩ := Prod.mk.inj (Except.ok.inj h)
        split
        · exact .ignored
        · exact .hangup hp hlive.1 hlive.2

end Launch

/-! ### Which calls can come -/

/-- What `servinfo` points to after a call that succeeds. -/
def Servinfo.after : Servinfo → LaunchCall → Servinfo
  | _, .getaddrinfo => .allocated
  | _, .freeaddrinfo => .freed
  | servinfo, _ => servinfo

/-- The process that `main` is after calls that succeed, as the child of each `fork`. -/
def Proc.afterAll (fd : ℕ) (p : Proc) (done : List LaunchCall) : Proc :=
  done.foldl (Proc.after fd) p

theorem Proc.after_servinfo (fd : ℕ) (p : Proc) (c : LaunchCall) :
    (p.after fd c).servinfo = p.servinfo.after c := by
  cases c with
  | ending a =>
    cases a with
    | closeSockfd => exact closeSockfd_servinfo p
    | _ => rfl
  | _ => rfl

theorem Proc.afterAll_servinfo (fd : ℕ) (p : Proc) (done : List LaunchCall) :
    (p.afterAll fd done).servinfo = done.foldl Servinfo.after p.servinfo := by
  induction done generalizing p with
  | nil => rfl
  | cons c done ih => rw [afterAll, List.foldl_cons, ← afterAll, ih, after_servinfo]; rfl

/-- On the way to the accept loop, `servinfo` is there where it is used, and what is done if a call
fails frees it if it is there. -/
theorem servinfo_of_mainStart {daemonizeFlag : Bool} {done rest : List LaunchCall} {c : LaunchCall}
    (hsplit : mainStart daemonizeFlag = done ++ c :: rest) :
    (c.usesServinfo → done.foldl Servinfo.after .uninitialized = .allocated) ∧
      (.freeaddrinfo ∈ c.onError ↔ c.onError ≠ [] ∧
        done.foldl Servinfo.after .uninitialized = .allocated) := by
  have hall : ∀ d : Bool, ∀ n < (mainStart d).length, ∀ c ∈ (mainStart d)[n]?,
      (c.usesServinfo → ((mainStart d).take n).foldl Servinfo.after .uninitialized = .allocated) ∧
      (.freeaddrinfo ∈ c.onError ↔ c.onError ≠ [] ∧
        ((mainStart d).take n).foldl Servinfo.after .uninitialized = .allocated) := by
    decide
  have h := hall daemonizeFlag done.length (by simp [hsplit]) c (by simp [hsplit])
  rwa [hsplit, List.take_left] at h

/-- `setsid` is called in the child of a `fork`, which leads no process group. -/
theorem groupLeader_of_mainStart {daemonizeFlag : Bool} {done rest : List LaunchCall} (fd : ℕ)
    (p : Proc) (hsplit : mainStart daemonizeFlag = done ++ .setsid :: rest) :
    (p.afterAll fd done).groupLeader = false := by
  have hall : ∀ d : Bool, ∀ n < (mainStart d).length, (mainStart d)[n]? = some .setsid →
      ((mainStart d).take n).getLast? = some .fork := by
    decide
  have hlast := hall daemonizeFlag done.length (by simp [hsplit]) (by simp [hsplit])
  rw [hsplit, List.take_left] at hlast
  obtain ⟨before, rfl⟩ := List.getLast?_eq_some_iff.1 hlast
  rw [Proc.afterAll, List.foldl_concat]
  rfl

/-- `listen` is the last call. -/
theorem notMem_listen_of_mainStart {daemonizeFlag : Bool} {done rest : List LaunchCall}
    {c : LaunchCall} (hsplit : mainStart daemonizeFlag = done ++ c :: rest) : .listen ∉ done := by
  have hall : ∀ d : Bool, ∀ n < (mainStart d).length, .listen ∉ (mainStart d).take n := by
    decide
  have h := hall daemonizeFlag done.length (by simp [hsplit])
  rwa [hsplit, List.take_left] at h

/-- A call on the way to the accept loop does not end the process. -/
theorem Proc.after_of_mem {daemonizeFlag : Bool} {c : LaunchCall}
    (hc : c ∈ mainStart daemonizeFlag) (fd : ℕ) (p : Proc) (rest : List LaunchCall) :
    { p with code := rest }.after fd c = { p.after fd c with code := rest } ∧
      (p.after fd c).ended = p.ended := by
  cases c with
  | exit | ending => cases daemonizeFlag <;> simp [mainStart, daemonize] at hc
  | _ => exact ⟨rfl, rfl⟩

/-- What is left to do where a call has failed. -/
def errorCodes : List (List LaunchCall) :=
  [[.freeaddrinfo, .exit EXIT_FAILURE], [.freeaddrinfo, .ending .closeSockfd, .exit EXIT_FAILURE],
    [.ending .closeSockfd, .exit EXIT_FAILURE], [.exit EXIT_FAILURE]]

theorem LaunchCall.onError_mem {p : Proc} {ok : Bool} {c : LaunchCall}
    (hfails : p.fails ok c = true) : c.onError ∈ errorCodes := by
  cases c with
  | getaddrinfo | socket | setsockopt | bind | fork | setsid | listen => decide
  | _ => cases hfails

/-! ### The processes -/

/-- No signal has come. -/
def Calm (trace : List LaunchEvent) : Prop :=
  ∀ i, .signal i ∉ trace ∧ .hangup i ∉ trace

theorem Calm.of_concat {trace : List LaunchEvent} {y : LaunchEvent} (h : Calm (trace ++ [y])) :
    Calm trace := fun i ↦
  ⟨fun hmem ↦ (h i).1 (List.mem_append_left _ hmem), fun hmem ↦
    (h i).2 (List.mem_append_left _ hmem)⟩

/-- A call has failed. -/
def HasFailed (trace : List LaunchEvent) : Prop :=
  ∃ i c, .call i c false ∈ trace

theorem HasFailed.concat {trace : List LaunchEvent} {y : LaunchEvent} (h : HasFailed trace) :
    HasFailed (trace ++ [y]) := by
  obtain ⟨i, c, hmem⟩ := h
  exact ⟨i, c, List.mem_append_left _ hmem⟩

namespace Proc

/-- The process has forked, or a signal has come to it. -/
structure Leaving (p : Proc) : Prop where
  code : p.ended = none → p.code ≠ [] ∧ (p.code = [.exit EXIT_SUCCESS] ∨ p.code <:+ signalCode)
  ended : p.ended ≠ some (.exit EXIT_FAILURE)

/-- The process has forked, and no signal has come to it. -/
def Parted (p : Proc) : Prop :=
  (p.ended = none ∧ p.code = [.exit EXIT_SUCCESS]) ∨ p.ended = some (.exit EXIT_SUCCESS)

variable {p : Proc} {c : LaunchCall} {rest : List LaunchCall}

theorem leaving_signalCode (p : Proc) (hended : p.ended = none) :
    ({ p with code := signalCode } : Proc).Leaving :=
  ⟨fun _ ↦ ⟨by simp [signalCode, handleSignal], Or.inr List.suffix_rfl⟩, by simp [hended]⟩

theorem leaving_down (p : Proc) {fate : Fate} (hfate : fate ≠ .exit EXIT_FAILURE) :
    (p.down fate).Leaving :=
  ⟨fun h ↦ absurd h (by simp [down]), by simpa [down] using hfate⟩

/-- The next call of a process that is leaving. -/
theorem Leaving.exists_ending (h : p.Leaving) (hended : p.ended = none)
    (hcode : p.code = c :: rest) :
    (c = .exit EXIT_SUCCESS ∧ rest = []) ∨
      ∃ a, c = .ending a ∧ rest <:+ signalCode ∧ (a ≠ .exit → rest ≠ []) := by
  obtain ⟨-, hexit | hsuffix⟩ := h.code hended
  · obtain ⟨rfl, rfl⟩ := List.cons.inj (hcode.symm.trans hexit)
    exact Or.inl ⟨rfl, rfl⟩
  · have hall : ∀ l ∈ signalCode.tails, ∀ c ∈ l.head?, l.tail <:+ signalCode ∧
        ∃ a ∈ handleSignal, c = .ending a ∧ (a ≠ .exit → l.tail ≠ []) := by
      decide
    have h := hall p.code ((List.mem_tails _ _).2 hsuffix) c (by simp [hcode])
    rw [hcode] at h
    obtain ⟨hrest, a, -, rfl, ha⟩ := h
    exact Or.inr ⟨a, rfl, hrest, ha⟩

theorem Leaving.fails_eq_false (h : p.Leaving) (hended : p.ended = none)
    (hcode : p.code = c :: rest) (ok : Bool) : p.fails ok c = false := by
  obtain ⟨rfl, -⟩ | ⟨a, rfl, -⟩ := h.exists_ending hended hcode <;> rfl

/-- The process after its next call. -/
theorem Leaving.after (h : p.Leaving) (hended : p.ended = none) (hcode : p.code = c :: rest)
    (fd : ℕ) : ({ p with code := rest }.after fd c).Leaving := by
  obtain ⟨rfl, rfl⟩ | ⟨a, rfl, hrest, ha⟩ := h.exists_ending hended hcode
  · exact leaving_down _ (by decide)
  · have hnext : a ≠ .exit → ({ p with code := rest } : Proc).Leaving := fun hne ↦
      ⟨fun _ ↦ ⟨ha hne, Or.inr hrest⟩, h.ended⟩
    cases a with
    | exit => exact leaving_down _ (by decide)
    | closeSockfd =>
      have hleaving := hnext (by decide)
      exact ⟨by simpa [Proc.after] using hleaving.code, by simpa [Proc.after] using hleaving.ended⟩
    | _ => exact hnext (by decide)

theorem Parted.after (h : p.Parted) (hended : p.ended = none) (hcode : p.code = c :: rest)
    (fd : ℕ) : c = .exit EXIT_SUCCESS ∧ ({ p with code := rest }.after fd c).Parted := by
  obtain ⟨-, hexit⟩ | hexited := h
  · obtain ⟨rfl, rfl⟩ := List.cons.inj (hcode.symm.trans hexit)
    exact ⟨rfl, Or.inr rfl⟩
  · exact absurd (hended.symm.trans hexited) (by simp)

end Proc

/-- Where the last process is; `p₀` is the process that was launched, `parents` the number of the
others. -/
inductive Launch.Last (fd : ℕ) (daemonizeFlag : Bool) (p₀ : Proc) (trace : List LaunchEvent)
    (s : Launch) (parents : ℕ) : Proc → Prop
  | line {done rest : List LaunchCall} (hsplit : mainStart daemonizeFlag = done ++ rest)
      (hended : (p₀.afterAll fd done).ended = none) (hparents : parents = done.count .fork)
      (hbound : .bind ∈ done → s.bound = true)
      (hlisten : .listen ∈ done → s.listening = true ∧ (p₀.afterAll fd done).socketOpen = true) :
      Last fd daemonizeFlag p₀ trace s parents { p₀.afterAll fd done with code := rest }
  | failing {p : Proc} (hended : p.ended = none) (hcode : p.code ∈ errorCodes)
      (hservinfo : .freeaddrinfo ∈ p.code ↔ p.servinfo = .allocated) (hfailed : HasFailed trace) :
      Last fd daemonizeFlag p₀ trace s parents p
  | failed {p : Proc} (hended : p.ended = some (.exit EXIT_FAILURE))
      (hservinfo : p.servinfo ≠ .allocated) (hfailed : HasFailed trace) :
      Last fd daemonizeFlag p₀ trace s parents p
  | leaving {p : Proc} (h : p.Leaving) (hsignal : ¬ Calm trace) :
      Last fd daemonizeFlag p₀ trace s parents p

/-- The processes, after `trace`. -/
structure Launch.Sound (fd : ℕ) (daemonizeFlag : Bool) (p₀ : Proc) (host : Host)
    (trace : List LaunchEvent) (s : Launch) : Prop where
  exists_last : ∃ parents p, s.procs = parents ++ [p] ∧
    parents.length ≤ (mainStart daemonizeFlag).count .fork ∧
    (∀ q ∈ parents, q.Leaving ∧ (Calm trace → q.Parted)) ∧
    s.Last fd daemonizeFlag p₀ trace parents.length p
  host : Calm trace → s.host = host
  setsid : ∀ i, .call i .setsid false ∉ trace

namespace Launch

variable {fd : ℕ} {daemonizeFlag : Bool} {p₀ p p' q : Proc} {host : Host}
  {trace : List LaunchEvent} {s s' : Launch} {y : LaunchEvent} {i : ℕ} {parents : List Proc}
  {turn : LaunchTurn}

/-- A step of a process is one of a parent or of the last process. -/
theorem procs_cases (hprocs : s.procs = parents ++ [p]) (hq : s.procs[i]? = some q) :
    (q ∈ parents ∧ ∀ q', s.procs.set i q' = parents.set i q' ++ [p]) ∨
      (i = parents.length ∧ q = p ∧ ∀ q', s.procs.set i q' = parents ++ [q']) := by
  rw [hprocs] at hq ⊢
  rcases Nat.lt_or_ge i parents.length with hi | hi
  · rw [List.getElem?_append_left hi] at hq
    exact Or.inl ⟨List.mem_of_getElem? hq, fun q' ↦ List.set_append_left _ _ hi⟩
  · rw [List.getElem?_append_right hi] at hq
    have hzero : i - parents.length = 0 := by
      by_contra hne
      rw [List.getElem?_eq_none (by rw [List.length_singleton]; omega)] at hq
      cases hq
    rw [hzero] at hq
    refine Or.inr ⟨by omega, (Option.some.inj hq).symm, fun q' ↦ ?_⟩
    rw [List.set_append_right _ _ hi, hzero]
    rfl

/-- The last process stays where it is when another one makes a step. -/
theorem Last.frame {n : ℕ} (h : s.Last fd daemonizeFlag p₀ trace n p) (hbound : s'.bound = s.bound)
    (hlistening : s'.listening = s.listening) :
    s'.Last fd daemonizeFlag p₀ (trace ++ [y]) n p := by
  cases h with
  | line hsplit hended hparents hb hl =>
    exact .line hsplit hended hparents (by rwa [hbound]) (by rwa [hlistening])
  | failing hended hcode hservinfo hfailed =>
    exact .failing hended hcode hservinfo hfailed.concat
  | failed hended hservinfo hfailed => exact .failed hended hservinfo hfailed.concat
  | leaving hleaving hsignal => exact .leaving hleaving fun hcalm ↦ hsignal hcalm.of_concat

/-- A step of a parent. -/
theorem Sound.of_parent (h : s.Sound fd daemonizeFlag p₀ host trace)
    (hlen : parents.length ≤ (mainStart daemonizeFlag).count .fork)
    (hparents : ∀ r ∈ parents, r.Leaving ∧ (Calm trace → r.Parted))
    (hlast : s.Last fd daemonizeFlag p₀ trace parents.length p)
    (hset : s'.procs = parents.set i q ++ [p])
    (hq : q.Leaving ∧ (Calm (trace ++ [y]) → q.Parted)) (hbound : s'.bound = s.bound)
    (hlistening : s'.listening = s.listening) (hhost : Calm (trace ++ [y]) → s'.host = s.host)
    (hy : ∀ j, y ≠ .call j .setsid false) :
    s'.Sound fd daemonizeFlag p₀ host (trace ++ [y]) where
  exists_last := by
    refine ⟨_, p, hset, by rwa [List.length_set], fun r hr ↦ ?_, ?_⟩
    · rcases List.mem_or_eq_of_mem_set hr with hr | rfl
      · exact ⟨(hparents r hr).1, fun hcalm ↦ (hparents r hr).2 hcalm.of_concat⟩
      · exact hq
    · rw [List.length_set]
      exact hlast.frame hbound hlistening
  host hcalm := (hhost hcalm).trans (h.host hcalm.of_concat)
  setsid j hmem := (List.mem_append.1 hmem).elim (h.setsid j) fun hmem ↦
    hy j (List.mem_singleton.1 hmem).symm

/-- A step of the last process that makes no other one. -/
theorem Sound.of_last (h : s.Sound fd daemonizeFlag p₀ host trace)
    (hlen : parents.length ≤ (mainStart daemonizeFlag).count .fork)
    (hparents : ∀ r ∈ parents, r.Leaving ∧ (Calm trace → r.Parted))
    (hset : s'.procs = parents ++ [q])
    (hq : s'.Last fd daemonizeFlag p₀ (trace ++ [y]) parents.length q)
    (hhost : Calm (trace ++ [y]) → s'.host = s.host) (hy : ∀ j, y ≠ .call j .setsid false) :
    s'.Sound fd daemonizeFlag p₀ host (trace ++ [y]) where
  exists_last := ⟨_, q, hset, hlen, fun r hr ↦
    ⟨(hparents r hr).1, fun hcalm ↦ (hparents r hr).2 hcalm.of_concat⟩, hq⟩
  host hcalm := (hhost hcalm).trans (h.host hcalm.of_concat)
  setsid j hmem := (List.mem_append.1 hmem).elim (h.setsid j) fun hmem ↦
    hy j (List.mem_singleton.1 hmem).symm

/-- The last process makes a call that fails. -/
theorem Last.fails {n : ℕ} {c : LaunchCall} {rest : List LaunchCall} {ok : Bool}
    (h : s.Last fd daemonizeFlag p₀ trace n p) (hp₀ : p₀.servinfo = .uninitialized)
    (hended : p.ended = none) (hcode : p.code = c :: rest) (hfails : p.fails ok c = true) :
    s'.Last fd daemonizeFlag p₀ (trace ++ [.call i c false]) n (p.failed c) ∧ c ≠ .setsid := by
  cases h with
  | @line done _ hsplit =>
    obtain rfl := hcode
    have hmem := LaunchCall.onError_mem hfails
    refine ⟨.failing hended hmem ?_ ⟨i, c, by simp⟩, ?_⟩
    · have hservinfo := (servinfo_of_mainStart hsplit).2
      rw [← hp₀, ← Proc.afterAll_servinfo fd] at hservinfo
      have hne : c.onError ≠ [] := fun hnil ↦ absurd (hnil ▸ hmem) (by decide)
      exact hservinfo.trans (and_iff_right hne)
    · rintro rfl
      have hleader : (p₀.afterAll fd done).groupLeader = true := hfails
      exact absurd ((groupLeader_of_mainStart fd p₀ hsplit).symm.trans hleader) (by decide)
  | failing _ hmem =>
    have hall : ∀ l ∈ errorCodes, ∀ c ∈ l.head?,
        c = .freeaddrinfo ∨ c = .ending .closeSockfd ∨ c = .exit EXIT_FAILURE := by
      decide
    obtain rfl | rfl | rfl := hall _ hmem c (by simp [hcode]) <;> cases hfails
  | failed hexited => exact absurd (hended.symm.trans hexited) (by simp)
  | leaving h =>
    exact absurd ((h.fails_eq_false hended hcode ok).symm.trans hfails) (by decide)

/-- The next call of a process that is leaving concerns no other process and not the socket. -/
theorem proceed_of_leaving (fd : ℕ) (ok : Bool) (s : Launch) (i : ℕ) {c : LaunchCall}
    {rest : List LaunchCall} (hq : q.Leaving) (hended : q.ended = none)
    (hcode : q.code = c :: rest) :
    (s.proceed fd ok i q c rest).procs = s.procs.set i ({ q with code := rest }.after fd c) ∧
      (s.proceed fd ok i q c rest).bound = s.bound ∧
      (s.proceed fd ok i q c rest).listening = s.listening := by
  obtain ⟨rfl, -⟩ | ⟨a, rfl, -⟩ := hq.exists_ending hended hcode
  · exact ⟨rfl, rfl, rfl⟩
  · cases a <;> cases ok <;> exact ⟨rfl, rfl, rfl⟩

/-- A call on the way to the accept loop that is no `fork`. -/
theorem proceed_of_mem (fd : ℕ) (ok : Bool) (s : Launch) (i : ℕ) (p : Proc) {c : LaunchCall}
    (rest : List LaunchCall) (hmem : c ∈ mainStart daemonizeFlag) (hfork : c ≠ .fork) :
    (s.proceed fd ok i p c rest).procs = s.procs.set i ({ p with code := rest }.after fd c) ∧
      (s.proceed fd ok i p c rest).bound = (s.after ok c).bound ∧
      (s.proceed fd ok i p c rest).listening = (s.after ok c).listening ∧
      (s.proceed fd ok i p c rest).host = s.host := by
  cases c with
  | fork => exact absurd rfl hfork
  | exit | ending => cases daemonizeFlag <;> simp [mainStart, daemonize] at hmem
  | _ => exact ⟨rfl, rfl, rfl, rfl⟩

/-- The last process goes on towards the accept loop; after a `fork`, as the child. -/
theorem Last.proceeds {c : LaunchCall} {done rest : List LaunchCall} {ok : Bool}
    (hsplit : mainStart daemonizeFlag = done ++ c :: rest)
    (hended : (p₀.afterAll fd done).ended = none) (hbound : .bind ∈ done → s.bound = true)
    (hfails : (p₀.afterAll fd done).fails ok c = false) (hs' : s'.bound = (s.after ok c).bound)
    (hs'' : s'.listening = (s.after ok c).listening) :
    s'.Last fd daemonizeFlag p₀ (trace ++ [y]) ((done ++ [c]).count .fork)
      ({ p₀.afterAll fd done with code := rest }.after fd c) := by
  have hmem : c ∈ mainStart daemonizeFlag := by simp [hsplit]
  obtain ⟨hafter, hstays⟩ := Proc.after_of_mem hmem fd (p₀.afterAll fd done) rest
  have hconcat : p₀.afterAll fd (done ++ [c]) = (p₀.afterAll fd done).after fd c := by
    rw [Proc.afterAll, Proc.afterAll, List.foldl_concat]
  rw [hafter, ← hconcat]
  refine .line (by simp [hsplit]) ?_ rfl (fun hb ↦ ?_) (fun hl ↦ ?_)
  · rw [hconcat, hstays, hended]
  · rw [hs']
    rcases List.mem_append.1 hb with hb | hb
    · have hbound := hbound hb
      cases c with
      | ending a => cases a <;> cases ok <;> exact hbound
      | bind => rfl
      | _ => exact hbound
    · obtain rfl := List.mem_singleton.1 hb
      rfl
  · rcases List.mem_append.1 hl with hl | hl
    · exact absurd hl (notMem_listen_of_mainStart hsplit)
    · obtain rfl := List.mem_singleton.1 hl
      refine ⟨hs'', ?_⟩
      rw [hconcat]
      rw [Proc.fails, Bool.not_eq_false', Bool.and_eq_true] at hfails
      exact hfails.2

/-- The last process goes on giving up. -/
theorem Last.givesUp {n : ℕ} {ok : Bool} {c : LaunchCall} {rest : List LaunchCall}
    (hended : p.ended = none) (hmem : p.code ∈ errorCodes)
    (hservinfo : .freeaddrinfo ∈ p.code ↔ p.servinfo = .allocated)
    (hfailed : HasFailed trace) (hcode : p.code = c :: rest) :
    s'.Last fd daemonizeFlag p₀ (trace ++ [y]) n ({ p with code := rest }.after fd c) ∧
      s.proceed fd ok i p c rest = s.setProc i ({ p with code := rest }.after fd c) := by
  rw [hcode] at hmem hservinfo
  have hfreed : ∀ l ∈ errorCodes, ∀ c ∈ l.head?, c ≠ .freeaddrinfo → .freeaddrinfo ∉ l := by
    decide
  have hfreed := hfreed _ hmem c rfl
  have hrest : ∀ l ∈ errorCodes, ∀ c ∈ l.head?, (c = .exit EXIT_FAILURE ∧ l.tail = []) ∨
      ((c = .freeaddrinfo ∨ c = .ending .closeSockfd) ∧ l.tail ∈ errorCodes ∧
        .freeaddrinfo ∉ l.tail) := by
    decide
  obtain ⟨rfl, rfl⟩ | ⟨rfl | rfl, hrest, hnot⟩ := hrest _ hmem c rfl
  · exact ⟨.failed rfl (mt hservinfo.2 (hfreed (by decide))) hfailed.concat, rfl⟩
  · exact ⟨.failing hended hrest (iff_of_false hnot (by simp [Proc.after])) hfailed.concat, rfl⟩
  · have hne : p.servinfo ≠ .allocated := mt hservinfo.2 (hfreed (by decide))
    exact ⟨.failing (by simpa [Proc.after] using hended) (by simpa [Proc.after] using hrest)
      (by simpa [Proc.after, hne] using hnot) hfailed.concat, rfl⟩

/-- The last process makes a call that is no `fork`. -/
theorem Sound.of_call {c : LaunchCall} {done rest : List LaunchCall} {ok : Bool}
    (h : s.Sound fd daemonizeFlag p₀ host trace)
    (hlen : parents.length ≤ (mainStart daemonizeFlag).count .fork)
    (hparents : ∀ r ∈ parents, r.Leaving ∧ (Calm trace → r.Parted))
    (hsplit : mainStart daemonizeFlag = done ++ c :: rest)
    (hended : (p₀.afterAll fd done).ended = none) (hcount : parents.length = done.count .fork)
    (hbound : .bind ∈ done → s.bound = true) (hset : ∀ q', s.procs.set i q' = parents ++ [q'])
    (hfails : (p₀.afterAll fd done).fails ok c = false) (hfork : c ≠ .fork) :
    (s.proceed fd ok i { p₀.afterAll fd done with code := c :: rest } c rest).Sound fd
      daemonizeFlag p₀ host (trace ++ [.call i c true]) := by
  have hmem : c ∈ mainStart daemonizeFlag := by simp [hsplit]
  obtain ⟨hprocs, hbound', hlistening, hhost⟩ := proceed_of_mem fd ok s i
    { p₀.afterAll fd done with code := c :: rest } rest hmem hfork
  have hcount' : (done ++ [c]).count .fork = parents.length := by
    rw [List.count_append, List.count_singleton, if_neg (by simpa using hfork), hcount]
    rfl
  refine h.of_last hlen hparents (hprocs.trans (hset _)) ?_ (fun _ ↦ hhost) (by simp)
  rw [← hcount']
  exact Last.proceeds hsplit hended hbound hfails hbound' hlistening

/-- A signal makes a process leave. -/
theorem Sound.of_signal (h : s.Sound fd daemonizeFlag p₀ host trace)
    (hlen : parents.length ≤ (mainStart daemonizeFlag).count .fork)
    (hparents : ∀ r ∈ parents, r.Leaving ∧ (Calm trace → r.Parted))
    (hprocs : s.procs = parents ++ [p])
    (hlast : s.Last fd daemonizeFlag p₀ trace parents.length p) (hq : s.procs[i]? = some q)
    (hleaving : p'.Leaving) (hnot : ¬ Calm (trace ++ [y])) (hy : ∀ j, y ≠ .call j .setsid false) :
    (s.setProc i p').Sound fd daemonizeFlag p₀ host (trace ++ [y]) := by
  rcases procs_cases hprocs hq with ⟨-, hset⟩ | ⟨-, -, hset⟩
  · exact h.of_parent hlen hparents hlast (hset _) ⟨hleaving, fun hcalm ↦ absurd hcalm hnot⟩ rfl
      rfl (fun _ ↦ rfl) hy
  · exact h.of_last hlen hparents (hset _) (.leaving hleaving hnot) (fun _ ↦ rfl) hy

/-- The last process forks. -/
theorem Sound.of_fork {ok : Bool} {done rest : List LaunchCall}
    (h : s.Sound fd daemonizeFlag p₀ host trace)
    (hparents : ∀ r ∈ parents, r.Leaving ∧ (Calm trace → r.Parted))
    (hsplit : mainStart daemonizeFlag = done ++ .fork :: rest)
    (hended : (p₀.afterAll fd done).ended = none) (hcount : parents.length = done.count .fork)
    (hbound : .bind ∈ done → s.bound = true) (hset : ∀ q', s.procs.set i q' = parents ++ [q']) :
    (s.proceed fd ok i { p₀.afterAll fd done with code := .fork :: rest } .fork rest).Sound fd
      daemonizeFlag p₀ host (trace ++ [.call i .fork true]) where
  exists_last := by
    have hlen : (parents ++ [{ p₀.afterAll fd done with code := [.exit EXIT_SUCCESS] }]).length =
        (done ++ [LaunchCall.fork]).count .fork := by
      rw [List.length_append, List.count_append, hcount]
      rfl
    refine ⟨parents ++ [{ p₀.afterAll fd done with code := [.exit EXIT_SUCCESS] }], _,
      congrArg (· ++ _) (hset _), ?_, ?_, ?_⟩
    · rw [hlen, hsplit]
      exact List.Sublist.count_le _ (by simp)
    · intro r hr
      rcases List.mem_append.1 hr with hr | hr
      · exact ⟨(hparents r hr).1, fun hcalm ↦ (hparents r hr).2 hcalm.of_concat⟩
      · obtain rfl := List.mem_singleton.1 hr
        exact ⟨⟨fun _ ↦ ⟨by simp, Or.inl rfl⟩, by simp [hended]⟩, fun _ ↦ Or.inl ⟨hended, rfl⟩⟩
    · have hfails : (p₀.afterAll fd done).fails true .fork = false := rfl
      rw [hlen]
      exact Last.proceeds hsplit hended hbound hfails rfl rfl
  host hcalm := h.host hcalm.of_concat
  setsid j hmem := (List.mem_append.1 hmem).elim (h.setsid j) fun hmem ↦
    absurd (List.mem_singleton.1 hmem) (by simp)

/-- **One step.** -/
theorem Sound.step (h : s.Sound fd daemonizeFlag p₀ host trace)
    (hp₀ : p₀.servinfo = .uninitialized) (hstep : s.Step fd y s') :
    s'.Sound fd daemonizeFlag p₀ host (trace ++ [y]) := by
  obtain ⟨parents, p, hprocs, hlen, hparents, hlast⟩ := h.exists_last
  -- a parent has only calls left that concern nobody else; only the last process can do more
  have hparts : ∀ q ∈ parents, q.Leaving := fun q hq ↦ (hparents q hq).1
  cases hstep with
  | @fails i q c rest ok hq hended hcode hfails =>
    rcases procs_cases hprocs hq with ⟨hmem, -⟩ | ⟨-, rfl, hset⟩
    · have hnot := (hparts q hmem).fails_eq_false hended hcode ok
      exact absurd (hnot.symm.trans hfails) (by decide)
    · obtain ⟨hlast, hne⟩ := hlast.fails hp₀ hended hcode hfails
      exact h.of_last hlen hparents (hset _) hlast (fun _ ↦ rfl) fun j heq ↦
        hne (LaunchEvent.call.inj heq).2.1
  | @proceeds i q c rest ok hq hended hcode hfails =>
    have hcall : ∀ j, LaunchEvent.call i c true ≠ .call j .setsid false := by simp
    rcases procs_cases hprocs hq with ⟨hmem, hset⟩ | ⟨-, rfl, hset⟩
    · obtain ⟨hprocs', hbound, hlistening⟩ :=
        proceed_of_leaving fd ok s i (hparts q hmem) hended hcode
      refine h.of_parent hlen hparents hlast (hprocs'.trans (hset _))
        ⟨(hparts q hmem).after hended hcode fd, fun hcalm ↦ ?_⟩ hbound hlistening
        (fun hcalm ↦ ?_) hcall
      · exact (((hparents q hmem).2 hcalm.of_concat).after hended hcode fd).2
      · obtain ⟨rfl, -⟩ := ((hparents q hmem).2 hcalm.of_concat).after hended hcode fd
        rfl
    · cases hlast with
      | line hsplit _ hcount hbound =>
        obtain rfl := hcode
        by_cases hfork : c = .fork
        · subst hfork
          exact h.of_fork hparents hsplit hended hcount hbound hset
        · exact h.of_call hlen hparents hsplit hended hcount hbound hset hfails hfork
      | failing _ hmem hservinfo hfailed =>
        obtain ⟨hlast, hproceed⟩ := Last.givesUp (s := s) hended hmem hservinfo hfailed hcode
        rw [hproceed]
        exact h.of_last hlen hparents (hset _) hlast (fun _ ↦ rfl) hcall
      | failed hexited => exact absurd (hended.symm.trans hexited) (by simp)
      | leaving hleaving hsignal =>
        have hnot : ¬ Calm (trace ++ [.call i c true]) := fun hcalm ↦ hsignal hcalm.of_concat
        exact h.of_last hlen hparents
          ((proceed_of_leaving fd ok s i hleaving hended hcode).1.trans (hset _))
          (.leaving (hleaving.after hended hcode fd) hnot) (fun hcalm ↦ absurd hcalm hnot) hcall
  | @signal i q hq hended hcode =>
    have hnot : ¬ Calm (trace ++ [.signal i]) := fun hcalm ↦ (hcalm i).1 (by simp)
    exact h.of_signal hlen hparents hprocs hlast hq (q.leaving_signalCode hended) hnot (by simp)
  | ignored =>
    exact h.of_last hlen hparents hprocs (hlast.frame rfl rfl) (fun _ ↦ rfl) (by simp)
  | @hangup i q hq hended hcode =>
    have hnot : ¬ Calm (trace ++ [.hangup i]) := fun hcalm ↦ (hcalm i).2 (by simp)
    exact h.of_signal hlen hparents hprocs hlast hq (q.leaving_down (by decide)) hnot (by simp)

/-- A process that has a call left can make it. -/
theorem step_ne_blocked (hq : s.procs[i]? = some q) (hended : q.ended = none)
    (hcode : q.code ≠ []) (ok : Bool) : s.step fd (.call i ok) ≠ .error .blocked := by
  rw [Launch.step, LaunchTurn.proc, hq]
  show (if q.ended.isSome || q.code.isEmpty then _ else s.callTurn fd i q ok) ≠ _
  rw [if_neg (by simp [hended, hcode]), callTurn]
  split
  · exact absurd ‹_› hcode
  · split
    · simp
    · split <;> simp

/-- What a process uses is there. -/
theorem Sound.servinfo (h : s.Sound fd daemonizeFlag p₀ host trace)
    (hp₀ : p₀.servinfo = .uninitialized) (hq : s.procs[i]? = some q) (hended : q.ended = none)
    {c : LaunchCall} {rest : List LaunchCall} (hcode : q.code = c :: rest)
    (huses : c.usesServinfo = true) : q.servinfo = .allocated := by
  have hnot : ¬ q.Leaving := by
    intro hleaving
    obtain ⟨rfl, -⟩ | ⟨a, rfl, -⟩ := hleaving.exists_ending hended hcode <;> cases huses
  obtain ⟨parents, p, hprocs, -, hparents, hlast⟩ := h.exists_last
  rcases procs_cases hprocs hq with ⟨hmem, -⟩ | ⟨-, rfl, -⟩
  · exact absurd (hparents q hmem).1 hnot
  · cases hlast with
    | line hsplit =>
      obtain rfl := hcode
      exact (Proc.afterAll_servinfo ..).trans (hp₀ ▸ (servinfo_of_mainStart hsplit).1 huses)
    | failing _ hmem hservinfo =>
      have hall : ∀ l ∈ errorCodes, ∀ c ∈ l.head?, c.usesServinfo = true → .freeaddrinfo ∈ l := by
        decide
      exact hservinfo.1 (hall _ hmem c (by simp [hcode]) huses)
    | failed hexited => exact absurd (hended.symm.trans hexited) (by simp)
    | leaving hleaving => exact absurd hleaving hnot

/-- A step is blocked, or it is made. -/
theorem Sound.step_ne_fault (h : s.Sound fd daemonizeFlag p₀ host trace)
    (hp₀ : p₀.servinfo = .uninitialized) (turn : LaunchTurn) : s.step fd turn ≠ .error .fault := by
  rw [Launch.step]
  split
  · simp
  · rename_i q hq
    split
    · simp
    · rename_i hlive
      rw [Bool.or_eq_true, not_or, Option.not_isSome_iff_eq_none] at hlive
      cases turn with
      | call i ok =>
        show s.callTurn fd i q ok ≠ .error .fault
        rw [callTurn]
        split
        · simp
        · rename_i c rest hcode
          rw [if_neg fun hfault ↦ hfault.2 (h.servinfo hp₀ hq hlive.1 hcode hfault.1)]
          split <;> simp
      | signal | hangup => simp

end Launch

/-- A daemon: it has no terminal and cannot get one, and its standard streams are closed. -/
structure Proc.Detached (p : Proc) : Prop where
  groupLeader : p.groupLeader = false
  sessionLeader : p.sessionLeader = false
  terminal : p.terminal = false
  ignoresHangup : p.ignoresHangup = true
  closed : ∀ fd < 3, fd ∉ p.fds

/-- What a process in the accept loop has got. -/
structure Proc.Listens (p : Proc) (fd : ℕ) (daemonizeFlag : Bool) (p₀ : Proc) : Prop where
  servinfo : p.servinfo = .freed
  sockfd : p.sockfd = some fd
  mem : fd ∈ p.fds
  detached : daemonizeFlag = true → p.Detached
  /-- Otherwise it is as it was launched. -/
  attached : daemonizeFlag = false →
    p = { p₀ with code := [], ended := none, servinfo := .freed, sockfd := some fd,
                  fds := insert fd p₀.fds }

namespace Launch

variable {fd : ℕ} {argv : List String} {p q : Proc} {host : Host} {turns : List LaunchTurn}
  {trace : List LaunchEvent} {s : Launch} {i : ℕ}

theorem sound_of_run (hrun : run (step fd) (start argv p host) turns = .ok (trace, s)) :
    s.Sound fd (daemonizeFlag argv) (p.launched argv) host trace := by
  refine history_of_run (I := fun trace s ↦ Launch.Sound fd _ _ host trace s)
    (fun _ _ _ _ _ h hstep ↦ h.step rfl (step_cases hstep)) ⟨?_, fun _ ↦ rfl, by simp⟩ hrun
  have hnil : mainStart (daemonizeFlag argv) = [] ++ mainStart (daemonizeFlag argv) := rfl
  exact ⟨[], _, rfl, Nat.zero_le _, List.forall_mem_nil _,
    .line hnil rfl rfl (fun h ↦ absurd h (by simp)) fun h ↦ absurd h (by simp)⟩

theorem afterAll_mainStart (fd : ℕ) (p : Proc) :
    p.afterAll fd (mainStart false) =
      { p with servinfo := .freed, sockfd := some fd, fds := insert fd p.fds } :=
  rfl

theorem afterAll_daemonize (fd : ℕ) (p : Proc) :
    p.afterAll fd (mainStart true) =
      { p with servinfo := .freed, sockfd := some fd,
               fds := (((insert fd p.fds).erase 0).erase 1).erase 2, groupLeader := false,
               sessionLeader := false, terminal := false, ignoresHangup := true } :=
  rfl

/-- What the calls of `main` and `daemonize` give a process. -/
theorem listens_of_afterAll {daemonizeFlag : Bool}
    (hopen : ((p.launched argv).afterAll fd (mainStart daemonizeFlag)).socketOpen = true) :
    { (p.launched argv).afterAll fd (mainStart daemonizeFlag) with code := [] }.Listens fd
      daemonizeFlag p := by
  cases daemonizeFlag with
  | true =>
    rw [afterAll_daemonize] at hopen ⊢
    refine ⟨rfl, rfl, of_decide_eq_true hopen, fun _ ↦ ⟨rfl, rfl, rfl, rfl, fun n hn ↦ ?_⟩,
      fun h ↦ absurd h (by decide)⟩
    have hn : n = 0 ∨ n = 1 ∨ n = 2 := by omega
    obtain rfl | rfl | rfl := hn <;> simp
  | false =>
    rw [afterAll_mainStart] at hopen ⊢
    exact ⟨rfl, rfl, of_decide_eq_true hopen, fun h ↦ absurd h (by decide), fun _ ↦ rfl⟩

end Launch

/-- A launch to which no signal comes is a step of `Site`: the server in its accept loop finds the
files as the last life left them. -/
theorem site_launch_of_run {fd : ℕ} {argv : List String} {p : Proc} {site : Site}
    {turns : List LaunchTurn} {trace : List LaunchEvent} {s : Launch}
    (hrun : run (Launch.step fd) (Launch.start argv p site.world.env) turns = .ok (trace, s))
    (hcalm : Calm trace) (hdown : site.running = false) (inboxes : ℕ → List (List Byte)) :
    site.step (.launch inboxes) = .ok (.launch, .launched s.host (site.life + 1) inboxes) := by
  have hhost : s.host = site.world.env := (Launch.sound_of_run hrun).host hcalm
  rw [Site.step, hdown, hhost]
  rfl

/-- **One launch, one server.** However the processes of a launch take turns, whatever fails, and
whatever signals come:

* the process in the accept loop, if there is one, is the last, and it listens on the socket; with
  `-d` it is the child of a child, and a daemon; so there is at most one;
* a process that has exited with `EXIT_FAILURE` is the last, a call has failed, and it does not keep
  the addresses; so the process that was launched tells nothing of what fails after its `fork`;
* if no signal comes, the files are as they were, and once no call is left, all parents have exited
  with `EXIT_SUCCESS`, and the last process is in the accept loop, or a call has failed and it has
  exited with `EXIT_FAILURE`;
* `setsid` does not fail;
* no step uses addresses that are not there. -/
theorem launch_leaves_one_server {fd : ℕ} {argv : List String} {p : Proc} {host : Host}
    {turns : List LaunchTurn} {trace : List LaunchEvent} {s : Launch}
    (hrun : run (Launch.step fd) (Launch.start argv p host) turns = .ok (trace, s)) :
    (∀ i q, s.procs[i]? = some q → q.Serving →
      s.procs.length = i + 1 ∧ i = (if daemonizeFlag argv then 2 else 0) ∧
        q.Listens fd (daemonizeFlag argv) p ∧ s.bound = true ∧ s.listening = true) ∧
    (∀ i q, s.procs[i]? = some q → q.ended = some (.exit EXIT_FAILURE) →
      s.procs.length = i + 1 ∧ HasFailed trace ∧ q.servinfo ≠ .allocated) ∧
    (Calm trace → s.host = host ∧
      ((∀ i ok, s.step fd (.call i ok) = .error .blocked) →
        ∃ parents q, s.procs = parents ++ [q] ∧
          (∀ r ∈ parents, r.ended = some (.exit EXIT_SUCCESS)) ∧
          (q.Serving ∨ q.ended = some (.exit EXIT_FAILURE)))) ∧
    (∀ i, .call i .setsid false ∉ trace) ∧
    ∀ turn, s.step fd turn ≠ .error .fault := by
  have hsound := Launch.sound_of_run hrun
  obtain ⟨parents, q, hprocs, hlen, hparents, hlast⟩ := hsound.exists_last
  have hlength : s.procs.length = parents.length + 1 := by simp [hprocs]
  refine ⟨fun i r hr hserving ↦ ?_, fun i r hr hexited ↦ ?_, fun hcalm ↦
    ⟨hsound.host hcalm, fun hblocked ↦ ?_⟩, hsound.setsid, hsound.step_ne_fault rfl⟩
  · rcases Launch.procs_cases hprocs hr with ⟨hmem, -⟩ | ⟨rfl, rfl, -⟩
    · exact absurd hserving.2 ((hparents r hmem).1.code hserving.1).1
    · cases hlast with
      | @line done rest hsplit _ hcount hbound hlisten =>
        obtain rfl : rest = [] := hserving.2
        rw [List.append_nil] at hsplit
        subst hsplit
        obtain ⟨hlistening, hopen⟩ := hlisten (by cases daemonizeFlag argv <;> decide)
        refine ⟨hlength, ?_, Launch.listens_of_afterAll hopen, hbound ?_, hlistening⟩
        · rw [hcount]
          cases daemonizeFlag argv <;> rfl
        · cases daemonizeFlag argv <;> decide
      | failing _ hmem => exact absurd (hserving.2 ▸ hmem) (by decide)
      | failed hexited => exact absurd (hserving.1.symm.trans hexited) (by simp)
      | leaving hleaving => exact absurd hserving.2 (hleaving.code hserving.1).1
  · rcases Launch.procs_cases hprocs hr with ⟨hmem, -⟩ | ⟨rfl, rfl, -⟩
    · exact absurd hexited (hparents r hmem).1.ended
    · cases hlast with
      | line _ hended => exact absurd (hended.symm.trans hexited) (by simp)
      | failing hended => exact absurd (hended.symm.trans hexited) (by simp)
      | failed _ hservinfo hfailed => exact ⟨hlength, hfailed, hservinfo⟩
      | leaving hleaving => exact absurd hexited hleaving.ended
  · -- a process that has calls left could make one
    have hdone : ∀ r ∈ s.procs, r.ended = none → r.code = [] := by
      intro r hr hended
      obtain ⟨i, hi⟩ := List.getElem?_of_mem hr
      by_contra hcode
      exact Launch.step_ne_blocked hi hended hcode true (hblocked i true)
    rw [hprocs] at hdone
    refine ⟨parents, q, hprocs, fun r hr ↦ ?_, ?_⟩
    · obtain ⟨hended, hcode⟩ | hexited := (hparents r hr).2 hcalm
      · exact absurd (hcode.symm.trans (hdone r (by simp [hr]) hended)) (by simp)
      · exact hexited
    · have hdone := hdone q (by simp)
      cases hlast with
      | line _ hended => exact Or.inl ⟨hended, hdone hended⟩
      | failing hended hmem => exact absurd (hdone hended ▸ hmem) (by decide)
      | failed hexited => exact Or.inr hexited
      | leaving _ hsignal => exact absurd hcalm hsignal

/-- With `-d`; the terminal hangs up after the first child has seen to that. -/
theorem launch_leaves_one_server_daemon :
    let p : Proc := ⟨[], none, .uninitialized, none, {0, 1, 2}, true, false, true, false⟩
    let turns := List.replicate 6 (.call 0 true) ++ [.call 1 true, .call 1 true, .hangup 1] ++
      .call 1 true :: List.replicate 6 (.call 2 true) ++ [.call 0 true, .call 1 true]
    ∃ trace s q, run (Launch.step 3) (Launch.start ["aesdsocket", "-d"] p .init) turns =
        .ok (trace, s) ∧
      s.procs.map Proc.ended = [some (.exit 0), some (.exit 0), none] ∧
      s.procs[2]? = some q ∧ q.Serving ∧ q.Detached ∧ 3 ∈ q.fds := by
  intro p turns
  have heval : (run (Launch.step 3) (Launch.start ["aesdsocket", "-d"] p .init) turns).map
      (fun z ↦ (z.2.procs.map Proc.ended, z.2.procs[2]?.map Proc.code)) =
      .ok ([some (.exit 0), some (.exit 0), none], some []) := by
    decide +kernel
  obtain ⟨⟨trace, s⟩, hrun, hend⟩ := exists_of_map_eq_ok heval
  obtain ⟨hended, hcode⟩ := Prod.mk.inj hend
  obtain ⟨q, hq, hcode⟩ := Option.map_eq_some_iff.1 hcode
  have hnone : q.ended = none := by
    have hmap : (s.procs.map Proc.ended)[2]? = some q.ended := by rw [List.getElem?_map, hq]; rfl
    rw [hended] at hmap
    exact (Option.some.inj hmap).symm
  obtain ⟨-, -, hlistens, -, -⟩ := (launch_leaves_one_server hrun).1 2 q hq ⟨hnone, hcode⟩
  exact ⟨trace, s, q, hrun, hended, hq, ⟨hnone, hcode⟩, hlistens.detached rfl, hlistens.mem⟩

end Aesd
