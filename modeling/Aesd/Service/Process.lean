import Aesd.Server.Peers
import Aesd.Service.Descriptors

/-!
# The whole process

The accept loop, its threads, `aesdsocket_mutex`, the device and the clients in one machine
(`Process.step`). The files of the device and the connections share the descriptors of the process:
the kernel gives out a descriptor only if it is neither, and `close` closes whatever has it. What
the `k`-th client that is accepted sends is `clients k`.

The machine is those of its parts at the same time. What happens in it happens in the accept loop
alone (`Whole.server`), and what its threads call they call in the world of `serve`
(`Whole.world`), with the client that was accepted for each of them.

The descriptor of the listening socket is not among those the kernel gives out.
-/

namespace Aesd

open Execution MutualExclusion

/-- The server's end of a connection. -/
structure Socket where
  /-- The client at the other end, by the number of its `accept`. -/
  client : ℕ
  /-- What has come from it, chunk by chunk. -/
  inbox : List (List Byte)

/-- The server and all it uses. -/
structure Process where
  server : Server
  /-- The thread that holds `aesdsocket_mutex`. -/
  owner : Option ℕ
  sys : System
  sockets : ℕ → Option Socket
  /-- How many clients have been accepted. -/
  accepted : ℕ

/-- A step, and the client it is about, if it is a call on a connection. -/
structure Happening where
  event : ServerEvent
  client : Option ℕ
deriving DecidableEq

/-- Whose turn it is, and what is left open in it. -/
inductive ProcessTurn
  | main (o : MainOutcome)
  | thread (id : ℕ) (c : Choice)

/-- A call on the connection of the thread. -/
def Event.onConnection : Event → Bool
  | .recv _ _ | .call (.send _) | .call .closeSocket => true
  | _ => false

/-- Who holds the mutex after a call of thread `id`. -/
def ownerAfter (owner : Option ℕ) (id : ℕ) : Role → Option ℕ
  | .lock => some id
  | .unlock => none
  | .other => owner

/-- The files of the device after a call of the thread that has `newFd`. -/
def System.afterCall (sys : System) (newFd : ℕ) : Event → System
  | .call .closeSocket => sys.setFile newFd none
  | _ => sys

/-- The connections after a call of the thread that has `newFd`. -/
def socketsAfter (sockets : ℕ → Option Socket) (newFd : ℕ) : Event → ℕ → Option Socket
  | .recv _ data => Function.update sockets newFd
      ((sockets newFd).map fun s ↦ { s with inbox := consume data.length s.inbox })
  | .call .closeSocket => Function.update sockets newFd none
  | .call (.closeFile fd) => Function.update sockets fd none
  | _ => sockets

namespace Process

/-- The start of the accept loop, on the fresh device. -/
def start (junk : SockaddrStorage) : Process :=
  ⟨.start junk, none, .init, fun _ ↦ none, 0⟩

/-- The descriptor can be given out. -/
def unused (p : Process) (fd : ℕ) : Bool :=
  (p.sockets fd).isNone && (p.sys.files fd).isNone

/-- The thread's end of its connection; a descriptor that is closed has nothing to receive. -/
def conn (p : Process) (newFd : ℕ) (code : Code) : Conn :=
  ⟨code, (p.sockets newFd).elim [] Socket.inbox⟩

/-- A step of `main`. -/
def mainTurn (clients : ℕ → List (List Byte)) (p : Process) (o : MainOutcome) :
    Except Stop (Happening × Process) := do
  let (e, server) ←
    p.server.mainStep { o with accept := o.accept.filter fun conn ↦ p.unused conn.1 }
  match e with
  | .accept (some (newFd, _)) =>
    let sockets := Function.update p.sockets newFd (some ⟨p.accepted, clients p.accepted⟩)
    .ok (⟨.main e, some p.accepted⟩, { p with server, sockets, accepted := p.accepted + 1 })
  | _ => .ok (⟨.main e, none⟩, { p with server })

/-- A call of a thread. -/
def callTurn (p : Process) (id newFd : ℕ) (code : Code) (c : Choice) :
    Except Stop (Happening × Process) :=
  -- `open` does not return the descriptor of a connection
  if code.opens ∧ (c.fd.bind p.sockets).isSome then .error .blocked
  else do
    let (a, sys) ← code.device p.sys c
    let o := (p.conn newFd code).outcome c a
    let (e, _) ← code.step o
    let (event, server) ← p.server.threadStep id o
    if e.role = .lock ∧ p.owner.isSome then .error .blocked
    else
      let client := if e.onConnection then (p.sockets newFd).map Socket.client else none
      .ok (⟨event, client⟩,
        { p with
          server
          owner := ownerAfter p.owner id e.role
          sys := sys.afterCall newFd e
          sockets := socketsAfter p.sockets newFd e })

/-- A step of a thread. -/
def threadTurn (p : Process) (id : ℕ) (c : Choice) : Except Stop (Happening × Process) :=
  match p.server.threads[id]? with
  | some (.running _ _ newFd code) => p.callTurn id newFd code c
  | _ => do
    let (event, server) ← p.server.threadStep id (.granting [])
    .ok (⟨event, none⟩, { p with server })

/-- A step. -/
def step (clients : ℕ → List (List Byte)) (p : Process) :
    ProcessTurn → Except Stop (Happening × Process)
  | .main o => p.mainTurn clients o
  | .thread id c => p.threadTurn id c

/-! ### What a step does -/

/-- What a step can be. -/
inductive Step (clients : ℕ → List (List Byte)) (p : Process) :
    ProcessTurn → Happening → Process → Prop
  | accept {o : MainOutcome} {newFd : ℕ} {peer : SockaddrStorage} {server : Server}
      (hunused : p.unused newFd = true)
      (hmain : p.server.MainStep (.accept (some (newFd, peer))) server) :
      Step clients p (.main o) ⟨.main (.accept (some (newFd, peer))), some p.accepted⟩
        { p with
          server
          sockets := Function.update p.sockets newFd (some ⟨p.accepted, clients p.accepted⟩)
          accepted := p.accepted + 1 }
  | main {o : MainOutcome} {m : MainEvent} {server : Server}
      (hne : ∀ conn, m ≠ .accept (some conn)) (hmain : p.server.MainStep m server) :
      Step clients p (.main o) ⟨.main m, none⟩ { p with server }
  | start {id a : ℕ} {c : Choice} {n : SlistData} {server : Server}
      (hw : p.server.threads[id]? = some (.created a)) (hn : p.server.nodes.record a = some n)
      (hthread : p.server.ThreadStep id (.start id) server)
      (hthreads : server.threads =
        p.server.threads.set id (.running a n.socketAddress n.newFd .threadfunc)) :
      Step clients p (.thread id c) ⟨.start id, none⟩ { p with server }
  | call {id a newFd : ℕ} {addr : SockaddrIn} {code code' : Code} {c : Choice} {ans : Answer}
      {sys : System} {e : Event} {peer : Option InAddr} {server : Server}
      (hw : p.server.threads[id]? = some (.running a addr newFd code))
      (hopen : code.opens = true → c.fd.bind p.sockets = none)
      (hdevice : code.device p.sys c = .ok (ans, sys))
      (hstep : code.step ((p.conn newFd code).outcome c ans) = .ok (e, code'))
      (hthread : p.server.ThreadStep id (.thread id e peer) server)
      (hthreads : server.threads = p.server.threads.set id (.running a addr newFd code'))
      (hlock : e.role = .lock → p.owner = none) :
      Step clients p (.thread id c)
        ⟨.thread id e peer, if e.onConnection then (p.sockets newFd).map Socket.client else none⟩
        { p with
          server
          owner := ownerAfter p.owner id e.role
          sys := sys.afterCall newFd e
          sockets := socketsAfter p.sockets newFd e }

section Cases

variable {clients : ℕ → List (List Byte)} {p p' : Process} {turn : ProcessTurn} {y : Happening}

/-- The thread of a call has made it. -/
theorem threadStep_of_running {s s' : Server} {id a newFd : ℕ} {addr : SockaddrIn}
    {code code' : Code} {o : Outcome} {e : Event} {event : ServerEvent}
    (hw : s.threads[id]? = some (.running a addr newFd code))
    (hstep : code.step o = .ok (e, code')) (h : s.threadStep id o = .ok (event, s')) :
    (∃ peer, event = .thread id e peer) ∧
      s'.threads = s.threads.set id (.running a addr newFd code') := by
  simp only [Server.threadStep, hw] at h
  obtain ⟨x, hx, h⟩ := exists_of_bind_eq_ok h
  obtain rfl := Except.ok.inj (hx.symm.trans hstep)
  dsimp only at h
  split at h
  · obtain ⟨rfl, rfl⟩ := Prod.mk.inj (Except.ok.inj h)
    exact ⟨⟨_, rfl⟩, rfl⟩
  · obtain ⟨rfl, rfl⟩ := Prod.mk.inj (Except.ok.inj h)
    exact ⟨⟨_, rfl⟩, rfl⟩
  · obtain ⟨n, -, h⟩ := exists_of_bind_eq_ok h
    obtain ⟨s₁, hok, h⟩ := exists_of_bind_eq_ok h
    obtain ⟨nodes, rfl, -⟩ := Server.setNode_cases hok
    obtain ⟨rfl, rfl⟩ := Prod.mk.inj (Except.ok.inj h)
    exact ⟨⟨_, rfl⟩, rfl⟩
  · obtain ⟨rfl, rfl⟩ := Prod.mk.inj (Except.ok.inj h)
    exact ⟨⟨_, rfl⟩, rfl⟩

theorem mainTurn_cases {o : MainOutcome} (h : p.mainTurn clients o = .ok (y, p')) :
    Step clients p (.main o) y p' ∧ ∃ t, p.server.step t = .ok (y.event, p'.server) := by
  obtain ⟨⟨m, server⟩, hmain, h⟩ := exists_of_bind_eq_ok h
  have hserver : ∃ t, p.server.step t = .ok (.main m, server) :=
    ⟨.main _, by rw [Server.step, hmain]; rfl⟩
  have hcases := Server.mainStep_cases hmain
  dsimp only at h
  split at h
  · rename_i newFd peer
    obtain ⟨rfl, rfl⟩ := Prod.mk.inj (Except.ok.inj h)
    refine ⟨.accept ?_ hcases, hserver⟩
    -- what `accept` answers was asked for
    rw [Server.mainStep] at hmain
    cases hcases with
    | accept _ _ haccept =>
      simp only [haccept] at hmain
      rcases hconn : o.accept.filter fun conn ↦ p.unused conn.1 with - | conn
      · simp [hconn] at hmain
      · simp only [hconn, Except.ok.injEq, Prod.mk.injEq, MainEvent.accept.injEq,
          Option.some.injEq] at hmain
        obtain ⟨heq, -⟩ := hmain
        have hunused := (Option.filter_eq_some_iff.1 hconn).2
        rwa [heq.1] at hunused
  · rename_i hne
    obtain ⟨rfl, rfl⟩ := Prod.mk.inj (Except.ok.inj h)
    exact ⟨.main (fun conn ↦ hne conn.1 conn.2) hcases, hserver⟩

theorem callTurn_cases {id a newFd : ℕ} {addr : SockaddrIn} {code : Code} {c : Choice}
    (hw : p.server.threads[id]? = some (.running a addr newFd code))
    (h : p.callTurn id newFd code c = .ok (y, p')) :
    Step clients p (.thread id c) y p' ∧ ∃ t, p.server.step t = .ok (y.event, p'.server) := by
  rw [callTurn] at h
  split at h
  · cases h
  · rename_i hopen
    obtain ⟨⟨ans, sys⟩, hdevice, h⟩ := exists_of_bind_eq_ok h
    obtain ⟨⟨e, code'⟩, hstep, h⟩ := exists_of_bind_eq_ok h
    obtain ⟨⟨event, server⟩, hthread, h⟩ := exists_of_bind_eq_ok h
    dsimp only at h
    split at h
    · cases h
    · rename_i hlock
      obtain ⟨rfl, rfl⟩ := Prod.mk.inj (Except.ok.inj h)
      obtain ⟨⟨peer, rfl⟩, hthreads⟩ := threadStep_of_running hw hstep hthread
      refine ⟨.call hw (fun hopens ↦ ?_) hdevice hstep (Server.threadStep_cases hthread) hthreads
        fun hrole ↦ ?_, .thread id _, hthread⟩
      · exact Option.not_isSome_iff_eq_none.1 fun hsome ↦ hopen ⟨hopens, hsome⟩
      · exact Option.not_isSome_iff_eq_none.1 fun hsome ↦ hlock ⟨hrole, hsome⟩

theorem threadTurn_cases {id : ℕ} {c : Choice} (h : p.threadTurn id c = .ok (y, p')) :
    Step clients p (.thread id c) y p' ∧ ∃ t, p.server.step t = .ok (y.event, p'.server) := by
  rw [threadTurn] at h
  split at h
  · rename_i hw
    exact callTurn_cases hw h
  · rename_i hw
    obtain ⟨⟨event, server⟩, hthread, h⟩ := exists_of_bind_eq_ok h
    obtain ⟨rfl, rfl⟩ := Prod.mk.inj (Except.ok.inj h)
    refine ⟨?_, .thread id _, hthread⟩
    have hcases := Server.threadStep_cases hthread
    cases hcases with
    | start hcreated hn => exact .start hcreated hn (.start hcreated hn) rfl
    | logs hrunning | setStatus hrunning | call hrunning => exact absurd hrunning (hw _ _ _ _)

/-- **What a step does**, and what it is in the accept loop alone. -/
theorem step_cases (h : p.step clients turn = .ok (y, p')) :
    Step clients p turn y p' ∧ ∃ t, p.server.step t = .ok (y.event, p'.server) := by
  cases turn with
  | main o => exact mainTurn_cases h
  | thread id c => exact threadTurn_cases h

end Cases

end Process

end Aesd
