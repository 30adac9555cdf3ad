import Aesd.Foundation.LinkedList
import Aesd.Server.Thread

/-!
# The accept loop and its threads

`main` of `aesdsocket.c` from `while (!stop)` on, and the threads it has created, as one machine
that makes one call or one access at a time (`Server.step`). It is the turn of `main` or of a
thread; a thread is `threadfunc` from its first line, where it reads its argument. `Main` is where
`main` is, with its variables where it still needs them.

`main` keeps its threads on the list `head`. After it has put a new one there it goes along the
list, joins every thread whose `status` it finds set, takes its node off the list and frees it. The
`SLIST` macros are written out: `insertHead`, `remove` and `search` are `SLIST_INSERT_HEAD`, and the
test and the loop of `SLIST_REMOVE`. Using a node that was freed, and following `NULL`, is
`Stop.fault`. A thread waits in `pthread_join` until the other one has returned.

The peer's address is in one variable of `main`, `their_addr`, that every `accept` writes; a thread
has a pointer to it. The variable has room for the address of a peer of either family, since `main`
asks `getaddrinfo` for any (`AF_UNSPEC`); the pointer is one to an IPv4 address.

Left out: the mutex, which only makes threads wait, so that every order of calls with it is one
without it; the signal handler, which ends the process; `socket_fd`, which nobody uses.
-/

namespace Aesd

open Memory LinkedList Execution

/-! ### The state -/

/-- `struct in_addr`. -/
abbrev InAddr := UInt32

/-- What `accept` writes to a `struct sockaddr_storage`: the address of the peer, without its port,
by the family of the socket that listens. -/
inductive SockaddrStorage
  /-- `AF_INET`. -/
  | inet (sinAddr : InAddr)
  /-- `AF_INET6`. -/
  | inet6 (sin6Flowinfo : UInt32) (sin6Addr : BitVec 128)
deriving DecidableEq

/-- What stands in it where a `struct sockaddr_in` has `sin_addr`. -/
def SockaddrStorage.sinAddr : SockaddrStorage → InAddr
  | inet sinAddr => sinAddr
  | inet6 sin6Flowinfo _ => sin6Flowinfo

/-- Where a `struct sockaddr_in *` points to: there is one variable for it. -/
inductive SockaddrIn
  | theirAddr
deriving DecidableEq

/-- `slist_data_t`. -/
structure SlistData where
  threadID : ℕ
  status : Bool
  newFd : ℕ
  socketAddress : SockaddrIn
  /-- `sle_next`. -/
  entries : Option ℕ
deriving DecidableEq

/-- Where `main` is. -/
inductive Main
  | accept
  | malloc (newFd : ℕ)
  | pthreadCreate (threadStruct : ℕ)
  /-- After a failed `pthread_create`. -/
  | freeStruct (threadStruct : ℕ)
  | insertHead (threadStruct : ℕ)
  /-- `node = SLIST_FIRST(&head)`. -/
  | first
  /-- `while (node)`, and `temp = SLIST_NEXT(node, entries)`. -/
  | loop (node : Option ℕ)
  /-- `if (node->status)`. -/
  | test (node : ℕ) (temp : Option ℕ)
  | join (node : ℕ) (temp : Option ℕ)
  | remove (node : ℕ) (temp : Option ℕ)
  | search (node : ℕ) (temp : Option ℕ) (curelm : ℕ)
  | free (node : ℕ) (temp : Option ℕ)
deriving DecidableEq

/-- A thread. -/
inductive Worker
  /-- It has its argument and has not begun. -/
  | created (threadParam : ℕ)
  | running (threadStruct : ℕ) (addr : SockaddrIn) (newFd : ℕ) (code : Code)
deriving DecidableEq

/-- The node of a thread. -/
def Worker.node : Worker → ℕ
  | created a | running a _ _ _ => a

/-- The thread has returned. -/
def Worker.returned : Worker → Bool
  | created _ => false
  | running _ _ _ code => code = .ret

/-- The server: the nodes, the variables of `main` and `head`, and the threads by `pthread_t`. -/
structure Server where
  nodes : Heap SlistData
  head : Option ℕ
  theirAddr : SockaddrStorage
  main : Main
  threads : List Worker

/-- The start of the accept loop; `their_addr` holds anything. -/
def Server.start (junk : SockaddrStorage) : Server :=
  ⟨.empty, none, junk, .accept, []⟩

/-! ### Calls -/

/-- What `main` does in a step. -/
inductive MainEvent
  /-- `accept`: the descriptor, and the address of the peer. -/
  | accept (conn : Option (ℕ × SockaddrStorage))
  | malloc (node : ℕ)
  | pthreadCreate (node : ℕ) (threadID : Option ℕ)
  | insertHead (node : ℕ)
  | first
  | next (node : ℕ)
  | test (node : ℕ) (status : Bool)
  | join (node : ℕ)
  | search
  | remove (node : ℕ)
  | free (node : ℕ)
  /-- The end of the pass over the list. -/
  | endPass
deriving DecidableEq

/-- What happens in a step. -/
inductive ServerEvent
  | main (e : MainEvent)
  /-- A thread reads its argument. -/
  | start (threadID : ℕ)
  /-- A call of a thread; the calls that log the peer read its address. -/
  | thread (threadID : ℕ) (e : Event) (peer : Option InAddr)
deriving DecidableEq

/-- What the next call of `main` answers, whichever it is. -/
structure MainOutcome where
  accept : Option (ℕ × SockaddrStorage)
  /-- `malloc`: refused, or granted with memory that holds anything. -/
  malloc : Option SlistData
  /-- `pthread_create` returns 0. -/
  created : Bool

/-- Whose turn it is. -/
inductive Turn
  | main (o : MainOutcome)
  | thread (threadID : ℕ) (o : Outcome)

namespace Server

/-- Read a node. -/
def node (s : Server) (a : ℕ) : Except Stop SlistData :=
  match s.nodes.record a with
  | some n => .ok n
  | none => .error .fault

/-- Change a node. -/
def setNode (s : Server) (a : ℕ) (n : SlistData) : Except Stop Server :=
  match s.nodes.setRecord a n with
  | some nodes => .ok { s with nodes }
  | none => .error .fault

/-- `free`. -/
def freeNode (s : Server) (a : ℕ) : Except Stop Server :=
  match s.nodes.free a with
  | some nodes => .ok { s with nodes }
  | none => .error .fault

/-- `sin_addr` of what a `struct sockaddr_in *` points to. -/
def sinAddr (s : Server) : SockaddrIn → InAddr
  | .theirAddr => s.theirAddr.sinAddr

/-- The thread has returned. -/
def returned (s : Server) (threadID : ℕ) : Bool :=
  match s.threads[threadID]? with
  | some w => w.returned
  | none => false

/-- A step of `main`. -/
def mainStep (s : Server) (o : MainOutcome) : Except Stop (MainEvent × Server) :=
  match s.main with
  | .accept =>
    match o.accept with
    | none => .ok (.accept none, s)
    | some (newFd, peer) =>
      .ok (.accept (some (newFd, peer)), { s with theirAddr := peer, main := .malloc newFd })
  | .malloc newFd =>
    match o.malloc with
    | none => .error .fault
    | some junk =>
      let n := { junk with newFd, socketAddress := .theirAddr, status := false }
      .ok (.malloc s.nodes.next,
        { s with nodes := s.nodes.alloc [n], main := .pthreadCreate s.nodes.next })
  | .pthreadCreate a =>
    if o.created then do
      let n ← s.node a
      let s ← s.setNode a { n with threadID := s.threads.length }
      .ok (.pthreadCreate a (some s.threads.length),
        { s with threads := s.threads ++ [.created a], main := .insertHead a })
    else .ok (.pthreadCreate a none, { s with main := .freeStruct a })
  | .freeStruct a => do
    let s ← s.freeNode a
    .ok (.free a, { s with main := .accept })
  | .insertHead a => do
    let n ← s.node a
    let s ← s.setNode a { n with entries := s.head }
    .ok (.insertHead a, { s with head := some a, main := .first })
  | .first => .ok (.first, { s with main := .loop s.head })
  | .loop none => .ok (.endPass, { s with main := .accept })
  | .loop (some a) => do
    let n ← s.node a
    .ok (.next a, { s with main := .test a n.entries })
  | .test a temp => do
    let n ← s.node a
    .ok (.test a n.status, { s with main := if n.status then .join a temp else .loop temp })
  | .join a temp => do
    let n ← s.node a
    if s.returned n.threadID then .ok (.join a, { s with main := .remove a temp })
    else .error .blocked
  | .remove a temp =>
    match s.head with
    | none => .error .fault
    | some curelm =>
      if curelm = a then do
        let n ← s.node a
        .ok (.remove a, { s with head := n.entries, main := .free a temp })
      else .ok (.search, { s with main := .search a temp curelm })
  | .search a temp curelm => do
    let c ← s.node curelm
    if c.entries = some a then do
      let n ← s.node a
      let s ← s.setNode curelm { c with entries := n.entries }
      .ok (.remove a, { s with main := .free a temp })
    else
      match c.entries with
      | none => .error .fault
      | some curelm => .ok (.search, { s with main := .search a temp curelm })
  | .free a temp => do
    let s ← s.freeNode a
    .ok (.free a, { s with main := .loop temp })

/-- A step of a thread. -/
def threadStep (s : Server) (threadID : ℕ) (o : Outcome) : Except Stop (ServerEvent × Server) :=
  match s.threads[threadID]? with
  | none => .error .blocked
  | some (.created a) => do
    let n ← s.node a
    let w := Worker.running a n.socketAddress n.newFd .threadfunc
    .ok (.start threadID, { s with threads := s.threads.set threadID w })
  | some (.running a addr newFd code) => do
    let (e, code) ← code.step o
    let s := { s with threads := s.threads.set threadID (.running a addr newFd code) }
    match e with
    | .call .logAccepted | .call .logClosed =>
      .ok (.thread threadID e (some (s.sinAddr addr)), s)
    | .call .setStatus => do
      let n ← s.node a
      let s ← s.setNode a { n with status := true }
      .ok (.thread threadID e none, s)
    | _ => .ok (.thread threadID e none, s)

/-- A step. -/
def step (s : Server) : Turn → Except Stop (ServerEvent × Server)
  | .main o => do
    let (e, s) ← s.mainStep o
    .ok (.main e, s)
  | .thread threadID o => s.threadStep threadID o

/-! ### What a step does -/

/-- What a step of `main` can be, whatever the outcome of its call. -/
inductive MainStep (s : Server) : MainEvent → Server → Prop
  | acceptFails (h : s.main = .accept) : MainStep s (.accept none) s
  | accept (newFd : ℕ) (peer : SockaddrStorage) (h : s.main = .accept) :
      MainStep s (.accept (some (newFd, peer))) { s with theirAddr := peer, main := .malloc newFd }
  | malloc (n : SlistData) (h : s.main = .malloc n.newFd) (haddr : n.socketAddress = .theirAddr)
      (hstatus : n.status = false) :
      MainStep s (.malloc s.nodes.next)
        { s with nodes := s.nodes.alloc [n], main := .pthreadCreate s.nodes.next }
  | created {a : ℕ} {n : SlistData} {nodes : Heap SlistData} (h : s.main = .pthreadCreate a)
      (hn : s.nodes.record a = some n)
      (hset : s.nodes.Updates nodes a (some { n with threadID := s.threads.length })) :
      MainStep s (.pthreadCreate a (some s.threads.length))
        { s with nodes, threads := s.threads ++ [.created a], main := .insertHead a }
  | notCreated {a : ℕ} (h : s.main = .pthreadCreate a) :
      MainStep s (.pthreadCreate a none) { s with main := .freeStruct a }
  | freeStruct {a : ℕ} {nodes : Heap SlistData} (h : s.main = .freeStruct a)
      (hfree : s.nodes.Updates nodes a none) :
      MainStep s (.free a) { s with nodes, main := .accept }
  | insertHead {a : ℕ} {n : SlistData} {nodes : Heap SlistData} (h : s.main = .insertHead a)
      (hn : s.nodes.record a = some n)
      (hset : s.nodes.Updates nodes a (some { n with entries := s.head })) :
      MainStep s (.insertHead a) { s with nodes, head := some a, main := .first }
  | first (h : s.main = .first) : MainStep s .first { s with main := .loop s.head }
  | endPass (h : s.main = .loop none) : MainStep s .endPass { s with main := .accept }
  | next {a : ℕ} {n : SlistData} (h : s.main = .loop (some a)) (hn : s.nodes.record a = some n) :
      MainStep s (.next a) { s with main := .test a n.entries }
  | test {a : ℕ} {temp : Option ℕ} {n : SlistData} (h : s.main = .test a temp)
      (hn : s.nodes.record a = some n) :
      MainStep s (.test a n.status)
        { s with main := if n.status then .join a temp else .loop temp }
  | join {a : ℕ} {temp : Option ℕ} {n : SlistData} (h : s.main = .join a temp)
      (hn : s.nodes.record a = some n) (hreturned : s.returned n.threadID = true) :
      MainStep s (.join a) { s with main := .remove a temp }
  | removeHead {a : ℕ} {temp : Option ℕ} {n : SlistData} (h : s.main = .remove a temp)
      (hhead : s.head = some a) (hn : s.nodes.record a = some n) :
      MainStep s (.remove a) { s with head := n.entries, main := .free a temp }
  | searchFirst {a c : ℕ} {temp : Option ℕ} (h : s.main = .remove a temp) (hhead : s.head = some c)
      (hne : c ≠ a) : MainStep s .search { s with main := .search a temp c }
  | removeAfter {a c : ℕ} {temp : Option ℕ} {n m : SlistData} {nodes : Heap SlistData}
      (h : s.main = .search a temp c) (hm : s.nodes.record c = some m) (hlink : m.entries = some a)
      (hn : s.nodes.record a = some n)
      (hset : s.nodes.Updates nodes c (some { m with entries := n.entries })) :
      MainStep s (.remove a) { s with nodes, main := .free a temp }
  | search {a c c' : ℕ} {temp : Option ℕ} {m : SlistData} (h : s.main = .search a temp c)
      (hm : s.nodes.record c = some m) (hlink : m.entries = some c') (hne : c' ≠ a) :
      MainStep s .search { s with main := .search a temp c' }
  | free {a : ℕ} {temp : Option ℕ} {nodes : Heap SlistData} (h : s.main = .free a temp)
      (hfree : s.nodes.Updates nodes a none) :
      MainStep s (.free a) { s with nodes, main := .loop temp }

/-- What a step of a thread can be. -/
inductive ThreadStep (s : Server) (id : ℕ) : ServerEvent → Server → Prop
  | start {a : ℕ} {n : SlistData} (hw : s.threads[id]? = some (.created a))
      (hn : s.nodes.record a = some n) :
      ThreadStep s id (.start id)
        { s with threads := s.threads.set id (.running a n.socketAddress n.newFd .threadfunc) }
  | logs {a newFd : ℕ} {addr : SockaddrIn} {code code' : Code} {o : Outcome} {e : Event}
      (hw : s.threads[id]? = some (.running a addr newFd code))
      (hstep : code.step o = .ok (e, code'))
      (he : e = .call .logAccepted ∨ e = .call .logClosed) :
      ThreadStep s id (.thread id e (some (s.sinAddr addr)))
        { s with threads := s.threads.set id (.running a addr newFd code') }
  | setStatus {a newFd : ℕ} {addr : SockaddrIn} {code code' : Code} {o : Outcome} {n : SlistData}
      {nodes : Heap SlistData} (hw : s.threads[id]? = some (.running a addr newFd code))
      (hstep : code.step o = .ok (.call .setStatus, code')) (hn : s.nodes.record a = some n)
      (hset : s.nodes.Updates nodes a (some { n with status := true })) :
      ThreadStep s id (.thread id (.call .setStatus) none)
        { s with nodes, threads := s.threads.set id (.running a addr newFd code') }
  | call {a newFd : ℕ} {addr : SockaddrIn} {code code' : Code} {o : Outcome} {e : Event}
      (hw : s.threads[id]? = some (.running a addr newFd code))
      (hstep : code.step o = .ok (e, code'))
      (haccepted : e ≠ .call .logAccepted) (hclosed : e ≠ .call .logClosed)
      (hstatus : e ≠ .call .setStatus) :
      ThreadStep s id (.thread id e none)
        { s with threads := s.threads.set id (.running a addr newFd code') }

section Cases

variable {s s' : Server} {a : ℕ} {n : SlistData}

theorem node_eq_ok_iff : s.node a = .ok n ↔ s.nodes.record a = some n := by
  rw [node]
  rcases s.nodes.record a with - | n <;> simp

theorem setNode_cases (h : s.setNode a n = .ok s') :
    ∃ nodes, s' = { s with nodes } ∧ s.nodes.Updates nodes a (some n) := by
  rw [setNode] at h
  split at h
  · rename_i nodes hset
    exact ⟨nodes, (Except.ok.inj h).symm, Heap.updates_of_setRecord hset⟩
  · cases h

theorem freeNode_cases (h : s.freeNode a = .ok s') :
    ∃ nodes, s' = { s with nodes } ∧ s.nodes.Updates nodes a none := by
  rw [freeNode] at h
  split at h
  · rename_i nodes hfree
    exact ⟨nodes, (Except.ok.inj h).symm, Heap.updates_of_free hfree⟩
  · cases h

/-- **What a step of `main` does.** -/
theorem mainStep_cases {o : MainOutcome} {e : MainEvent} (h : s.mainStep o = .ok (e, s')) :
    MainStep s e s' := by
  rw [mainStep] at h
  split at h
  case h_1 hmain =>
    split at h
    · obtain ⟨rfl, rfl⟩ := Prod.mk.inj (Except.ok.inj h)
      exact .acceptFails hmain
    · obtain ⟨rfl, rfl⟩ := Prod.mk.inj (Except.ok.inj h)
      exact .accept _ _ hmain
  case h_2 hmain =>
    split at h
    · cases h
    · obtain ⟨rfl, rfl⟩ := Prod.mk.inj (Except.ok.inj h)
      exact .malloc _ hmain rfl rfl
  case h_3 hmain =>
    split at h
    · obtain ⟨n, hn, h⟩ := exists_of_bind_eq_ok h
      obtain ⟨s₁, hok, h⟩ := exists_of_bind_eq_ok h
      obtain ⟨nodes, rfl, hset⟩ := setNode_cases hok
      obtain ⟨rfl, rfl⟩ := Prod.mk.inj (Except.ok.inj h)
      exact .created hmain (node_eq_ok_iff.1 hn) hset
    · obtain ⟨rfl, rfl⟩ := Prod.mk.inj (Except.ok.inj h)
      exact .notCreated hmain
  case h_4 hmain =>
    obtain ⟨s₁, hok, h⟩ := exists_of_bind_eq_ok h
    obtain ⟨nodes, rfl, hfree⟩ := freeNode_cases hok
    obtain ⟨rfl, rfl⟩ := Prod.mk.inj (Except.ok.inj h)
    exact .freeStruct hmain hfree
  case h_5 hmain =>
    obtain ⟨n, hn, h⟩ := exists_of_bind_eq_ok h
    obtain ⟨s₁, hok, h⟩ := exists_of_bind_eq_ok h
    obtain ⟨nodes, rfl, hset⟩ := setNode_cases hok
    obtain ⟨rfl, rfl⟩ := Prod.mk.inj (Except.ok.inj h)
    exact .insertHead hmain (node_eq_ok_iff.1 hn) hset
  case h_6 hmain =>
    obtain ⟨rfl, rfl⟩ := Prod.mk.inj (Except.ok.inj h)
    exact .first hmain
  case h_7 hmain =>
    obtain ⟨rfl, rfl⟩ := Prod.mk.inj (Except.ok.inj h)
    exact .endPass hmain
  case h_8 hmain =>
    obtain ⟨n, hn, h⟩ := exists_of_bind_eq_ok h
    obtain ⟨rfl, rfl⟩ := Prod.mk.inj (Except.ok.inj h)
    exact .next hmain (node_eq_ok_iff.1 hn)
  case h_9 hmain =>
    obtain ⟨n, hn, h⟩ := exists_of_bind_eq_ok h
    obtain ⟨rfl, rfl⟩ := Prod.mk.inj (Except.ok.inj h)
    exact .test hmain (node_eq_ok_iff.1 hn)
  case h_10 hmain =>
    obtain ⟨n, hn, h⟩ := exists_of_bind_eq_ok h
    split at h
    · rename_i hreturned
      obtain ⟨rfl, rfl⟩ := Prod.mk.inj (Except.ok.inj h)
      exact .join hmain (node_eq_ok_iff.1 hn) hreturned
    · cases h
  case h_11 hmain =>
    split at h
    · cases h
    · rename_i c hhead
      split at h
      · rename_i hself
        subst hself
        obtain ⟨n, hn, h⟩ := exists_of_bind_eq_ok h
        obtain ⟨rfl, rfl⟩ := Prod.mk.inj (Except.ok.inj h)
        exact .removeHead hmain hhead (node_eq_ok_iff.1 hn)
      · rename_i hne
        obtain ⟨rfl, rfl⟩ := Prod.mk.inj (Except.ok.inj h)
        exact .searchFirst hmain hhead hne
  case h_12 hmain =>
    obtain ⟨m, hm, h⟩ := exists_of_bind_eq_ok h
    split at h
    · rename_i hlink
      obtain ⟨n, hn, h⟩ := exists_of_bind_eq_ok h
      obtain ⟨s₁, hok, h⟩ := exists_of_bind_eq_ok h
      obtain ⟨nodes, rfl, hset⟩ := setNode_cases hok
      obtain ⟨rfl, rfl⟩ := Prod.mk.inj (Except.ok.inj h)
      exact .removeAfter hmain (node_eq_ok_iff.1 hm) hlink (node_eq_ok_iff.1 hn) hset
    · rename_i hne
      split at h
      · cases h
      · rename_i c' hlink
        obtain ⟨rfl, rfl⟩ := Prod.mk.inj (Except.ok.inj h)
        refine .search hmain (node_eq_ok_iff.1 hm) hlink ?_
        rintro rfl
        exact hne hlink
  case h_13 hmain =>
    obtain ⟨s₁, hok, h⟩ := exists_of_bind_eq_ok h
    obtain ⟨nodes, rfl, hfree⟩ := freeNode_cases hok
    obtain ⟨rfl, rfl⟩ := Prod.mk.inj (Except.ok.inj h)
    exact .free hmain hfree

/-- **What a step of a thread does.** -/
theorem threadStep_cases {id : ℕ} {o : Outcome} {e : ServerEvent}
    (h : s.threadStep id o = .ok (e, s')) : ThreadStep s id e s' := by
  rw [threadStep] at h
  split at h
  · cases h
  · rename_i a hw
    obtain ⟨n, hn, h⟩ := exists_of_bind_eq_ok h
    obtain ⟨rfl, rfl⟩ := Prod.mk.inj (Except.ok.inj h)
    exact .start hw (node_eq_ok_iff.1 hn)
  · rename_i a addr newFd code hw
    obtain ⟨⟨e₁, code'⟩, hstep, h⟩ := exists_of_bind_eq_ok h
    dsimp only at h
    split at h
    · obtain ⟨rfl, rfl⟩ := Prod.mk.inj (Except.ok.inj h)
      exact .logs hw hstep (Or.inl rfl)
    · obtain ⟨rfl, rfl⟩ := Prod.mk.inj (Except.ok.inj h)
      exact .logs hw hstep (Or.inr rfl)
    · obtain ⟨n, hn, h⟩ := exists_of_bind_eq_ok h
      obtain ⟨s₁, hok, h⟩ := exists_of_bind_eq_ok h
      obtain ⟨nodes, rfl, hset⟩ := setNode_cases hok
      obtain ⟨rfl, rfl⟩ := Prod.mk.inj (Except.ok.inj h)
      exact .setStatus hw hstep (node_eq_ok_iff.1 hn) hset
    · rename_i haccepted hclosed hstatus
      obtain ⟨rfl, rfl⟩ := Prod.mk.inj (Except.ok.inj h)
      exact .call hw hstep haccepted hclosed hstatus

/-- **What a step does**: it is one of `main`, or of a thread. -/
theorem step_cases {turn : Turn} {e : ServerEvent} (h : s.step turn = .ok (e, s')) :
    (∃ m, e = .main m ∧ MainStep s m s') ∨ ∃ id, ThreadStep s id e s' := by
  cases turn with
  | main o =>
    obtain ⟨⟨m, s₁⟩, hstep, h⟩ := exists_of_bind_eq_ok h
    obtain ⟨rfl, rfl⟩ := Prod.mk.inj (Except.ok.inj h)
    exact Or.inl ⟨m, rfl, mainStep_cases hstep⟩
  | thread id o => exact Or.inr ⟨id, threadStep_cases h⟩

end Cases

end Server

end Aesd
