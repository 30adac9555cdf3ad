import Aesd.Service.Clients

/-!
# The parts of the process

A run of the process is a run of each of its parts. Without the mutex, the device and the clients it
is one of the accept loop and its threads (`Whole.server`). Without the accept loop it is one of
`serve` (`Whole.world`), where thread `id` has the client that was accepted for it.

So what is known of the parts is known of the process. The thread of a client receives what this
client sent, and sends to this client only (`connections_kept_apart`).
-/

namespace Aesd

open Execution MutualExclusion

/-- The call of a thread in a step. -/
def ServerEvent.threadCall : ServerEvent → Option (ℕ × Event)
  | .thread id e _ => some (id, e)
  | _ => none

/-- The calls of the threads. -/
def threadCalls (trace : List ServerEvent) : List (ℕ × Event) :=
  trace.filterMap ServerEvent.threadCall

/-- The steps alone. -/
def happened (trace : List Happening) : List ServerEvent :=
  trace.map Happening.event

/-- The threads that run are in the world where they are in the process, and so are the device and
the mutex; the other threads have not begun in it. -/
structure Projects (inboxes : ℕ → List (List Byte)) (p : Process) (w : World) : Prop where
  env : w.env = p.sys
  owner : w.owner = p.owner
  running : ∀ id a addr newFd code, p.server.threads[id]? = some (.running a addr newFd code) →
    (w.proc id).code = code ∧ (code.usesConnection = true →
      ∀ s, p.sockets newFd = some s → (w.proc id).inbox = s.inbox)
  waiting : ∀ id,
    (∀ a addr newFd code, p.server.threads[id]? ≠ some (.running a addr newFd code)) →
      w.proc id = ⟨.threadfunc, inboxes id⟩

/-- The clients of the threads that there are. -/
def Assigns (clients inboxes : ℕ → List (List Byte)) (trace : List ServerEvent) : Prop :=
  ∀ id k, clientOf id trace = some k → inboxes id = clients k

section Projects

variable {clients inboxes : ℕ → List (List Byte)} {trace : List ServerEvent} {p : Process}
  {w : World} {server : Server} {m : MainEvent} {id : ℕ}

/-- A step adds the call of a thread, if it is one. -/
theorem threadCalls_concat (trace : List ServerEvent) (e : ServerEvent) :
    threadCalls (trace ++ [e]) = threadCalls trace ++ e.threadCall.toList := by
  rw [threadCalls, List.filterMap_append]
  rcases hcall : e.threadCall with - | y <;> simp [hcall, threadCalls]

/-- The calls of one thread are the same in both traces. -/
theorem own_threadCalls (id : ℕ) (trace : List ServerEvent) :
    own id (threadCalls trace) = callsOf id trace := by
  rw [own, threadCalls, List.filterMap_filterMap, callsOf]
  refine congrArg (List.filterMap · trace) (funext fun e ↦ ?_)
  cases e <;> rfl

/-- Each step is one event. -/
@[simp]
theorem happened_concat (trace : List Happening) (y : Happening) :
    happened (trace ++ [y]) = happened trace ++ [y.event] :=
  List.map_append

/-- A client that a thread has had before it has still. -/
theorem Assigns.of_concat {e : ServerEvent} (h : Assigns clients inboxes (trace ++ [e])) :
    Assigns clients inboxes trace :=
  fun id k hk ↦ h id k (clientOf_concat hk e)

/-- One call in the world. -/
theorem serve_of_act {conn : Conn} {c : Choice} {e : Event} {sys : System}
    (hact : act w.env (w.proc id) c = .ok (e, sys, conn))
    (hlock : e.role = .lock → w.owner = none) : serve w (id, c) =
      .ok ((id, e), ⟨sys, ownerAfter w.owner id e.role, Function.update w.proc id conn⟩) := by
  rw [serve, MutualExclusion.step]
  simp only [hact]
  rcases hrole : e.role with - | - | -
  · rw [hlock hrole]
    rfl
  · rfl
  · rfl

/-- Where a thread runs after a step of `main` it ran before. -/
theorem Server.MainStep.running_iff {s s' : Server} (h : s.MainStep m s') {a newFd : ℕ}
    {addr : SockaddrIn} {code : Code} :
    s'.threads[id]? = some (.running a addr newFd code) ↔
      s.threads[id]? = some (.running a addr newFd code) := by
  cases h with
  | created =>
    rcases Nat.lt_trichotomy id s.threads.length with hlt | rfl | hgt
    · rw [List.getElem?_append_left hlt]
    · rw [List.getElem?_concat_length, List.getElem?_eq_none (Nat.le_refl _)]
      simp
    · rw [List.getElem?_eq_none (by rw [List.length_append, List.length_singleton]; omega),
        List.getElem?_eq_none (by omega)]
  | _ => rfl

namespace Projects

/-- A step of `main` is none of the world's, unless it changes a descriptor. -/
theorem main (h : Projects inboxes p w) (hmain : p.server.MainStep m server) :
    Projects inboxes { p with server } w := by
  refine ⟨h.env, h.owner, fun id a addr newFd code hw ↦ ?_, fun id hid ↦ ?_⟩
  · exact h.running id a addr newFd code (hmain.running_iff.1 hw)
  · exact h.waiting id fun a addr newFd code hw ↦ hid a addr newFd code (hmain.running_iff.2 hw)

/-- Nor is a new connection: no thread has it yet, and it has the descriptor of no other. -/
theorem accept (h : Projects inboxes p w) (hkept : Kept clients trace p) {newFd : ℕ}
    (hunused : p.unused newFd = true) (s : Socket) (accepted : ℕ) :
    Projects inboxes
      { p with sockets := Function.update p.sockets newFd (some s), accepted } w := by
  refine ⟨h.env, h.owner, fun id a addr fd code hw ↦ ?_, h.waiting⟩
  obtain ⟨hcode, hinbox⟩ := h.running id a addr fd code hw
  refine ⟨hcode, fun huses s' hs' ↦ hinbox huses s' ?_⟩
  obtain ⟨k, hk⟩ := hkept.exists_client hw
  obtain ⟨inbox, hs⟩ := (hkept.connected id _ k hw hk).2 huses
  have hne : fd ≠ newFd := by
    rintro rfl
    rw [Process.unused, hs] at hunused
    cases hunused
  exact (Function.update_of_ne hne ..).symm.trans hs'

/-- A thread that begins is at the beginning of `threadfunc` in the world as well, with all that its
client sends before it. -/
theorem start (h : Projects inboxes p w) (hkept : Kept clients trace p)
    (hassigns : Assigns clients inboxes trace) {a : ℕ} {n : SlistData}
    (hw : p.server.threads[id]? = some (.created a)) (hn : p.server.nodes.record a = some n)
    (hthreads : server.threads =
      p.server.threads.set id (.running a n.socketAddress n.newFd .threadfunc)) :
    Projects inboxes { p with server } w := by
  obtain ⟨k, hk⟩ := hkept.exists_client hw
  have hlt := (List.getElem?_eq_some_iff.1 hw).1
  have hself : w.proc id = ⟨.threadfunc, inboxes id⟩ :=
    h.waiting id fun a addr newFd code hrunning ↦ by simp [hw] at hrunning
  have hothers : ∀ j ≠ id, server.threads[j]? = p.server.threads[j]? := by
    intro j hj
    rw [hthreads, List.getElem?_set_ne hj.symm]
  refine ⟨h.env, h.owner, fun j a' addr newFd code hj ↦ ?_, fun j hj ↦ ?_⟩
  · rcases eq_or_ne j id with rfl | hne
    · rw [hthreads, List.getElem?_set_self hlt] at hj
      obtain ⟨-, -, rfl, rfl⟩ := Worker.running.inj (Option.some.inj hj)
      rw [hself]
      refine ⟨rfl, fun _ s hs ↦ ?_⟩
      obtain rfl := Option.some.inj ((hkept.connected j _ k hw hk n hn).symm.trans hs)
      exact hassigns j k hk
    · rw [hothers j hne] at hj
      exact h.running j a' addr newFd code hj
  · rcases eq_or_ne j id with rfl | hne
    · exact absurd (hthreads ▸ List.getElem?_set_self hlt) (hj a n.socketAddress n.newFd _)
    · exact h.waiting j fun a' addr newFd code hrunning ↦
        hj a' addr newFd code ((hothers j hne).trans hrunning)

section Call

variable {a newFd : ℕ} {addr : SockaddrIn} {code code' : Code} {c : Choice} {ans : Answer}
  {sys : System} {e : Event} {peer : Option InAddr}

/-- What the thread calls in the process it calls in the world. -/
theorem act_eq (h : Projects inboxes p w) (hkept : Kept clients trace p)
    (hw : p.server.threads[id]? = some (.running a addr newFd code))
    (hdevice : code.device p.sys c = .ok (ans, sys))
    (hstep : code.step ((p.conn newFd code).outcome c ans) = .ok (e, code')) :
    act w.env (w.proc id) c = .ok (e, sys.afterCall newFd e, (w.proc id).after e code') := by
  obtain ⟨hcode, hinbox⟩ := h.running id a addr newFd code hw
  obtain ⟨k, hk⟩ := hkept.exists_client hw
  have hconn := (hkept.connected id _ k hw hk).2
  have hsame : code.step ((w.proc id).outcome c ans) = .ok (e, code') := by
    rw [← hstep]
    rcases huses : code.usesConnection with - | -
    · exact Code.step_eq_of_not_usesConnection huses _ _
    · obtain ⟨inbox, hs⟩ := hconn huses
      rw [Conn.outcome, Conn.outcome, hinbox huses _ hs, Process.conn, hs]
      rfl
  have hfiles : sys.afterCall newFd e = sys := by
    rcases eq_or_ne e (.call .closeSocket) with rfl | hne
    · -- the descriptor of a connection is that of no file
      obtain ⟨next, rfl⟩ : ∃ next, code = .call .closeSocket next := by
        cases Code.step_cases hstep
        exact ⟨_, rfl⟩
      obtain ⟨inbox, hs⟩ := hconn rfl
      obtain ⟨-, rfl⟩ := Prod.mk.inj (Except.ok.inj hdevice)
      have hnone := hkept.apart newFd (by simp [hs])
      rw [System.afterCall, System.setFile, ← hnone, Function.update_eq_self]
    · exact System.afterCall_of_ne hne
  rw [hfiles]
  refine actIn_of_ok (w.proc id) (a := ans) ?_ (hcode ▸ hsame)
  rw [h.env, hcode]
  exact hdevice

/-- **A call of a thread** is the same call in the world, of the thread with the inbox of its
client. -/
theorem call (h : Projects inboxes p w) (hkept : Kept clients trace p)
    (hw : p.server.threads[id]? = some (.running a addr newFd code))
    (hdevice : code.device p.sys c = .ok (ans, sys))
    (hstep : code.step ((p.conn newFd code).outcome c ans) = .ok (e, code'))
    (hthreads : server.threads = p.server.threads.set id (.running a addr newFd code'))
    (hlock : e.role = .lock → p.owner = none)
    (hclosed : ∀ g, e.closed = some g → p.sockets g = none) :
    ∃ w', serve w (id, c) = .ok ((id, e), w') ∧ Projects inboxes
      { p with
        server
        owner := ownerAfter p.owner id e.role
        sys := sys.afterCall newFd e
        sockets := socketsAfter p.sockets newFd e } w' := by
  have hact := h.act_eq hkept hw hdevice hstep
  refine ⟨_, serve_of_act hact (h.owner ▸ hlock), rfl, by rw [h.owner], ?_, ?_⟩
  · intro j a' addr' fd code₁ hj
    have hlt := (List.getElem?_eq_some_iff.1 hw).1
    obtain ⟨k, hk⟩ := hkept.exists_client hw
    obtain ⟨hlast, hconn⟩ := hkept.connected id _ k hw hk
    have hcode := Code.step_cases hstep
    dsimp only at hj ⊢
    rw [hthreads] at hj
    rcases eq_or_ne j id with rfl | hne
    · rw [List.getElem?_set_self hlt] at hj
      obtain ⟨-, -, rfl, rfl⟩ := Worker.running.inj (Option.some.inj hj)
      rw [Function.update_self]
      refine ⟨rfl, fun huses s hs ↦ ?_⟩
      obtain ⟨inbox, hs₀⟩ := hconn (hcode.usesConnection huses)
      have hinbox := (h.running j _ _ _ _ hw).2 (hcode.usesConnection huses) _ hs₀
      rw [socketsAfter_self hclosed hs₀ code', Option.ite_none_left_eq_some] at hs
      obtain ⟨-, hs⟩ := hs
      obtain rfl := Option.some.inj hs
      simp only [Conn.after, hinbox]
    · rw [List.getElem?_set_ne hne.symm] at hj
      obtain ⟨hcode₁, hinbox₁⟩ := h.running j a' addr' fd code₁ hj
      rw [Function.update_of_ne hne]
      refine ⟨hcode₁, fun huses s hs ↦ hinbox₁ huses s ?_⟩
      obtain ⟨k₁, hk₁⟩ := hkept.exists_client hj
      obtain ⟨inbox₁, hs₁⟩ := (hkept.connected j _ k₁ hj hk₁).2 huses
      rwa [socketsAfter_of_ne hclosed fun hon ↦ ?_] at hs
      rintro rfl
      obtain ⟨inbox, hs₀⟩ := hconn (hcode.usesConnection_of_onConnection hon)
      obtain ⟨rfl, -⟩ := Socket.mk.inj (Option.some.inj (hs₀.symm.trans hs₁))
      exact hne (hkept.injective j id k hk₁ hk)
  · intro j hj
    have hlt := (List.getElem?_eq_some_iff.1 hw).1
    dsimp only at hj ⊢
    rw [hthreads] at hj
    have hne : j ≠ id := by
      rintro rfl
      exact hj a addr newFd code' (List.getElem?_set_self hlt)
    rw [Function.update_of_ne hne]
    refine h.waiting j fun a' addr' fd code₁ hrunning ↦ hj a' addr' fd code₁ ?_
    rwa [List.getElem?_set_ne hne.symm]

end Call

end Projects

end Projects

/-! ### Runs -/

/-- What a run of the process is in its parts, and whom its calls on connections reach. The calls
in the world meet the condition `D`. -/
structure Whole (clients : ℕ → List (List Byte)) (D : World → ℕ × Choice → Prop)
    (junk : SockaddrStorage) (trace : List Happening) (p : Process) : Prop where
  server : ∃ turns, run Server.step (.start junk) turns = .ok (happened trace, p.server)
  world : ∀ inboxes, Assigns clients inboxes (happened trace) → ∃ xs w,
    run serve (Aesd.start inboxes) xs = .ok (threadCalls (happened trace), w) ∧
      Projects inboxes p w ∧ Along serve D (Aesd.start inboxes) xs
  kept : Kept clients (happened trace) p
  reaches : ∀ y ∈ trace, ∀ id e peer, y.event = .thread id e peer → e.onConnection = true →
    ∃ k, clientOf id (happened trace) = some k ∧ y.client = some k

section Runs

variable {clients inboxes : ℕ → List (List Byte)} {D : World → ℕ × Choice → Prop}
  {junk : SockaddrStorage} {trace : List Happening} {p p' : Process} {turn : ProcessTurn}
  {y : Happening}

/-- There are inboxes for the clients that the threads have; the others do not matter. -/
theorem exists_assigns (clients : ℕ → List (List Byte)) (trace : List ServerEvent) :
    ∃ inboxes, Assigns clients inboxes trace :=
  ⟨fun id ↦ (clientOf id trace).elim [] clients, fun id k hk ↦ by simp [hk]⟩

/-- At the start there is no connection. -/
theorem Kept.init (clients : ℕ → List (List Byte)) (junk : SockaddrStorage) :
    Kept clients [] (.start junk) where
  accepted := rfl
  born _ := iff_of_true rfl (Nat.zero_le _)
  lt _ _ hk := by cases hk
  injective _ _ _ hk := by cases hk
  inHand _ hin := hin.elim
  client_lt _ _ hs := by cases hs
  one _ _ _ _ hs := by cases hs
  apart _ hs := absurd rfl hs
  connected _ _ _ hw := by cases hw
  unclosed _ hk := absurd hk (Nat.not_lt_zero _)

namespace Whole

/-- At the start nothing has happened in the process or in the world. -/
theorem init (clients : ℕ → List (List Byte)) (D : World → ℕ × Choice → Prop)
    (junk : SockaddrStorage) : Whole clients D junk [] (.start junk) where
  server := ⟨[], rfl⟩
  world inboxes _ := by
    refine ⟨[], Aesd.start inboxes, rfl, ⟨rfl, rfl, fun _ _ _ _ _ hw ↦ ?_, fun _ _ ↦ rfl⟩, trivial⟩
    cases hw
  kept := Kept.init clients junk
  reaches _ hy := absurd hy List.not_mem_nil

/-- The accept loop of the process is an orderly server. -/
theorem orderly (h : Whole clients D junk trace p) : Orderly (happened trace) p.server := by
  obtain ⟨turns, hrun⟩ := h.server
  exact orderly_of_run hrun

/-- A thread closes a file, never a connection. -/
theorem closed_not_connection (h : Whole clients D junk trace p) {id a newFd : ℕ}
    {addr : SockaddrIn} {code code' : Code} {e : Event}
    (hw : p.server.threads[id]? = some (.running a addr newFd code))
    (hstep : Code.Step code e code') {g : ℕ} (hclosed : e.closed = some g) :
    p.sockets g = none := by
  obtain ⟨inboxes, hassigns⟩ := exists_assigns clients (happened trace)
  obtain ⟨xs, w, hrun, hproj, -⟩ := h.world inboxes hassigns
  have hmem : g ∈ (w.proc id).code.descriptors := by
    rw [(hproj.running id a addr newFd code hw).1]
    exact hstep.mem_descriptors_of_closed hclosed
  have hopen := ((filesPrivate_of_run hrun).opened g).2 ⟨id, hmem⟩
  by_contra hs
  rw [hproj.env, h.kept.apart g hs] at hopen
  cases hopen

/-- Whom a call reached does not change. -/
theorem reaches_concat (h : Whole clients D junk trace p)
    (hy : ∀ id e peer, y.event = .thread id e peer → e.onConnection = true →
      ∃ k, clientOf id (happened trace) = some k ∧ y.client = some k) :
    ∀ z ∈ trace ++ [y], ∀ id e peer, z.event = .thread id e peer → e.onConnection = true →
      ∃ k, clientOf id (happened (trace ++ [y])) = some k ∧ z.client = some k := by
  intro z hz id e peer hevent hon
  have hold : ∃ k, clientOf id (happened trace) = some k ∧ z.client = some k := by
    rcases List.mem_append.1 hz with hz | hz
    · exact h.reaches z hz id e peer hevent hon
    · rw [List.mem_singleton.1 hz] at hevent ⊢
      exact hy id e peer hevent hon
  obtain ⟨k, hk, hclient⟩ := hold
  rw [happened_concat]
  exact ⟨k, clientOf_concat hk _, hclient⟩

/-- A step in which no thread calls. -/
theorem silent (h : Whole clients D junk trace p)
    (hserver : ∃ t, p.server.step t = .ok (y.event, p'.server))
    (hcall : y.event.threadCall = none) (hkept : Kept clients (happened trace ++ [y.event]) p')
    (hproj : ∀ inboxes w, Assigns clients inboxes (happened trace) → Projects inboxes p w →
      Projects inboxes p' w) : Whole clients D junk (trace ++ [y]) p' where
  server := by
    obtain ⟨turns, hrun⟩ := h.server
    obtain ⟨t, ht⟩ := hserver
    refine ⟨turns ++ [t], run_append_eq_ok_iff.2 ⟨_, _, [y.event], hrun, ?_, ?_⟩⟩
    · exact run_cons_of_ok ht (run_nil _)
    · rw [happened_concat]
  world inboxes hassigns := by
    rw [happened_concat] at hassigns ⊢
    obtain ⟨xs, w, hrun, hproj', halong⟩ := h.world inboxes hassigns.of_concat
    refine ⟨xs, w, ?_, hproj inboxes w hassigns.of_concat hproj', halong⟩
    rw [threadCalls_concat, hcall]
    simpa using hrun
  kept := by rwa [happened_concat]
  reaches := by
    refine h.reaches_concat fun id e peer hevent ↦ ?_
    rw [hevent] at hcall
    cases hcall

/-- **A step of the process is one of its parts.** -/
theorem step (h : Whole clients D junk trace p)
    (hD : ∀ id c inboxes w, turn = .thread id c → Projects inboxes p w → D w (id, c))
    (hstep : p.step clients turn = .ok (y, p')) : Whole clients D junk (trace ++ [y]) p' := by
  obtain ⟨hcases, hserver⟩ := Process.step_cases hstep
  cases hcases with
  | accept hunused hmain =>
    exact h.silent hserver rfl (h.kept.accept h.orderly hunused hmain) fun inboxes w _ hproj ↦
      (hproj.accept h.kept hunused _ _).main hmain
  | main hne hmain =>
    exact h.silent hserver rfl (h.kept.main h.orderly hne hmain) fun inboxes w _ hproj ↦
      hproj.main hmain
  | start hw hn hthread hthreads =>
    exact h.silent hserver rfl (h.kept.start hw hn hthread hthreads)
      fun inboxes w hassigns hproj ↦ hproj.start h.kept hassigns hw hn hthreads
  | @call id a newFd addr code code' c ans sys e peer server hw hopen hdevice hcode hthread
      hthreads hlock =>
    have hclosed : ∀ g, e.closed = some g → p.sockets g = none := fun g hg ↦
      h.closed_not_connection hw (Code.step_cases hcode) hg
    have hkept := h.kept.call hw hopen hdevice hcode hthread hthreads hclosed
    refine ⟨?_, fun inboxes hassigns ↦ ?_, ?_, h.reaches_concat ?_⟩
    · obtain ⟨turns, hrun⟩ := h.server
      obtain ⟨t, ht⟩ := hserver
      refine ⟨turns ++ [t],
        run_append_eq_ok_iff.2 ⟨_, _, _, hrun, run_cons_of_ok ht (run_nil _), ?_⟩⟩
      rw [happened_concat]
    · rw [happened_concat] at hassigns ⊢
      obtain ⟨xs, w, hrun, hproj, halong⟩ := h.world inboxes hassigns.of_concat
      obtain ⟨w', hserve, hproj'⟩ := hproj.call h.kept hw hdevice hcode hthreads hlock hclosed
      refine ⟨xs ++ [(id, c)], w', ?_, hproj', halong.append hrun ⟨?_, fun _ _ _ ↦ trivial⟩⟩
      · rw [threadCalls_concat]
        exact run_append_eq_ok_iff.2 ⟨_, _, _, hrun, run_cons_of_ok hserve (run_nil _), rfl⟩
      · exact hD id c inboxes w rfl hproj
    · rw [happened_concat]
      exact hkept _
    · intro id' e' peer' hevent hon
      obtain ⟨rfl, rfl, -⟩ := ServerEvent.thread.inj hevent
      obtain ⟨k, hk⟩ := h.kept.exists_client hw
      have huses := (Code.step_cases hcode).usesConnection_of_onConnection hon
      obtain ⟨inbox, hs⟩ := (h.kept.connected id _ k hw hk).2 huses
      refine ⟨k, hk, ?_⟩
      rw [if_pos hon, hs]
      rfl

end Whole

/-- **A run of the process is one of its parts.** -/
theorem whole_of_along {C : Process → ProcessTurn → Prop} {turns : List ProcessTurn}
    (hCD : ∀ p id c inboxes w, C p (.thread id c) → Projects inboxes p w → D w (id, c))
    (hrun : run (Process.step clients) (.start junk) turns = .ok (trace, p))
    (halong : Along (Process.step clients) C (.start junk) turns) :
    Whole clients D junk trace p := by
  refine history_of_along ?_ (Whole.init clients D junk) hrun halong
  rintro is rs p₁ turn y p₂ - h hC hstep
  refine h.step (fun id c inboxes w hturn hproj ↦ ?_) hstep
  rw [hturn] at hC
  exact hCD p₁ id c inboxes w hC hproj

/-- **Every run of the process** is one of all its parts. -/
theorem whole_of_run {turns : List ProcessTurn}
    (hrun : run (Process.step clients) (.start junk) turns = .ok (trace, p)) :
    Whole clients (fun _ _ ↦ True) junk trace p :=
  whole_of_along (C := fun _ _ ↦ True) (fun _ _ _ _ _ _ _ ↦ trivial) hrun
    (along_of_forall fun _ _ ↦ trivial)

/-- **Each thread keeps to its client.** In every run of the whole process, with descriptors that
are used again and again, and whatever fails:

* no two threads have the same client, and each thread has one;
* a call of a thread on its connection reaches the client that was accepted for it;
* what a thread has received is the beginning of what its client sent;
* a connection is open as long as its thread has not closed it, and for ever if it has no thread;
* no descriptor is that of a connection and that of a file. -/
theorem connections_kept_apart (clients : ℕ → List (List Byte)) {junk : SockaddrStorage}
    {turns : List ProcessTurn} {trace : List Happening} {p : Process}
    (hrun : run (Process.step clients) (.start junk) turns = .ok (trace, p)) :
    (∀ i j k, clientOf i (happened trace) = some k → clientOf j (happened trace) = some k →
      i = j) ∧
    (∀ id < p.server.threads.length, ∃ k < acceptances (happened trace),
      clientOf id (happened trace) = some k ∧
        receivedBytes (callsOf id (happened trace)) <+: (clients k).flatten) ∧
    (∀ y ∈ trace, ∀ id e peer, y.event = .thread id e peer → e.onConnection = true →
      ∃ k, clientOf id (happened trace) = some k ∧ y.client = some k) ∧
    (∀ k < acceptances (happened trace), (∃ fd s, p.sockets fd = some s ∧ s.client = k) ↔
      ∀ id, clientOf id (happened trace) = some k →
        .call .closeSocket ∉ callsOf id (happened trace)) ∧
    ∀ fd, p.sockets fd ≠ none → p.sys.files fd = none := by
  have h := whole_of_run hrun
  have hkept := h.kept
  refine ⟨hkept.injective, fun id hid ↦ ?_, h.reaches, hkept.accepted ▸ hkept.unclosed,
    hkept.apart⟩
  obtain ⟨k, hk⟩ := hkept.exists_client (List.getElem?_eq_getElem hid)
  obtain ⟨inboxes, hassigns⟩ := exists_assigns clients (happened trace)
  obtain ⟨xs, w, hrun', -⟩ := h.world inboxes hassigns
  refine ⟨k, hkept.accepted ▸ hkept.lt id k hk, hk, ?_⟩
  have hreceived := receivedBytes_append_inbox hrun' id
  rw [own_threadCalls, hassigns id k hk] at hreceived
  exact ⟨_, hreceived⟩

/-- The thread of the first client has no memory; the second client gets the same descriptor, and
the `open` of its thread is refused. -/
theorem connections_kept_apart_same_descriptor :
    let turns : List ProcessTurn :=
      List.replicate 8 (.main ⟨some (3, .inet 10), some ⟨0, false, 0, .theirAddr, none⟩, true⟩) ++
      List.replicate 4 (.thread 0 { Choice.granting 3 with alloc := none }) ++
      List.replicate 4 (.main ⟨some (3, .inet 11), some ⟨0, false, 0, .theirAddr, none⟩, true⟩) ++
      List.replicate 6 (.thread 1 { Choice.granting 4 with fd := none })
    let clients : ℕ → List (List Byte) := fun k ↦ if k = 1 then [[97, newline]] else []
    ∃ trace p, run (Process.step clients) (.start (.inet 0)) turns = .ok (trace, p) ∧
      clientOf 1 (happened trace) = some 1 ∧
      .openFilePath none ∈ callsOf 1 (happened trace) ∧
      receivedBytes (callsOf 1 (happened trace)) <+: [97, newline] := by
  intro turns clients
  have heval : (run (Process.step clients) (.start (.inet 0)) turns).map
      (fun z ↦ (z.2.server.threads.length, clientOf 1 (happened z.1),
        decide (.openFilePath none ∈ callsOf 1 (happened z.1)))) = .ok (2, some 1, true) := by
    decide +kernel
  obtain ⟨⟨trace, p⟩, hrun, hend⟩ := exists_of_map_eq_ok heval
  simp only [Prod.mk.injEq, decide_eq_true_eq] at hend
  obtain ⟨hlen, hclient, hrefused⟩ := hend
  obtain ⟨-, hthreads, -⟩ := connections_kept_apart clients hrun
  obtain ⟨k, -, hk, hreceived⟩ := hthreads 1 (by omega)
  obtain rfl := Option.some.inj (hclient.symm.trans hk)
  exact ⟨trace, p, hrun, hk, hrefused, hreceived⟩

end Runs

end Aesd
