import Aesd.Service.Process

/-!
# Whose connection a thread has

The descriptors of the process are used again and again, for connections and for files, by threads
that know them by number only. Still each thread calls on the connection of its own client only
(`connections_kept_apart`): a connection stays open until its thread closes it, the thread does not
use the descriptor afterwards (`Code.ClosesLast`), and no thread closes a file that is not its own.

So the threads of the process are those of `serve`, each with the client that was accepted for it
(`Projects`).

## A client by its number

A client is the number of its `accept`, which is not used again, unlike its descriptor. A connection
goes through three hands: `accept` makes it and `main` has it in hand (`Server.HasInHand`), the node
carries its descriptor to the new thread, and the thread has it until it closes it
(`Worker.Connected`). `Kept` says at each point whose it is.

A connection for which no thread could be created is closed by nobody: `main` frees the node and
forgets the descriptor. It stays open, with a client that no thread has (`Kept.unclosed`).

## Why the number of a descriptor is enough

The kernel gives out a descriptor only when nobody has it, so a connection is confused with another
one only if someone uses its descriptor after it was closed. Threads close their connection after
their last `recv` and `send`, and a file only while they have it open.
-/

namespace Aesd

open Memory Execution MutualExclusion

/-! ### The clients -/

/-- How many clients `main` has accepted. -/
def acceptances (trace : List ServerEvent) : ℕ :=
  trace.countP fun e ↦ e.accepted.isSome

/-- The client of thread `id`, the latest one when the thread was created. -/
def clientOf (id : ℕ) (trace : List ServerEvent) : Option ℕ :=
  if trace.any (ServerEvent.creates id) then
    some (acceptances (trace.takeWhile fun e ↦ !e.creates id) - 1)
  else none

section Numbers

variable {trace : List ServerEvent} {e : ServerEvent} {id k : ℕ}

/-- Only an `accept` that succeeds counts. -/
theorem acceptances_concat (trace : List ServerEvent) (e : ServerEvent) :
    acceptances (trace ++ [e]) = acceptances trace + e.accepted.isSome.toNat := by
  rw [acceptances, List.countP_append, List.countP_singleton, acceptances]
  rcases e.accepted.isSome with - | - <;> rfl

/-- What came before the creation of a thread does not change any more. -/
theorem takeWhile_concat_of_any (h : trace.any (ServerEvent.creates id) = true)
    (e : ServerEvent) : (trace ++ [e]).takeWhile (fun e ↦ !e.creates id) =
      trace.takeWhile fun e ↦ !e.creates id := by
  rw [List.takeWhile_append, if_neg]
  intro hlen
  obtain ⟨e, he, hcreates⟩ := List.any_eq_true.1 h
  rw [← (List.takeWhile_prefix _).eq_of_length hlen] at he
  have hnot := List.mem_takeWhile_imp he
  rw [hcreates] at hnot
  cases hnot

/-- A thread keeps its client. -/
theorem clientOf_concat (h : clientOf id trace = some k) (e : ServerEvent) :
    clientOf id (trace ++ [e]) = some k := by
  rw [clientOf] at h ⊢
  split at h
  · rename_i hany
    rw [if_pos (by rw [List.any_append, hany, Bool.true_or]), takeWhile_concat_of_any hany]
    exact h
  · cases h

/-- The threads that have no client are those that were not created. -/
theorem clientOf_eq_none_iff : clientOf id trace = none ↔
    trace.any (ServerEvent.creates id) = false := by
  rw [clientOf]
  split
  · rename_i hany
    simp [hany]
  · rename_i hany
    simpa using hany

/-- A step that does not create a thread gives it no client. -/
theorem clientOf_concat_of_not (he : e.creates id = false) :
    clientOf id (trace ++ [e]) = clientOf id trace := by
  rcases h : clientOf id trace with - | k
  · rw [clientOf_eq_none_iff] at h ⊢
    rw [List.any_append, h, List.any_cons, he]
    rfl
  · exact clientOf_concat h e

/-- The client of a thread that is created. -/
theorem clientOf_created (hnew : clientOf id trace = none) (he : e.creates id = true) :
    clientOf id (trace ++ [e]) = some (acceptances trace - 1) := by
  have hall : ∀ d ∈ trace, (!d.creates id) = true := by
    intro d hd
    rw [Bool.not_eq_true']
    exact Bool.eq_false_iff.2 (List.any_eq_false.1 (clientOf_eq_none_iff.1 hnew) d hd)
  rw [clientOf, if_pos (by simp [he]), List.takeWhile_append_of_pos hall,
    List.takeWhile_cons_of_neg (by simp [he]), List.append_nil]

end Numbers

/-! ### How a thread uses its connection -/

namespace Code

/-- The thread has calls on its connection to make. -/
def usesConnection : Code → Bool
  | call .closeSocket _ | call (.send _) _ => true
  | call _ next => next.usesConnection
  | ret => false
  | _ => true

/-- After a thread has closed its connection it does not use it. -/
def ClosesLast : Code → Prop
  | call .closeSocket next => next.usesConnection = false
  | call _ next => next.ClosesLast
  | _ => True

variable {code code' : Code} {e : Event}

/-- Each way of going on after the reception closes the connection last. -/
theorem closesLast_handle (l : Locals) : (handle l).ClosesLast := by
  obtain ⟨seekto, h⟩ | h | h | h := handle_cases l
  · rw [h]
    exact trivial
  · rw [h]
    rfl
  · rw [h]
    exact trivial
  · rw [h]
    rfl

/-- So does the way on from a scan. -/
theorem closesLast_scan (l : Locals) : (scan l).ClosesLast := by
  rcases scan_cases l with h | h
  · rw [h]
    exact closesLast_handle l
  · rw [h]
    exact trivial

/-- It stays so from call to call: behind the `close` there is no call on the connection, so none
behind a later one either. -/
theorem ClosesLast.step (h : code.ClosesLast) (hstep : Step code e code') : code'.ClosesLast := by
  cases hstep with
  | call a next =>
    cases a with
    | closeSocket =>
      have hnot : ∀ code : Code, code.usesConnection = false → code.ClosesLast := by
        intro code
        induction code with
        | call a next ih =>
          intro hnot
          cases a with
          | closeSocket => cases hnot
          | send => cases hnot
          | _ => exact ih hnot
        | _ => exact fun _ ↦ trivial
      exact hnot _ h
    | _ => exact h
  | recvNothing l => exact closesLast_handle l
  | recv l data =>
    obtain ⟨l', h⟩ | ⟨l', h⟩ := received_cases l data
    · rw [h]
      exact trivial
    · rw [h]
      exact closesLast_scan l'
  | reallocFails l => exact closesLast_handle l
  | realloc l junk => exact closesLast_scan _
  | mallocFails | openWriteFails | readBackEnd | openReadFails => rfl
  | openIoctlFails | readIoctlEnd => rfl
  | _ => exact trivial

/-- Who uses the connection later uses it now. -/
theorem Step.usesConnection (h : Step code e code') (huses : code'.usesConnection = true) :
    code.usesConnection = true := by
  cases h with
  | call a next =>
    cases a with
    | closeSocket => rfl
    | send => rfl
    | _ => exact huses
  | _ => rfl

/-- A call on the connection is one that is left to make. -/
theorem Step.usesConnection_of_onConnection (h : Step code e code')
    (hon : e.onConnection = true) : code.usesConnection = true := by
  cases h with
  | call a next =>
    cases a with
    | closeSocket => rfl
    | send => rfl
    | _ => cases hon
  | _ => rfl

/-- What has come in matters only if it is received. -/
theorem step_eq_of_not_usesConnection (h : code.usesConnection = false) (o o' : Outcome) :
    code.step o = code.step o' := by
  cases code with
  | call => rfl
  | ret => rfl
  | _ => cases h

/-- What a thread opens has the descriptor that the kernel chose. -/
theorem opens_of_opened {conn : Conn} {c : Choice} {a : Answer} {fd : ℕ}
    (hstep : code.step (conn.outcome c a) = .ok (e, code')) (hopened : e.opened = some fd) :
    code.opens = true ∧ c.fd = some fd := by
  rcases hopens : code.opens with - | -
  · cases code with
    | openIoctl | openWrite | openRead => exact absurd hopens.symm Bool.false_ne_true
    | ret => cases hstep
    | _ => cases Code.step_cases hstep <;> cases hopened
  · rw [(opened_of_opens hopens hstep).1, Conn.outcome, Option.ite_none_right_eq_some] at hopened
    exact ⟨rfl, hopened.2⟩

end Code

/-! ### What a call does to the connections -/

section Sockets

variable {sockets : ℕ → Option Socket} {newFd fd : ℕ} {e : Event} {s : Socket}

/-- Only the `close` of the connection closes a descriptor outside the driver's calls. -/
theorem System.afterCall_of_ne {sys : System} (hne : e ≠ .call .closeSocket) :
    sys.afterCall newFd e = sys := by
  rw [System.afterCall]
  exact hne

/-- The other connections stay. A `close` of a file leaves all of them: no connection has the
descriptor of a file. -/
theorem socketsAfter_of_ne (hclosed : ∀ g, e.closed = some g → sockets g = none)
    (hne : e.onConnection = true → fd ≠ newFd) : socketsAfter sockets newFd e fd = sockets fd := by
  cases e with
  | recv asked data => exact Function.update_of_ne (hne rfl) ..
  | call a =>
    cases a with
    | closeSocket => exact Function.update_of_ne (hne rfl) ..
    | closeFile g =>
      rw [socketsAfter]
      rcases eq_or_ne fd g with rfl | hfd
      · rw [Function.update_self, hclosed fd rfl]
      · exact Function.update_of_ne hfd ..
    | _ => rfl
  | _ => rfl

/-- Its own connection stays, unless the thread closes it; what it receives is no longer there. -/
theorem socketsAfter_self (hclosed : ∀ g, e.closed = some g → sockets g = none)
    (hs : sockets newFd = some s) (code : Code) :
    socketsAfter sockets newFd e newFd =
      if e = .call .closeSocket then none
      else some ⟨s.client, (Conn.after ⟨code, s.inbox⟩ e code).inbox⟩ := by
  cases e with
  | recv asked data =>
    rw [socketsAfter, Function.update_self, hs]
    rfl
  | call a =>
    cases a with
    | closeSocket => exact Function.update_self ..
    | closeFile g =>
      have hne : newFd ≠ g := by
        rintro rfl
        rw [hclosed newFd rfl] at hs
        cases hs
      rw [socketsAfter, Function.update_of_ne hne, hs]
      rfl
    | _ => exact hs
  | _ => exact hs

end Sockets

/-! ### The invariant -/

/-- The connection that `main` has accepted and given to no thread. -/
def Server.HasInHand (s : Server) (newFd : ℕ) : Prop :=
  match s.main with
  | .malloc fd => fd = newFd
  | .pthreadCreate a => ∃ n, s.nodes.record a = some n ∧ n.newFd = newFd
  | _ => False

/-- The connection with client `k` is there as long as the thread uses it. -/
def Worker.Connected (clients : ℕ → List (List Byte)) (sockets : ℕ → Option Socket) (s : Server)
    (k : ℕ) : Worker → Prop
  | .created a => ∀ n, s.nodes.record a = some n → sockets n.newFd = some ⟨k, clients k⟩
  | .running _ _ newFd code => code.ClosesLast ∧
    (code.usesConnection = true → ∃ inbox, sockets newFd = some ⟨k, inbox⟩)

/-- What holds of the connections after any steps. -/
structure Kept (clients : ℕ → List (List Byte)) (trace : List ServerEvent) (p : Process) :
    Prop where
  accepted : p.accepted = acceptances trace
  /-- Every thread that was created has a client, and no other has. -/
  born : ∀ id, clientOf id trace = none ↔ p.server.threads.length ≤ id
  lt : ∀ id k, clientOf id trace = some k → k < p.accepted
  /-- No two threads have the same client. -/
  injective : ∀ i j k, clientOf i trace = some k → clientOf j trace = some k → i = j
  /-- What `main` has in hand is the connection of the newest client, which has sent all it will and
  has been received nothing of. -/
  inHand : ∀ newFd, p.server.HasInHand newFd → ∃ k, p.accepted = k + 1 ∧
    p.sockets newFd = some ⟨k, clients k⟩ ∧ ∀ id, clientOf id trace ≠ some k
  client_lt : ∀ fd s, p.sockets fd = some s → s.client < p.accepted
  /-- A client has one connection at most. -/
  one : ∀ fd fd' s s', p.sockets fd = some s → p.sockets fd' = some s' → s.client = s'.client →
    fd = fd'
  /-- No descriptor is that of a connection and of a file. -/
  apart : ∀ fd, p.sockets fd ≠ none → p.sys.files fd = none
  connected : ∀ id w k, p.server.threads[id]? = some w → clientOf id trace = some k →
    w.Connected clients p.sockets p.server k
  /-- The connection with a client is open unless its thread has closed it. -/
  unclosed : ∀ k < p.accepted, (∃ fd s, p.sockets fd = some s ∧ s.client = k) ↔
    ∀ id, clientOf id trace = some k → .call .closeSocket ∉ callsOf id trace

section Kept

variable {clients : ℕ → List (List Byte)} {trace : List ServerEvent} {p : Process}
  {server : Server} {m : MainEvent} {id k : ℕ}

/-- The other steps of `main` accept nobody. -/
theorem Server.MainStep.accepted_eq_none (hne : ∀ conn, m ≠ .accept (some conn)) :
    (ServerEvent.main m).accepted = none := by
  cases m with
  | accept conn =>
    rcases conn with - | conn
    · rfl
    · exact absurd rfl (hne conn)
  | _ => rfl

/-- A step of `main` that creates no thread gives no thread a client. -/
theorem clientOf_concat_main (hne : ∀ a id, m ≠ .pthreadCreate a (some id)) (id : ℕ) :
    clientOf id (trace ++ [.main m]) = clientOf id trace := by
  refine clientOf_concat_of_not ?_
  cases m with
  | pthreadCreate a created =>
    rcases created with - | j
    · rfl
    · exact absurd rfl (hne a j)
  | _ => rfl

namespace Kept

/-- The connections of the threads stay as they are, in the nodes too. -/
theorem connected_of_main (h : Kept clients trace p) (ho : Orderly trace p.server)
    (hmain : p.server.MainStep m server) {w : Worker} (hw : p.server.threads[id]? = some w)
    (hk : clientOf id trace = some k) : w.Connected clients p.sockets server k := by
  have hconn := h.connected id w k hw hk
  cases w with
  | created a =>
    intro n' hn'
    have hlt := ho.manned.lt a (Server.mem_created_iff.2 ⟨id, _, hw, rfl⟩)
    obtain ⟨n, hn, hfd⟩ := hmain.newFd_eq hlt hn'
    rw [← hfd]
    exact hconn n hn
  | running a addr newFd code => exact hconn

/-- A step of `main` that neither accepts a client nor creates a thread. -/
theorem of_main (h : Kept clients trace p) (ho : Orderly trace p.server)
    (hmain : p.server.MainStep m server) (haccept : ∀ conn, m ≠ .accept (some conn))
    (hcreate : ∀ a id, m ≠ .pthreadCreate a (some id))
    (hthreads : server.threads = p.server.threads)
    (hhand : ∀ newFd, server.HasInHand newFd → p.server.HasInHand newFd) :
    Kept clients (trace ++ [.main m]) { p with server } := by
  have hclient : ∀ id, clientOf id (trace ++ [.main m]) = clientOf id trace :=
    clientOf_concat_main hcreate
  have hcount : acceptances (trace ++ [.main m]) = acceptances trace := by
    rw [acceptances_concat, Server.MainStep.accepted_eq_none haccept]
    rfl
  refine ⟨?_, ?_, ?_, ?_, ?_, h.client_lt, h.one, h.apart, ?_, ?_⟩
  · exact h.accepted.trans hcount.symm
  · simpa only [hclient, hthreads] using h.born
  · simpa only [hclient] using h.lt
  · simpa only [hclient] using h.injective
  · intro newFd hin
    simpa only [hclient] using h.inHand newFd (hhand newFd hin)
  · intro j w k hw hk
    exact h.connected_of_main ho hmain (hthreads ▸ hw) (hclient j ▸ hk)
  · simpa only [hclient, callsOf_concat_main] using h.unclosed

/-- A new client, on a descriptor that nobody has. -/
theorem accept (h : Kept clients trace p) (ho : Orderly trace p.server) {newFd : ℕ}
    {peer : SockaddrStorage} (hunused : p.unused newFd = true)
    (hmain : p.server.MainStep (.accept (some (newFd, peer))) server) :
    Kept clients (trace ++ [.main (.accept (some (newFd, peer)))])
      { p with
        server
        sockets := Function.update p.sockets newFd (some ⟨p.accepted, clients p.accepted⟩)
        accepted := p.accepted + 1 } := by
  have hclient : ∀ id, clientOf id (trace ++ [.main (.accept (some (newFd, peer)))]) =
      clientOf id trace := clientOf_concat_main (by simp)
  have hcount : acceptances (trace ++ [.main (.accept (some (newFd, peer)))]) =
      acceptances trace + 1 := acceptances_concat ..
  rw [Process.unused, Bool.and_eq_true, Option.isNone_iff_eq_none, Option.isNone_iff_eq_none]
    at hunused
  obtain ⟨hfree, hfile⟩ := hunused
  have hothers : ∀ fd s, p.sockets fd = some s →
      Function.update p.sockets newFd (some ⟨p.accepted, clients p.accepted⟩) fd = some s := by
    intro fd s hs
    rw [Function.update_of_ne, hs]
    rintro rfl
    rw [hfree] at hs
    cases hs
  have hcases : ∀ fd s,
      Function.update p.sockets newFd (some ⟨p.accepted, clients p.accepted⟩) fd = some s →
      (fd = newFd ∧ s = ⟨p.accepted, clients p.accepted⟩) ∨ p.sockets fd = some s := by
    intro fd s hs
    rcases eq_or_ne fd newFd with rfl | hne
    · rw [Function.update_self] at hs
      exact Or.inl ⟨rfl, (Option.some.inj hs).symm⟩
    · rw [Function.update_of_ne hne] at hs
      exact Or.inr hs
  have hthreads : server.threads = p.server.threads := by
    cases hmain
    rfl
  refine ⟨?_, ?_, ?_, ?_, ?_, ?_, ?_, ?_, ?_, ?_⟩
  · rw [hcount, h.accepted]
  · simpa only [hclient, hthreads] using h.born
  · intro id k hk
    exact (h.lt id k (hclient id ▸ hk)).trans (Nat.lt_succ_self _)
  · simpa only [hclient] using h.injective
  · intro fd hin
    obtain rfl : newFd = fd := by
      cases hmain
      exact hin
    refine ⟨p.accepted, rfl, Function.update_self .., fun id hk ↦ ?_⟩
    exact Nat.lt_irrefl _ (h.lt id _ (hclient id ▸ hk))
  · intro fd s hs
    rcases hcases fd s hs with ⟨rfl, rfl⟩ | hs
    · exact Nat.lt_succ_self _
    · exact (h.client_lt fd s hs).trans (Nat.lt_succ_self _)
  · intro fd fd' s s' hs hs' heq
    rcases hcases fd s hs with ⟨rfl, rfl⟩ | hold
    · rcases hcases fd' s' hs' with ⟨rfl, rfl⟩ | hold'
      · rfl
      · exact absurd heq (Nat.ne_of_gt (h.client_lt fd' s' hold'))
    · rcases hcases fd' s' hs' with ⟨rfl, rfl⟩ | hold'
      · exact absurd heq (Nat.ne_of_lt (h.client_lt fd s hold))
      · exact h.one fd fd' s s' hold hold' heq
  · intro fd hs
    rcases eq_or_ne fd newFd with rfl | hne
    · exact hfile
    · exact h.apart fd fun hnone ↦ hs ((Function.update_of_ne hne ..).trans hnone)
  · intro j w k hw hk
    have hconn := h.connected_of_main ho hmain (hthreads ▸ hw) (hclient j ▸ hk)
    cases w with
    | created a => exact fun n hn ↦ hothers _ _ (hconn n hn)
    | running a addr fd code =>
      refine ⟨hconn.1, fun huses ↦ ?_⟩
      obtain ⟨inbox, hs⟩ := hconn.2 huses
      exact ⟨inbox, hothers _ _ hs⟩
  · intro k hk
    simp only [hclient, callsOf_concat_main]
    rcases Nat.lt_succ_iff_lt_or_eq.1 hk with hlt | rfl
    · rw [← h.unclosed k hlt]
      constructor
      · rintro ⟨fd, s, hs, rfl⟩
        rcases hcases fd s hs with ⟨rfl, rfl⟩ | hs
        · exact absurd hlt (Nat.lt_irrefl _)
        · exact ⟨fd, s, hs, rfl⟩
      · rintro ⟨fd, s, hs, rfl⟩
        exact ⟨fd, s, hothers fd s hs, rfl⟩
    · refine iff_of_true ⟨newFd, _, Function.update_self .., rfl⟩ fun id hk' ↦ ?_
      exact absurd (h.lt id _ hk') (Nat.lt_irrefl _)

/-- The connection that `main` had in hand goes to the thread it creates. -/
theorem create (h : Kept clients trace p) (ho : Orderly trace p.server) {a : ℕ}
    (hmain : p.server.MainStep (.pthreadCreate a (some id)) server) :
    Kept clients (trace ++ [.main (.pthreadCreate a (some id))]) { p with server } := by
  have hold : ∀ (j : ℕ) (w : Worker) (k : ℕ), p.server.threads[j]? = some w →
      clientOf j trace = some k → w.Connected clients p.sockets server k :=
    fun j w k hw hk ↦ h.connected_of_main ho hmain hw hk
  cases hmain with
  | @created a n nodes hmain hn hset =>
    -- the new thread is the only one with this client, and the others have what they had
    obtain ⟨k, hk, hsocket, hnobody⟩ := h.inHand n.newFd (by
      rw [Server.HasInHand, hmain]
      exact ⟨n, hn, rfl⟩)
    have hne : ∀ id ≠ p.server.threads.length,
        clientOf id (trace ++ [.main (.pthreadCreate a (some p.server.threads.length))]) =
          clientOf id trace := by
      intro id hid
      exact clientOf_concat_of_not (by simp [ServerEvent.creates, hid.symm])
    have hself : clientOf p.server.threads.length
        (trace ++ [.main (.pthreadCreate a (some p.server.threads.length))]) = some k := by
      rw [clientOf_created ((h.born _).2 (Nat.le_refl _)) (by simp [ServerEvent.creates]),
        ← h.accepted, hk]
      rfl
    refine ⟨?_, fun id ↦ ?_, fun id k' hk' ↦ ?_, fun i j k' hi hj ↦ ?_, fun _ hin ↦ hin.elim,
      h.client_lt, h.one, h.apart, fun j w k' hw hk' ↦ ?_, fun k' hlt ↦ ?_⟩
    · rw [acceptances_concat]
      exact h.accepted
    · rw [List.length_append, List.length_singleton]
      rcases eq_or_ne id p.server.threads.length with rfl | hid
      · rw [hself]
        exact iff_of_false (by simp) (by omega)
      · rw [hne id hid, h.born id]
        omega
    · rcases eq_or_ne id p.server.threads.length with rfl | hid
      · obtain rfl := Option.some.inj (hself.symm.trans hk')
        rw [hk]
        exact Nat.lt_succ_self _
      · exact h.lt id k' (hne id hid ▸ hk')
    · rcases eq_or_ne i p.server.threads.length with rfl | hi'
      · rcases eq_or_ne j p.server.threads.length with rfl | hj'
        · rfl
        · obtain rfl := Option.some.inj (hself.symm.trans hi)
          exact absurd (hne j hj' ▸ hj) (hnobody j)
      · rcases eq_or_ne j p.server.threads.length with rfl | hj'
        · obtain rfl := Option.some.inj (hself.symm.trans hj)
          exact absurd (hne i hi' ▸ hi) (hnobody i)
        · exact h.injective i j k' (hne i hi' ▸ hi) (hne j hj' ▸ hj)
    -- the node carries the descriptor to it
    · rcases eq_or_ne j p.server.threads.length with rfl | hj'
      · rw [List.getElem?_concat_length] at hw
        obtain rfl := Option.some.inj hw
        obtain rfl := Option.some.inj (hself.symm.trans hk')
        intro n' hn'
        rw [hset.record_eq, if_pos rfl] at hn'
        obtain rfl := Option.some.inj hn'
        exact hsocket
      · have hlt : j < p.server.threads.length := by
          have hlt := (List.getElem?_eq_some_iff.1 hw).1
          rw [List.length_append, List.length_singleton] at hlt
          omega
        rw [List.getElem?_append_left hlt] at hw
        exact hold j w k' hw (hne j hj' ▸ hk')
    · simp only [callsOf_concat_main]
      rw [h.unclosed k' hlt]
      constructor
      · intro hall id hid
        rcases eq_or_ne id p.server.threads.length with rfl | hid'
        · rw [ho.manned.unborn _ (Nat.le_refl _)]
          exact List.not_mem_nil
        · exact hall id (hne id hid' ▸ hid)
      · exact fun hall id hid ↦ hall id (clientOf_concat hid _)

/-- A step of `main` that accepts no client. Of these only the creation of a thread changes whose a
connection is. -/
theorem main (h : Kept clients trace p) (ho : Orderly trace p.server)
    (haccept : ∀ conn, m ≠ .accept (some conn)) (hmain : p.server.MainStep m server) :
    Kept clients (trace ++ [.main m]) { p with server } := by
  have hcases := hmain
  cases hcases with
  | accept newFd peer => exact absurd rfl (haccept (newFd, peer))
  | created => exact h.create ho hmain
  | acceptFails => exact h.of_main ho hmain haccept (by simp) rfl fun _ hin ↦ hin
  | malloc n hn =>
    refine h.of_main ho hmain haccept (by simp) rfl ?_
    rintro newFd ⟨n', hn', rfl⟩
    rw [Heap.record_alloc, if_pos rfl] at hn'
    obtain rfl := Option.some.inj hn'
    rw [Server.HasInHand, hn]
  | @test a temp n =>
    refine h.of_main ho hmain haccept (by simp) rfl fun newFd hin ↦ ?_
    rcases hstatus : n.status with - | - <;> simp [Server.HasInHand, hstatus] at hin
  | _ => exact h.of_main ho hmain haccept (by simp) rfl fun _ hin ↦ hin.elim

/-- A step of thread `id`, whose client is `k`, that changes no connection but that of `k`. -/
theorem of_thread (h : Kept clients trace p) (hk : clientOf id trace = some k) {e : ServerEvent}
    {w w' : Worker} (hf : Frame p.server id e server w w') (haccepted : e.accepted = none)
    (hcreates : ∀ j, e.creates j = false) {owner : Option ℕ} {sys : System}
    {sockets : ℕ → Option Socket} (hw' : w'.Connected clients sockets server k)
    (hothers : ∀ fd s, p.sockets fd = some s → s.client ≠ k → sockets fd = some s)
    (hclient : ∀ fd s, sockets fd = some s → ∃ s₀, p.sockets fd = some s₀ ∧ s₀.client = s.client)
    (hapart : ∀ fd, sockets fd ≠ none → sys.files fd = none)
    (hself : (∃ fd s, sockets fd = some s ∧ s.client = k) ↔
      .call .closeSocket ∉ callsOf id (trace ++ [e])) :
    Kept clients (trace ++ [e]) { p with server, owner, sys, sockets } := by
  have hsame : ∀ j, clientOf j (trace ++ [e]) = clientOf j trace :=
    fun j ↦ clientOf_concat_of_not (hcreates j)
  -- no other thread has this client, so the other connections are those of other clients
  have hne : ∀ j ≠ id, clientOf j trace ≠ some k := fun j hj hjk ↦ hj (h.injective j id k hjk hk)
  have hfd : ∀ {c : ℕ} {n' : SlistData}, server.nodes.record c = some n' →
      ∃ n, p.server.nodes.record c = some n ∧ n.newFd = n'.newFd := by
    intro c n' hn'
    have hmap := hf.map_record (f := SlistData.newFd) (fun _ ↦ rfl) c
    rw [hn'] at hmap
    exact Option.map_eq_some_iff.1 hmap.symm
  refine ⟨?_, ?_, ?_, ?_, ?_, ?_, ?_, hapart, ?_, ?_⟩
  · rw [acceptances_concat, haccepted]
    exact h.accepted
  · simpa only [hsame, hf.threads_eq, List.length_set] using h.born
  · simpa only [hsame] using h.lt
  · simpa only [hsame] using h.injective
  · intro newFd hin
    have hin' : p.server.HasInHand newFd := by
      rw [Server.HasInHand] at hin ⊢
      dsimp only at hin
      rw [hf.main_eq] at hin
      split at hin
      · exact hin
      · obtain ⟨n', hn', rfl⟩ := hin
        exact hfd hn'
      · exact hin
    obtain ⟨k', hk', hs, hnobody⟩ := h.inHand newFd hin'
    refine ⟨k', hk', hothers newFd _ hs fun heq ↦ hnobody id (hk.trans (congrArg some heq.symm)),
      fun j ↦ ?_⟩
    rw [hsame]
    exact hnobody j
  · intro fd s hs
    obtain ⟨s₀, hs₀, heq⟩ := hclient fd s hs
    rw [← heq]
    exact h.client_lt fd s₀ hs₀
  · intro fd fd' s s' hs hs' heq
    obtain ⟨s₀, hs₀, heq₀⟩ := hclient fd s hs
    obtain ⟨s₁, hs₁, heq₁⟩ := hclient fd' s' hs'
    exact h.one fd fd' s₀ s₁ hs₀ hs₁ (heq₀.trans (heq.trans heq₁.symm))
  · intro j u k' hu hk'
    rw [hsame] at hk'
    rcases hf.thread_cases hu with ⟨rfl, rfl⟩ | ⟨hj, hold⟩
    · obtain rfl := Option.some.inj (hk.symm.trans hk')
      exact hw'
    · have hk'ne : k' ≠ k := fun heq ↦ hne j hj (heq ▸ hk')
      have hconn := h.connected j u k' hold hk'
      cases u with
      | created a =>
        intro n' hn'
        obtain ⟨n, hn, heq⟩ := hfd hn'
        rw [← heq]
        exact hothers _ _ (hconn n hn) hk'ne
      | running a addr newFd code =>
        refine ⟨hconn.1, fun huses ↦ ?_⟩
        obtain ⟨inbox, hs⟩ := hconn.2 huses
        exact ⟨inbox, hothers _ _ hs hk'ne⟩
  · intro k' hlt
    rcases eq_or_ne k' k with rfl | hk'
    · rw [hself]
      constructor
      · intro hnot j hj
        rw [hsame] at hj
        rwa [h.injective j id k' hj hk]
      · exact fun hall ↦ hall id ((hsame id).trans hk)
    · have hsockets : (∃ fd s, sockets fd = some s ∧ s.client = k') ↔
          ∃ fd s, p.sockets fd = some s ∧ s.client = k' := by
        constructor
        · rintro ⟨fd, s, hs, rfl⟩
          obtain ⟨s₀, hs₀, heq⟩ := hclient fd s hs
          exact ⟨fd, s₀, hs₀, heq⟩
        · rintro ⟨fd, s, hs, rfl⟩
          exact ⟨fd, s, hothers fd s hs hk', rfl⟩
      rw [hsockets, h.unclosed k' hlt]
      refine forall_congr' fun j ↦ ?_
      rw [hsame]
      refine imp_congr_right fun hj ↦ ?_
      have hjne : j ≠ id := by
        rintro rfl
        exact hk' (Option.some.inj (hj.symm.trans hk))
      rw [hf.others j hjne]

/-- Which client a thread has. -/
theorem exists_client (h : Kept clients trace p) {w : Worker}
    (hw : p.server.threads[id]? = some w) : ∃ k, clientOf id trace = some k := by
  rcases hk : clientOf id trace with - | k
  · have hlt := (List.getElem?_eq_some_iff.1 hw).1
    exact absurd ((h.born id).1 hk) (by omega)
  · exact ⟨k, rfl⟩

/-- The connection with client `k` is open unless its thread has closed it. -/
theorem unclosed_iff (h : Kept clients trace p) (hk : clientOf id trace = some k) :
    (∃ fd s, p.sockets fd = some s ∧ s.client = k) ↔ .call .closeSocket ∉ callsOf id trace := by
  rw [h.unclosed k (h.lt id k hk)]
  constructor
  · exact fun hall ↦ hall id hk
  · intro hnot j hj
    rwa [h.injective j id k hj hk]

/-- A thread begins: it copies the descriptor from its node. -/
theorem start (h : Kept clients trace p) {a : ℕ} {n : SlistData}
    (hw : p.server.threads[id]? = some (.created a)) (hn : p.server.nodes.record a = some n)
    (hthread : p.server.ThreadStep id (.start id) server)
    (hthreads : server.threads =
      p.server.threads.set id (.running a n.socketAddress n.newFd .threadfunc)) :
    Kept clients (trace ++ [.start id]) { p with server } := by
  obtain ⟨k, hk⟩ := h.exists_client hw
  obtain ⟨w, w', hf⟩ := ThreadStep.exists_frame hthread
  have hlt := (List.getElem?_eq_some_iff.1 hw).1
  obtain rfl : w' = .running a n.socketAddress n.newFd .threadfunc := by
    have heq := congrArg (·[id]?) (hf.threads_eq.symm.trans hthreads)
    simpa [hlt] using heq
  refine h.of_thread hk hf rfl (fun _ ↦ rfl) ⟨trivial, fun _ ↦ ?_⟩ (fun _ _ hs _ ↦ hs)
    (fun fd s hs ↦ ⟨s, hs, rfl⟩) h.apart ?_
  · exact ⟨_, h.connected id _ k hw hk n hn⟩
  · rw [h.unclosed_iff hk, callsOf_concat]
    simp [ServerEvent.callOf]

section Call

variable {a newFd : ℕ} {addr : SockaddrIn} {code code' : Code} {c : Choice} {ans : Answer}
  {sys : System} {e : Event} {peer : Option InAddr}

/-- No call of a thread opens the descriptor of a connection, and none makes a file of it. -/
theorem apart_of_call (h : Kept clients trace p)
    (hopen : code.opens = true → c.fd.bind p.sockets = none) {conn : Conn}
    (hdevice : code.device p.sys c = .ok (ans, sys))
    (hstep : code.step (conn.outcome c ans) = .ok (e, code')) {fd : ℕ}
    (hs : p.sockets fd ≠ none) : (sys.afterCall newFd e).files fd = none := by
  have hfiles := filesAfter_of_device hdevice hstep
  have hnone : sys.files fd = none := by
    refine Option.not_isSome_iff_eq_none.1 fun hsome ↦ ?_
    rcases (hfiles.isSome fd).1 hsome with hopened | ⟨hfile, -⟩
    · obtain ⟨hopens, hfd⟩ := Code.opens_of_opened hstep hopened
      have hnot := hopen hopens
      rw [hfd] at hnot
      exact hs hnot
    · rw [h.apart fd hs] at hfile
      cases hfile
  rcases eq_or_ne e (.call .closeSocket) with rfl | hne
  · rw [System.afterCall, System.setFile_files, hnone, ite_self]
  · rwa [System.afterCall_of_ne hne]

/-- **A call of a thread** keeps the connections of all others, and its own until the call closes
it. -/
theorem call (h : Kept clients trace p)
    (hw : p.server.threads[id]? = some (.running a addr newFd code))
    (hopen : code.opens = true → c.fd.bind p.sockets = none)
    (hdevice : code.device p.sys c = .ok (ans, sys))
    (hstep : code.step ((p.conn newFd code).outcome c ans) = .ok (e, code'))
    (hthread : p.server.ThreadStep id (.thread id e peer) server)
    (hthreads : server.threads = p.server.threads.set id (.running a addr newFd code'))
    (hclosed : ∀ g, e.closed = some g → p.sockets g = none) (owner : Option ℕ) :
    Kept clients (trace ++ [.thread id e peer])
      { p with
        server
        owner
        sys := sys.afterCall newFd e
        sockets := socketsAfter p.sockets newFd e } := by
  obtain ⟨k, hk⟩ := h.exists_client hw
  obtain ⟨w, w', hf⟩ := ThreadStep.exists_frame hthread
  have hlt := (List.getElem?_eq_some_iff.1 hw).1
  obtain rfl : w' = .running a addr newFd code' := by
    have heq := congrArg (·[id]?) (hf.threads_eq.symm.trans hthreads)
    simpa [hlt] using heq
  obtain ⟨hlast, hconn⟩ := h.connected id _ k hw hk
  have hcode := Code.step_cases hstep
  -- the connection, if it is used
  have hown : e.onConnection = true → ∃ inbox, p.sockets newFd = some ⟨k, inbox⟩ :=
    fun hon ↦ hconn (hcode.usesConnection_of_onConnection hon)
  have hothers : ∀ fd s, p.sockets fd = some s → s.client ≠ k →
      socketsAfter p.sockets newFd e fd = some s := by
    intro fd s hs hne
    rw [socketsAfter_of_ne hclosed fun hon ↦ ?_, hs]
    rintro rfl
    obtain ⟨inbox, hs'⟩ := hown hon
    obtain rfl := Option.some.inj (hs.symm.trans hs')
    exact hne rfl
  -- every connection that is left was there before, with the same client
  have hcases : ∀ fd s, socketsAfter p.sockets newFd e fd = some s →
      ∃ s₀, p.sockets fd = some s₀ ∧ s₀.client = s.client ∧
        ¬ (fd = newFd ∧ e = .call .closeSocket) := by
    intro fd s hs
    by_cases hself : fd = newFd ∧ e.onConnection = true
    · obtain ⟨rfl, hon⟩ := hself
      obtain ⟨inbox, hs'⟩ := hown hon
      rw [socketsAfter_self hclosed hs' code'] at hs
      split at hs
      · cases hs
      · rename_i hopen
        obtain rfl := Option.some.inj hs
        exact ⟨_, hs', rfl, fun hclose ↦ hopen hclose.2⟩
    · rw [socketsAfter_of_ne hclosed fun hon hfd ↦ hself ⟨hfd, hon⟩] at hs
      refine ⟨s, hs, rfl, ?_⟩
      rintro ⟨rfl, rfl⟩
      exact hself ⟨rfl, rfl⟩
  have hcalls : callsOf id (trace ++ [.thread id e peer]) = callsOf id trace ++ [e] := by
    rw [callsOf_concat, ServerEvent.callOf, if_pos rfl]
    rfl
  refine h.of_thread hk hf rfl (fun _ ↦ rfl) ⟨hlast.step hcode, fun huses ↦ ?_⟩ hothers
    (fun fd s hs ↦ ?_) (fun fd hs ↦ ?_) ?_
  · obtain ⟨inbox, hs⟩ := hconn (hcode.usesConnection huses)
    rw [socketsAfter_self hclosed hs code', if_neg]
    · exact ⟨_, rfl⟩
    · rintro rfl
      cases hcode
      exact absurd (huses.symm.trans hlast) (by decide)
  · obtain ⟨s₀, hs₀, heq, -⟩ := hcases fd s hs
    exact ⟨s₀, hs₀, heq⟩
  · obtain ⟨s, hs⟩ := Option.ne_none_iff_exists'.1 hs
    obtain ⟨s₀, hs₀, -⟩ := hcases fd s hs
    exact h.apart_of_call hopen hdevice hstep (by simp [hs₀])
  · rw [hcalls, List.mem_append, List.mem_singleton, not_or, ← h.unclosed_iff hk]
    constructor
    · rintro ⟨fd, s, hs, rfl⟩
      obtain ⟨s₀, hs₀, heq, hnot⟩ := hcases fd s hs
      refine ⟨⟨fd, s₀, hs₀, heq⟩, ?_⟩
      rintro rfl
      obtain ⟨inbox, hs'⟩ := hown rfl
      exact hnot ⟨h.one _ _ _ _ hs₀ hs' heq, rfl⟩
    · rintro ⟨⟨fd, s, hs, rfl⟩, hne⟩
      by_cases hself : fd = newFd
      · subst hself
        exact ⟨fd, _, (socketsAfter_self hclosed hs code').trans (if_neg (Ne.symm hne)), rfl⟩
      · exact ⟨fd, s, (socketsAfter_of_ne hclosed fun _ ↦ hself).trans hs, rfl⟩

end Call

end Kept

end Kept

end Aesd
