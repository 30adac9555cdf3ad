import Aesd.Server.Orderly

/-!
# The peer of a connection

A thread logs the address of its peer when it begins and when it ends. It reads it, as an IPv4
address, through a pointer to `their_addr`, the one variable every `accept` writes, so what it reads
is what the latest `accept` answered (`Served.reads`). That is the address of its own connection as
long as this is an IPv4 address and no client with another one was accepted since
(`keepsPeer_iff_undisturbed`). Of a peer that came over IPv6 it reads the flow label.
-/

namespace Aesd

open Memory Execution

/-- The connection that `accept` answers. -/
def ServerEvent.accepted : ServerEvent → Option (ℕ × SockaddrStorage)
  | .main (.accept conn) => conn
  | _ => none

/-- The step creates thread `id`. -/
def ServerEvent.creates (id : ℕ) : ServerEvent → Bool
  | .main (.pthreadCreate _ (some j)) => j = id
  | _ => false

/-- The latest connection that `accept` answered. -/
def lastAccepted (trace : List ServerEvent) : Option (ℕ × SockaddrStorage) :=
  (trace.filterMap ServerEvent.accepted).getLast?

/-- The connection of thread `id`: the latest one when the thread was created. -/
def connectionOf (id : ℕ) (trace : List ServerEvent) : Option (ℕ × SockaddrStorage) :=
  if trace.any (ServerEvent.creates id) then
    lastAccepted (trace.takeWhile fun e ↦ !e.creates id)
  else none

/-- The step logs the peer of a thread: the thread, and the address it reads. -/
def ServerEvent.logs : ServerEvent → Option (ℕ × Option InAddr)
  | .thread id (.call .logAccepted) read | .thread id (.call .logClosed) read => some (id, read)
  | _ => none

/-- Each time a thread logs its peer, this holds of the steps before, the thread and what it
reads. -/
def AtLogs (P : List ServerEvent → ℕ → Option InAddr → Prop) (trace : List ServerEvent) : Prop :=
  ∀ before e after id read, trace = before ++ e :: after → e.logs = some (id, read) →
    P before id read

/-- What a thread reads, an IPv4 address, is the address of its connection. -/
def KeepsPeer : List ServerEvent → Prop :=
  AtLogs fun before id read ↦ read.map .inet = (connectionOf id before).map Prod.snd

/-- When a thread reads, what the latest `accept` answered is, read as an IPv4 address, the address
of the thread's connection. -/
def Undisturbed : List ServerEvent → Prop :=
  AtLogs fun before id _ ↦
    (lastAccepted before).map (fun conn ↦ .inet conn.2.sinAddr) =
      (connectionOf id before).map Prod.snd

theorem atLogs_iff {P : List ServerEvent → ℕ → Option InAddr → Prop} {l : List ServerEvent} :
    AtLogs P l ↔
      ∀ n < l.length, ∀ x ∈ l[n]?.bind ServerEvent.logs, P (l.take n) x.1 x.2 := by
  constructor
  · rintro h n hn ⟨id, read⟩ hx
    rw [List.getElem?_eq_getElem hn, Option.mem_def, Option.bind_some] at hx
    refine h (l.take n) _ (l.drop (n + 1)) id read ?_ hx
    rw [List.cons_getElem_drop_succ, List.take_append_drop]
  · rintro h before e after id read rfl hlogs
    have hhere := h before.length (by simp) (id, read) (by simpa using hlogs)
    rwa [List.take_left] at hhere

instance {P : List ServerEvent → ℕ → Option InAddr → Prop} [∀ l id read, Decidable (P l id read)]
    (l : List ServerEvent) : Decidable (AtLogs P l) :=
  decidable_of_iff _ atLogs_iff.symm

instance (l : List ServerEvent) : Decidable (KeepsPeer l) :=
  inferInstanceAs (Decidable (AtLogs _ l))

instance (l : List ServerEvent) : Decidable (Undisturbed l) :=
  inferInstanceAs (Decidable (AtLogs _ l))

/-! ### What the threads have from `main` -/

/-- What the node that is handed to a thread has of its connection. -/
def Server.Carries (trace : List ServerEvent) (s : Server) : Prop :=
  match s.main with
  | .malloc newFd => lastAccepted trace = some (newFd, s.theirAddr)
  | .pthreadCreate a =>
    ∃ n, s.nodes.record a = some n ∧ lastAccepted trace = some (n.newFd, s.theirAddr)
  | _ => True

/-- The descriptor that the thread has, or will read, is the one of its connection. -/
def Worker.Serves (trace : List ServerEvent) (s : Server) (id : ℕ) : Worker → Prop
  | .created a => ∀ n, s.nodes.record a = some n →
    ∃ peer, connectionOf id trace = some (n.newFd, peer)
  | .running _ _ newFd _ => ∃ peer, connectionOf id trace = some (newFd, peer)

/-- What the threads have of their connections. -/
structure Served (trace : List ServerEvent) (s : Server) : Prop where
  theirAddr : ∀ conn, lastAccepted trace = some conn → s.theirAddr = conn.2
  carries : s.Carries trace
  threads : ∀ (id : ℕ) (w : Worker), s.threads[id]? = some w → w.Serves trace s id

section Served

variable {trace : List ServerEvent} {s s' : Server} {m : MainEvent} {e : ServerEvent} {id : ℕ}
  {conn : ℕ × SockaddrStorage}

theorem lastAccepted_concat (trace : List ServerEvent) (e : ServerEvent) :
    lastAccepted (trace ++ [e]) = e.accepted.or (lastAccepted trace) := by
  rw [lastAccepted, List.filterMap_append, List.getLast?_append]
  refine congrArg (Option.or · _) ?_
  rcases haccepted : e.accepted with - | conn
  · rw [List.filterMap_cons_none haccepted]
    rfl
  · rw [List.filterMap_cons_some haccepted]
    rfl

theorem connectionOf_concat (h : connectionOf id trace = some conn) (e : ServerEvent) :
    connectionOf id (trace ++ [e]) = some conn := by
  rw [connectionOf] at h ⊢
  split at h
  · rename_i hany
    rw [if_pos (by rw [List.any_append, hany, Bool.true_or]), List.takeWhile_append, if_neg]
    · exact h
    · intro hlen
      obtain ⟨e, he, hcreates⟩ := List.any_eq_true.1 hany
      rw [← (List.takeWhile_prefix _).eq_of_length hlen] at he
      have hnot := List.mem_takeWhile_imp he
      rw [hcreates] at hnot
      cases hnot
  · cases h

/-- The connection of a thread that is created. -/
theorem connectionOf_created (hnew : trace.any (ServerEvent.creates id) = false)
    (he : e.creates id = true) : connectionOf id (trace ++ [e]) = lastAccepted trace := by
  have hall : ∀ d ∈ trace, (!d.creates id) = true := by
    intro d hd
    rw [Bool.not_eq_true']
    exact Bool.eq_false_iff.2 (List.any_eq_false.1 hnew d hd)
  rw [connectionOf, if_pos (by simp [he]), List.takeWhile_append_of_pos hall,
    List.takeWhile_cons_of_neg (by simp [he]), List.append_nil]

/-- Who has a connection was created after an `accept`. -/
theorem lastAccepted_isSome (h : connectionOf id trace = some conn) :
    (lastAccepted trace).isSome = true := by
  rw [connectionOf] at h
  split at h
  · rw [lastAccepted, List.getLast?_isSome]
    intro hnil
    have htake : (trace.takeWhile fun e ↦ !e.creates id).Sublist trace := List.takeWhile_sublist _
    have hsub := htake.filterMap ServerEvent.accepted
    rw [hnil, List.sublist_nil] at hsub
    rw [lastAccepted, hsub] at h
    cases h
  · cases h

/-- A thread that is not there was not created. -/
theorem Orderly.not_created (h : Orderly trace s) (hid : s.threads.length ≤ id) :
    trace.any (ServerEvent.creates id) = false := by
  refine List.any_eq_false.2 fun e he hcreates ↦ ?_
  match e, hcreates with
  | .main (.pthreadCreate a (some j)), hcreates =>
    obtain rfl := of_decide_eq_true hcreates
    obtain ⟨w, hw, -⟩ := h.accounts.ids a j he
    exact absurd (List.getElem?_eq_some_iff.1 hw).1 (by omega)

/-- A node keeps its descriptor. -/
theorem Server.MainStep.newFd_eq (h : s.MainStep m s') {a : ℕ} (hlt : a < s.nodes.next)
    {n' : SlistData} (hn' : s'.nodes.record a = some n') :
    ∃ n, s.nodes.record a = some n ∧ n.newFd = n'.newFd := by
  have hset : ∀ {c : ℕ} {n₀ n₁ : SlistData} {nodes : Heap SlistData},
      s.nodes.record c = some n₀ → s.nodes.Updates nodes c (some n₁) → n₁.newFd = n₀.newFd →
      nodes.record a = some n' → ∃ n, s.nodes.record a = some n ∧ n.newFd = n'.newFd := by
    intro c n₀ n₁ nodes hn₀ hset hfd hrecord
    rw [hset.record_eq] at hrecord
    split at hrecord
    · rename_i hself
      obtain rfl := Option.some.inj hrecord
      exact ⟨n₀, hself ▸ hn₀, hfd.symm⟩
    · exact ⟨n', hrecord, rfl⟩
  have hfree : ∀ {c : ℕ} {nodes : Heap SlistData}, s.nodes.Updates nodes c none →
      nodes.record a = some n' → ∃ n, s.nodes.record a = some n ∧ n.newFd = n'.newFd := by
    intro c nodes hfree hrecord
    rw [hfree.record_eq] at hrecord
    split at hrecord
    · cases hrecord
    · exact ⟨n', hrecord, rfl⟩
  cases h with
  | malloc n hmain =>
    rw [Heap.record_alloc, if_neg (Nat.ne_of_lt hlt)] at hn'
    exact ⟨n', hn', rfl⟩
  | created hmain hn hset' => exact hset hn hset' rfl hn'
  | freeStruct hmain hfree' => exact hfree hfree' hn'
  | insertHead hmain hn hset' => exact hset hn hset' rfl hn'
  | removeAfter hmain hm hlink hn hset' => exact hset hm hset' rfl hn'
  | free hmain hfree' => exact hfree hfree' hn'
  | _ => exact ⟨n', hn', rfl⟩

namespace Served

theorem mainStep (h : Served trace s) (ho : Orderly trace s) (hstep : s.MainStep m s') :
    Served (trace ++ [.main m]) s' := by
  have hcarries := h.carries
  rw [Server.Carries] at hcarries
  -- the threads that were there serve the connections they served
  have hold : ∀ (id : ℕ) (w : Worker), s.threads[id]? = some w →
      w.Serves (trace ++ [.main m]) s' id := by
    intro id w hw
    have hserves := h.threads id w hw
    cases w with
    | created a =>
      intro n' hn'
      have hlt := ho.manned.lt a (Server.mem_created_iff.2 ⟨id, _, hw, rfl⟩)
      obtain ⟨n, hn, hfd⟩ := hstep.newFd_eq hlt hn'
      obtain ⟨peer, hconn⟩ := hserves n hn
      exact ⟨peer, hfd ▸ connectionOf_concat hconn _⟩
    | running a addr newFd code =>
      obtain ⟨peer, hconn⟩ := hserves
      exact ⟨peer, connectionOf_concat hconn _⟩
  -- without a new connection the latest one is still in `their_addr`
  have hsame : (ServerEvent.main m).accepted = none → s'.theirAddr = s.theirAddr →
      s'.threads = s.threads → s'.Carries (trace ++ [.main m]) →
      Served (trace ++ [.main m]) s' := by
    intro hnone haddr hthreads hcarries'
    refine ⟨fun conn hconn ↦ ?_, hcarries', fun id w hw ↦ hold id w (hthreads ▸ hw)⟩
    rw [lastAccepted_concat, hnone, Option.none_or] at hconn
    exact haddr.trans (h.theirAddr conn hconn)
  cases hstep with
  | acceptFails hmain =>
    refine hsame rfl rfl rfl ?_
    rw [Server.Carries, hmain]
    exact trivial
  | accept newFd peer hmain =>
    have hlast : lastAccepted (trace ++ [.main (.accept (some (newFd, peer)))]) =
        some (newFd, peer) := lastAccepted_concat ..
    refine ⟨fun conn hconn ↦ ?_, hlast, hold⟩
    obtain rfl := Option.some.inj (hlast.symm.trans hconn)
    rfl
  | malloc n hmain =>
    rw [hmain] at hcarries
    refine hsame rfl rfl rfl ⟨n, ?_, ?_⟩
    · rw [Heap.record_alloc, if_pos rfl]
    · rw [lastAccepted_concat]
      exact hcarries
  | @created a n nodes hmain hn hset =>
    rw [hmain] at hcarries
    obtain ⟨n', hn', hlast⟩ := hcarries
    obtain rfl := Option.some.inj (hn.symm.trans hn')
    refine ⟨fun conn hconn ↦ ?_, trivial, fun id w hw ↦ ?_⟩
    · rw [lastAccepted_concat] at hconn
      exact h.theirAddr conn hconn
    · rcases Nat.lt_trichotomy id s.threads.length with hlt | rfl | hgt
      · rw [List.getElem?_append_left hlt] at hw
        exact hold id w hw
      · rw [List.getElem?_concat_length] at hw
        obtain rfl := Option.some.inj hw
        intro n' hn'
        rw [hset.record_eq, if_pos rfl] at hn'
        obtain rfl := Option.some.inj hn'
        have hnew := ho.not_created (Nat.le_refl s.threads.length)
        exact ⟨s.theirAddr, (connectionOf_created hnew (by simp [ServerEvent.creates])).trans hlast⟩
      · rw [List.getElem?_eq_none (by rw [List.length_append, List.length_singleton]; omega)] at hw
        cases hw
  | @test a temp n hmain hn =>
    refine hsame rfl rfl rfl ?_
    rcases n.status with - | - <;> exact trivial
  | _ => exact hsame rfl rfl rfl trivial

theorem threadStep (h : Served trace s) (hstep : s.ThreadStep id e s') :
    Served (trace ++ [e]) s' := by
  obtain ⟨w, w', hf⟩ := ThreadStep.exists_frame hstep
  have hlast : lastAccepted (trace ++ [e]) = lastAccepted trace := by
    rw [lastAccepted_concat]
    cases hstep <;> rfl
  -- what the thread has read from its node it keeps
  have hself : w'.Serves (trace ++ [e]) s' id := by
    have hw' : s'.threads[id]? = some w' := by
      rw [hf.threads_eq, List.getElem?_set_self (List.getElem?_eq_some_iff.1 hf.before).1]
    have hserves : ∀ w', s'.threads[id]? = some w' → ∃ a addr newFd code peer,
        w' = .running a addr newFd code ∧ connectionOf id trace = some (newFd, peer) := by
      intro w' hw'
      cases hstep with
      | start hw hn =>
        rw [List.getElem?_set_self (List.getElem?_eq_some_iff.1 hw).1] at hw'
        obtain rfl := Option.some.inj hw'
        obtain ⟨peer, hconn⟩ := h.threads id _ hw _ hn
        exact ⟨_, _, _, _, peer, rfl, hconn⟩
      | _ hw =>
        rw [List.getElem?_set_self (List.getElem?_eq_some_iff.1 hw).1] at hw'
        obtain rfl := Option.some.inj hw'
        obtain ⟨peer, hconn⟩ := h.threads id _ hw
        exact ⟨_, _, _, _, peer, rfl, hconn⟩
    obtain ⟨a, addr, newFd, code, peer, rfl, hconn⟩ := hserves w' hw'
    exact ⟨peer, connectionOf_concat hconn e⟩
  refine ⟨fun conn hconn ↦ ?_, ?_, fun j u hu ↦ ?_⟩
  · rw [hf.theirAddr_eq]
    exact h.theirAddr conn (hlast ▸ hconn)
  · have hcarries := h.carries
    rw [Server.Carries] at hcarries ⊢
    rw [hf.main_eq, hlast, hf.theirAddr_eq]
    split at hcarries
    · exact hcarries
    · obtain ⟨n, hn, hacc⟩ := hcarries
      obtain ⟨n', hn', hfd⟩ := hf.exists_newFd hn
      exact ⟨n', hn', hfd ▸ hacc⟩
    · exact trivial
  · rcases hf.thread_cases hu with ⟨rfl, rfl⟩ | ⟨-, hu⟩
    · exact hself
    · have hserves := h.threads j u hu
      cases u with
      | created a =>
        intro n' hn'
        have hmap := hf.map_record (f := SlistData.newFd) (fun _ ↦ rfl) a
        rw [hn'] at hmap
        obtain ⟨n, hn, hfd⟩ := Option.map_eq_some_iff.1 hmap.symm
        obtain ⟨peer, hconn⟩ := hserves n hn
        exact ⟨peer, hfd ▸ connectionOf_concat hconn e⟩
      | running a addr newFd code =>
        obtain ⟨peer, hconn⟩ := hserves
        exact ⟨peer, connectionOf_concat hconn e⟩

theorem start (junk : SockaddrStorage) : Served [] (.start junk) where
  theirAddr := nofun
  carries := trivial
  threads := nofun

/-- What a thread logs is the address of the latest connection. -/
theorem reads (h : Served trace s) {j : ℕ} {read : Option InAddr} (hstep : s.ThreadStep j e s')
    (hlogs : e.logs = some (id, read)) :
    read = (lastAccepted trace).map fun conn ↦ conn.2.sinAddr := by
  cases hstep with
  | start => cases hlogs
  | logs hw hcode he =>
    obtain ⟨peer, hconn⟩ := h.threads _ _ hw
    obtain ⟨conn, hlast⟩ := Option.isSome_iff_exists.1 (lastAccepted_isSome hconn)
    have haddr := h.theirAddr conn hlast
    rw [hlast, Option.map_some, ← haddr]
    rcases he with rfl | rfl
    · exact (Prod.mk.inj (Option.some.inj hlogs)).2.symm
    · exact (Prod.mk.inj (Option.some.inj hlogs)).2.symm
  | setStatus => cases hlogs
  | call hw hcode haccepted hclosed hstatus =>
    rw [ServerEvent.logs] at hlogs
    · cases hlogs
    · exact fun _ _ heq ↦ haccepted (ServerEvent.thread.inj heq).2.1
    · exact fun _ _ heq ↦ hclosed (ServerEvent.thread.inj heq).2.1

end Served

theorem served_of_run {junk : SockaddrStorage} {turns : List Turn}
    (hrun : run Server.step (.start junk) turns = .ok (trace, s)) : Served trace s := by
  refine history_of_along (C := fun _ _ ↦ True) ?_ (Served.start junk) hrun
    (along_of_forall fun _ _ ↦ trivial)
  intro is rs s₁ turn e s₂ hrun₁ h _ hstep
  rcases Server.step_cases hstep with ⟨m, rfl, hmain⟩ | ⟨id, hthread⟩
  · exact h.mainStep (orderly_of_run hrun₁) hmain
  · exact h.threadStep hthread

end Served

/-- **The peer of a connection.** In every run each thread has the descriptor of its connection, and
the peers that are logged are those of the connections if and only if, whenever a thread logs its
peer, the latest `accept` has left the address of the connection of that thread, which is an IPv4
address. -/
theorem keepsPeer_iff_undisturbed {junk : SockaddrStorage} {turns : List Turn}
    {trace : List ServerEvent} {s : Server}
    (hrun : run Server.step (.start junk) turns = .ok (trace, s)) :
    (∀ (id a : ℕ) (addr : SockaddrIn) (newFd : ℕ) (code : Code),
      s.threads[id]? = some (.running a addr newFd code) →
        ∃ peer, connectionOf id trace = some (newFd, peer)) ∧
    (KeepsPeer trace ↔ Undisturbed trace) := by
  refine ⟨fun id a addr newFd code hw ↦ (served_of_run hrun).threads id _ hw, ?_⟩
  have hreads : AtLogs (fun before _ read ↦
      read = (lastAccepted before).map fun conn ↦ conn.2.sinAddr) trace := by
    rintro before e after id read rfl hlogs
    obtain ⟨turns₁, turn, -, s₁, s₂, -, hrun₁, hstep, -⟩ := exists_step_of_answers hrun
    rcases Server.step_cases hstep with ⟨m, rfl, -⟩ | ⟨j, hthread⟩
    · cases hlogs
    · exact (served_of_run hrun₁).reads hthread hlogs
  have hsame : ∀ before e after id read, trace = before ++ e :: after → e.logs = some (id, read) →
      read.map SockaddrStorage.inet =
        (lastAccepted before).map fun conn ↦ .inet conn.2.sinAddr := by
    intro before e after id read hsplit hlogs
    rw [hreads before e after id read hsplit hlogs, Option.map_map]
    rfl
  constructor
  · intro h before e after id read hsplit hlogs
    rw [← hsame before e after id read hsplit hlogs]
    exact h before e after id read hsplit hlogs
  · intro h before e after id read hsplit hlogs
    rw [hsame before e after id read hsplit hlogs]
    exact h before e after id read hsplit hlogs

/-- Two clients with different addresses. The second one is accepted after the thread of the first
has logged both its messages; a third one, accepted before the second has logged any, has the same
address as the second. -/
theorem keepsPeer_iff_undisturbed_two_addresses :
    let main : ℕ × SockaddrStorage → Turn := fun conn ↦
      .main ⟨some conn, some ⟨0, false, 0, .theirAddr, none⟩, true⟩
    let turns := List.replicate 8 (main (4, .inet 1)) ++
      List.replicate 16 (.thread 0 (.granting [97, newline])) ++
        List.replicate 10 (main (5, .inet 2)) ++ [main (6, .inet 2)] ++
          List.replicate 19 (.thread 1 (.granting [98, newline]))
    ∃ trace s, run Server.step (.start (.inet 0)) turns = .ok (trace, s) ∧
      trace.filterMap ServerEvent.logs = [(0, some 1), (0, some 1), (1, some 2), (1, some 2)] ∧
      lastAccepted trace = some (6, .inet 2) ∧ connectionOf 1 trace = some (5, .inet 2) ∧
      KeepsPeer trace := by
  intro main turns
  have heval : (run Server.step (.start (.inet 0)) turns).map (fun z ↦
      (decide (Undisturbed z.1 ∧ lastAccepted z.1 = some (6, .inet 2) ∧
        connectionOf 1 z.1 = some (5, .inet 2)), z.1.filterMap ServerEvent.logs)) =
      .ok (true, [(0, some 1), (0, some 1), (1, some 2), (1, some 2)]) := by
    decide +kernel
  obtain ⟨⟨trace, s⟩, hrun, hend⟩ := exists_of_map_eq_ok heval
  simp only [Prod.mk.injEq, decide_eq_true_eq] at hend
  obtain ⟨⟨hundisturbed, hlast, hconn⟩, hlogs⟩ := hend
  exact ⟨trace, s, hrun, hlogs, hlast, hconn, (keepsPeer_iff_undisturbed hrun).2.2 hundisturbed⟩

/-- A second client is accepted before the thread of the first one has logged its peer: the thread
logs the address of the second. -/
theorem peer_of_other_client_logged :
    let main : ℕ × SockaddrStorage → Turn := fun conn ↦
      .main ⟨some conn, some ⟨0, false, 0, .theirAddr, none⟩, true⟩
    let turns := List.replicate 8 (main (4, .inet 1)) ++ [main (5, .inet 2)] ++
      List.replicate 2 (.thread 0 (.granting []))
    ∃ before s, run Server.step (.start (.inet 0)) turns =
        .ok (before ++ [.thread 0 (.call .logAccepted) (some 2)], s) ∧
      connectionOf 0 before = some (4, .inet 1) ∧
      ¬ KeepsPeer (before ++ [.thread 0 (.call .logAccepted) (some 2)]) := by
  intro main turns
  let before : List ServerEvent := ([.accept (some (4, .inet 1)), .malloc 0,
    .pthreadCreate 0 (some 0), .insertHead 0, .first, .next 0, .test 0 false, .endPass,
    .accept (some (5, .inet 2))] : List MainEvent).map .main ++ [.start 0]
  have heval : (run Server.step (.start (.inet 0)) turns).map Prod.fst =
      .ok (before ++ [.thread 0 (.call .logAccepted) (some 2)]) := by
    decide +kernel
  obtain ⟨⟨trace, s⟩, hrun, rfl⟩ := exists_of_map_eq_ok heval
  exact ⟨before, s, hrun, by decide, by decide⟩

end Aesd
