import Aesd.Server.Main
import Mathlib.Data.List.Nodup

/-!
# The threads and their nodes

What holds of the threads in every state of the server: different threads have different nodes, the
thread of a node that was freed has returned, and the `status` of a node is what its thread has set
(`Manned`). `Server.Sure` is what `main` knows of the node it is about, at each point of the accept
loop: before it takes a node off the list its thread has set its status and has returned.

A thread changes nothing of this but the `status` of its own node (`Frame`).

## Why `pthread_join` and `free` come in time

A node is the argument of its thread: the thread reads it once, when it begins, and writes its
`status` once, near its end. `main` frees a node after `pthread_join`, so when it does the thread
has returned, and there is no call left that could use the node. That is the last clause of
`Server.Sure` at `.free`, and the step of `pthread_join` is where it comes from.

A node whose thread could not be created is freed without a join (`.freeStruct`). It is not among
the nodes of the threads at all.
-/

namespace Aesd

open Memory Execution

/-- The nodes of all threads, in the order in which they were created. -/
def Server.created (s : Server) : List ℕ :=
  s.threads.map Worker.node

/-- What `main` knows of the node it is about. Between `malloc` and `pthread_create` nobody else has
the node; between `pthread_create` and `SLIST_INSERT_HEAD` its thread is the newest one; once its
status is read as set it stays set, and after the join its thread has returned. -/
def Server.Sure (s : Server) : Prop :=
  match s.main with
  | .pthreadCreate a => ∃ n, s.nodes.record a = some n ∧ n.status = false ∧ a ∉ s.created
  | .freeStruct a => ∃ n, s.nodes.record a = some n ∧ a ∉ s.created
  | .insertHead a => ∃ n, s.nodes.record a = some n ∧ ∃ before, s.created = before ++ [a]
  | .join a _ => ∃ n, s.nodes.record a = some n ∧ n.status = true
  | .remove a _ | .search a _ _ | .free a _ => ∃ n, s.nodes.record a = some n ∧ n.status = true ∧
    ∀ (id : ℕ) (w : Worker), s.threads[id]? = some w → w.node = a → w.returned = true
  | _ => True

/-! ### What the threads have done -/

/-- The call of thread `id` in a step. -/
def ServerEvent.callOf (id : ℕ) : ServerEvent → Option Event
  | .thread j e _ => if j = id then some e else none
  | _ => none

/-- The calls of thread `id`. -/
def callsOf (id : ℕ) (trace : List ServerEvent) : List Event :=
  trace.filterMap (ServerEvent.callOf id)

/-- The thread has made these calls, one after the other from the beginning of `threadfunc`. -/
def Worker.Ran (events : List Event) : Worker → Prop
  | .created _ => events = []
  | .running _ _ _ code => ∃ os, run Code.step Code.threadfunc os = .ok (events, code)

/-- The threads, and the nodes they have. -/
structure Manned (trace : List ServerEvent) (s : Server) : Prop where
  /-- Different threads have different nodes, also when some of these are freed. -/
  nodup : s.created.Nodup
  /-- A node that is yet to be allocated is a new one. -/
  lt : ∀ a ∈ s.created, a < s.nodes.next
  /-- A thread that was not created has made no call. -/
  unborn : ∀ id ≥ s.threads.length, callsOf id trace = []
  ran : ∀ (id : ℕ) (w : Worker), s.threads[id]? = some w → w.Ran (callsOf id trace)
  /-- The node of a thread has its `pthread_t`, and the `status` that the thread has set. -/
  node : ∀ (id : ℕ) (w : Worker) (n : SlistData), s.threads[id]? = some w →
    s.nodes.record w.node = some n →
      n.threadID = id ∧ (n.status = true ↔ .call .setStatus ∈ callsOf id trace)
  /-- A node is freed only after its thread has returned. -/
  gone : ∀ (id : ℕ) (w : Worker), s.threads[id]? = some w → s.nodes.record w.node = none →
    w.returned = true

section Threads

variable {trace : List ServerEvent} {s s' : Server} {id j : ℕ} {e : ServerEvent} {w w' : Worker}

theorem callsOf_concat (id : ℕ) (trace : List ServerEvent) (e : ServerEvent) :
    callsOf id (trace ++ [e]) = callsOf id trace ++ (e.callOf id).toList := by
  rw [callsOf, List.filterMap_append]
  rcases hcall : e.callOf id with - | call <;> simp [callsOf, hcall]

theorem callsOf_concat_main (id : ℕ) (trace : List ServerEvent) (m : MainEvent) :
    callsOf id (trace ++ [.main m]) = callsOf id trace := by
  rw [callsOf_concat]
  exact List.append_nil _

theorem Server.mem_created_iff {a : ℕ} :
    a ∈ s.created ↔ ∃ (id : ℕ) (w : Worker), s.threads[id]? = some w ∧ w.node = a := by
  rw [created, List.mem_map]
  constructor
  · rintro ⟨w, hw, rfl⟩
    obtain ⟨id, hid⟩ := List.getElem?_of_mem hw
    exact ⟨id, w, hid, rfl⟩
  · rintro ⟨id, w, hw, rfl⟩
    exact ⟨w, List.mem_of_getElem? hw, rfl⟩

/-- Different threads have different nodes. -/
theorem Manned.id_unique (h : Manned trace s) (hw : s.threads[id]? = some w)
    (hw' : s.threads[j]? = some w') (hnode : w.node = w'.node) : id = j := by
  have hlt : id < s.created.length := by
    rw [Server.created, List.length_map]
    exact (List.getElem?_eq_some_iff.1 hw).1
  refine (List.getElem?_inj hlt h.nodup).1 ?_
  rw [Server.created, List.getElem?_map, List.getElem?_map, hw, hw', Option.map_some,
    Option.map_some, hnode]

/-- What a step of thread `id` changes, if the thread was `w` and is `w'`: where the thread is, and
the `status` of its own node if it sets it. -/
structure Frame (s : Server) (id : ℕ) (e : ServerEvent) (s' : Server) (w w' : Worker) : Prop where
  before : s.threads[id]? = some w
  threads_eq : s'.threads = s.threads.set id w'
  /-- A thread that has returned takes no step. -/
  going : w.returned = false
  node_eq : w'.node = w.node
  head_eq : s'.head = s.head
  theirAddr_eq : s'.theirAddr = s.theirAddr
  main_eq : s'.main = s.main
  next_eq : s'.nodes.next = s.nodes.next
  record_eq : ∀ c, s'.nodes.record c =
    if e = .thread id (.call .setStatus) none ∧ c = w.node
    then (s.nodes.record c).map ({ · with status := true }) else s.nodes.record c
  /-- No other step of the thread is the call that sets the `status`. -/
  silent : e ≠ .thread id (.call .setStatus) none → e.callOf id ≠ some (.call .setStatus)
  /-- What the thread has done is one call longer, or as long as before if it begins. -/
  ran : ∀ trace, w.Ran (callsOf id trace) → w'.Ran (callsOf id (trace ++ [e]))
  others : ∀ j ≠ id, ∀ trace, callsOf j (trace ++ [e]) = callsOf j trace

/-- Every step of a thread is of this kind. -/
theorem ThreadStep.exists_frame (h : Server.ThreadStep s id e s') :
    ∃ w w', Frame s id e s' w w' := by
  have hothers : ∀ (e : Event) (peer : Option InAddr) (j : ℕ), j ≠ id → ∀ trace,
      callsOf j (trace ++ [.thread id e peer]) = callsOf j trace := by
    intro e peer j hne trace
    rw [callsOf_concat, ServerEvent.callOf, if_neg hne.symm]
    exact List.append_nil _
  have hran : ∀ {a newFd : ℕ} {addr : SockaddrIn} {code code' : Code} {o : Outcome} {e : Event}
      (peer : Option InAddr), code.step o = .ok (e, code') → ∀ trace,
      (Worker.running a addr newFd code).Ran (callsOf id trace) →
      (Worker.running a addr newFd code').Ran (callsOf id (trace ++ [.thread id e peer])) := by
    rintro a newFd addr code code' o e peer hstep trace ⟨os, hrun⟩
    rw [callsOf_concat, ServerEvent.callOf, if_pos rfl]
    exact ⟨os ++ [o],
      run_append_eq_ok_iff.2 ⟨_, code, [e], hrun, run_cons_of_ok hstep rfl, rfl⟩⟩
  have hgoing : ∀ {code code' : Code} {o : Outcome} {e : Event}, code.step o = .ok (e, code') →
      decide (code = .ret) = false := by
    intro code code' o e hstep
    rw [decide_eq_false_iff_not]
    rintro rfl
    exact absurd hstep (by simp [Code.step])
  cases h with
  | start hw hn =>
    refine ⟨_, _, hw, rfl, rfl, rfl, rfl, rfl, rfl, rfl, fun c ↦ (if_neg (by simp)).symm,
      fun _ ↦ by simp [ServerEvent.callOf], ?_, ?_⟩
    · intro trace hran
      rw [callsOf_concat, show callsOf id trace = [] from hran]
      exact ⟨[], rfl⟩
    · intro j _ trace
      rw [callsOf_concat]
      exact List.append_nil _
  | logs hw hstep he =>
    refine ⟨_, _, hw, rfl, hgoing hstep, rfl, rfl, rfl, rfl, rfl, fun c ↦ (if_neg ?_).symm,
      fun _ ↦ ?_, hran _ hstep, hothers _ _⟩
    · rcases he with rfl | rfl <;> simp
    · rcases he with rfl | rfl <;> simp [ServerEvent.callOf]
  | @setStatus a newFd addr code code' o n nodes hw hstep hn hset =>
    refine ⟨_, _, hw, rfl, hgoing hstep, rfl, rfl, rfl, rfl, hset.next_eq, fun c ↦ ?_,
      fun hne ↦ absurd rfl hne, hran _ hstep, hothers _ _⟩
    rw [hset.record_eq]
    rcases eq_or_ne c a with rfl | hne
    · rw [if_pos rfl, if_pos ⟨rfl, rfl⟩, hn]
      rfl
    · rw [if_neg hne, if_neg fun hself ↦ hne hself.2]
  | call hw hstep haccepted hclosed hstatus =>
    refine ⟨_, _, hw, rfl, hgoing hstep, rfl, rfl, rfl, rfl, rfl, fun c ↦ (if_neg ?_).symm,
      fun _ ↦ ?_, hran _ hstep, hothers _ _⟩
    · rintro ⟨he, -⟩
      exact hstatus (ServerEvent.thread.inj he).2.1
    · rw [ServerEvent.callOf, if_pos rfl]
      exact fun heq ↦ hstatus (Option.some.inj heq)

namespace Frame

/-- The threads keep their nodes. -/
theorem created_eq (hf : Frame s id e s' w w') : s'.created = s.created := by
  rw [Server.created, hf.threads_eq, List.map_set, hf.node_eq, Server.created]
  refine List.ext_getElem? fun j ↦ ?_
  rw [List.getElem?_set]
  split
  · rename_i hself
    subst hself
    have hlt := (List.getElem?_eq_some_iff.1 hf.before).1
    rw [List.length_map, if_pos hlt, List.getElem?_map, hf.before]
    rfl
  · rfl

/-- What does not depend on the `status` of a node stays as it is. -/
theorem map_record {β : Type*} (hf : Frame s id e s' w w') {f : SlistData → β}
    (hsame : ∀ n : SlistData, f { n with status := true } = f n) (c : ℕ) :
    (s'.nodes.record c).map f = (s.nodes.record c).map f := by
  rw [hf.record_eq]
  split
  · rw [Option.map_map]
    exact congrArg (Option.map · _) (funext hsame)
  · rfl

/-- No thread allocates or frees a node. -/
theorem isSome_record (hf : Frame s id e s' w w') (c : ℕ) :
    (s'.nodes.record c).isSome = (s.nodes.record c).isSome := by
  have hmap := congrArg Option.isSome (hf.map_record (f := fun _ ↦ ()) (fun _ ↦ rfl) c)
  rwa [Option.isSome_map, Option.isSome_map] at hmap

/-- A node keeps its descriptor. -/
theorem exists_newFd (hf : Frame s id e s' w w') {c : ℕ} {n : SlistData}
    (hn : s.nodes.record c = some n) :
    ∃ n', s'.nodes.record c = some n' ∧ n'.newFd = n.newFd := by
  have hmap := hf.map_record (f := SlistData.newFd) (fun _ ↦ rfl) c
  rw [hn] at hmap
  exact Option.map_eq_some_iff.1 hmap

/-- A node stays, and so does its `status` if it is set. -/
theorem exists_record (hf : Frame s id e s' w w') {c : ℕ} {n : SlistData}
    (hn : s.nodes.record c = some n) : ∃ n', s'.nodes.record c = some n' ∧
      (n.status = true → n'.status = true) ∧ (s'.main = .pthreadCreate c → c ∉ s.created →
        n'.status = n.status) := by
  rw [hf.record_eq, hn]
  split
  · rename_i hself
    refine ⟨_, rfl, fun _ ↦ rfl, fun _ hnew ↦ absurd ?_ hnew⟩
    exact Server.mem_created_iff.2 ⟨id, w, hf.before, hself.2.symm⟩
  · exact ⟨n, rfl, fun hset ↦ hset, fun _ _ ↦ rfl⟩

/-- The other threads are where they were. -/
theorem thread_cases (hf : Frame s id e s' w w') {u : Worker} (hu : s'.threads[j]? = some u) :
    (j = id ∧ u = w') ∨ (j ≠ id ∧ s.threads[j]? = some u) := by
  rw [hf.threads_eq, List.getElem?_set] at hu
  split at hu
  · rename_i hself
    subst hself
    split at hu
    · exact Or.inl ⟨rfl, (Option.some.inj hu).symm⟩
    · cases hu
  · rename_i hne
    exact Or.inr ⟨Ne.symm hne, hu⟩

/-- A step of a thread keeps the threads manned: it is the only one with its node, so when it sets
the `status` no other thread's clause is about that node. -/
theorem manned (hf : Frame s id e s' w w') (h : Manned trace s) : Manned (trace ++ [e]) s' where
  nodup := hf.created_eq ▸ h.nodup
  lt := by
    rw [hf.created_eq, hf.next_eq]
    exact h.lt
  unborn j hj := by
    rw [hf.threads_eq, List.length_set] at hj
    have hlt := (List.getElem?_eq_some_iff.1 hf.before).1
    rw [hf.others j (by omega)]
    exact h.unborn j hj
  ran j u hu := by
    rcases hf.thread_cases hu with ⟨rfl, rfl⟩ | ⟨hne, hu⟩
    · exact hf.ran trace (h.ran j w hf.before)
    · rw [hf.others j hne]
      exact h.ran j u hu
  node j u n' hu hn' := by
    rw [hf.record_eq] at hn'
    rcases hf.thread_cases hu with ⟨rfl, rfl⟩ | ⟨hne, hu⟩
    · rw [hf.node_eq, callsOf_concat, List.mem_append, Option.mem_toList] at *
      by_cases hset : e = .thread j (.call .setStatus) none
      · rw [if_pos ⟨hset, rfl⟩, Option.map_eq_some_iff] at hn'
        obtain ⟨n, hn, rfl⟩ := hn'
        refine ⟨(h.node j w n hf.before hn).1, iff_of_true rfl (Or.inr ?_)⟩
        rw [hset, ServerEvent.callOf, if_pos rfl]
      · rw [if_neg fun hself ↦ hset hself.1] at hn'
        rw [or_iff_left (hf.silent hset)]
        exact h.node j w n' hf.before hn'
    · -- it has another node
      rw [if_neg fun hself ↦ hne (h.id_unique hu hf.before hself.2)] at hn'
      rw [hf.others j hne]
      exact h.node j u n' hu hn'
  gone j u hu hnone := by
    rw [← Option.not_isSome_iff_eq_none, hf.isSome_record, Option.not_isSome_iff_eq_none] at hnone
    rcases hf.thread_cases hu with ⟨rfl, rfl⟩ | ⟨hne, hu⟩
    · rw [hf.node_eq] at hnone
      exact absurd ((h.gone j w hf.before hnone).symm.trans hf.going) (by decide)
    · exact h.gone j u hu hnone

/-- What `main` knows stays true while a thread takes a step. A thread that takes one has not
returned, so it is none of those that `main` knows to have. -/
theorem sure (hf : Frame s id e s' w w') (h : s.Sure) : s'.Sure := by
  have hreturned : ∀ {a : ℕ}, (∀ (j : ℕ) (u : Worker), s.threads[j]? = some u → u.node = a →
      u.returned = true) → ∀ (j : ℕ) (u : Worker), s'.threads[j]? = some u → u.node = a →
      u.returned = true := by
    intro a hall j u hu hnode
    rcases hf.thread_cases hu with ⟨rfl, rfl⟩ | ⟨-, hu⟩
    · rw [hf.node_eq] at hnode
      exact absurd ((hall j w hf.before hnode).symm.trans hf.going) (by decide)
    · exact hall j u hu hnode
  have hmain := hf.main_eq
  rw [Server.Sure] at h ⊢
  rw [hmain]
  split at h
  case h_1 hat =>
    -- the node has no thread, so no thread sets its status
    obtain ⟨n, hn, hstatus, hnew⟩ := h
    obtain ⟨n', hn', -, hsame⟩ := hf.exists_record hn
    exact ⟨n', hn', (hsame (hmain.trans hat) hnew).trans hstatus, hf.created_eq ▸ hnew⟩
  case h_2 hat =>
    obtain ⟨n, hn, hnew⟩ := h
    obtain ⟨n', hn', -⟩ := hf.exists_record hn
    exact ⟨n', hn', hf.created_eq ▸ hnew⟩
  case h_3 hat =>
    obtain ⟨n, hn, hlast⟩ := h
    obtain ⟨n', hn', -⟩ := hf.exists_record hn
    exact ⟨n', hn', hf.created_eq ▸ hlast⟩
  case h_4 hat =>
    obtain ⟨n, hn, hstatus⟩ := h
    obtain ⟨n', hn', hset, -⟩ := hf.exists_record hn
    exact ⟨n', hn', hset hstatus⟩
  case h_8 => exact trivial
  all_goals
    obtain ⟨n, hn, hstatus, hall⟩ := h
    obtain ⟨n', hn', hset, -⟩ := hf.exists_record hn
    exact ⟨n', hn', hset hstatus, hreturned hall⟩

end Frame

end Threads

/-! ### Steps of `main` -/

section Steps

variable {trace : List ServerEvent} {s s' : Server} {m : MainEvent} {a : ℕ}

/-- What a step of `main` has to leave for the threads to be manned: it changes no thread, and of a
node that it does not free neither the `threadID` nor the `status`. -/
theorem Manned.of_nodes (h : Manned trace s) (m : MainEvent) (hthreads : s'.threads = s.threads)
    (hnext : s.nodes.next ≤ s'.nodes.next)
    (hnodes : ∀ a ∈ s.created, s'.nodes.record a = s.nodes.record a ∨
      (∃ n n', s.nodes.record a = some n ∧ s'.nodes.record a = some n' ∧
        n'.threadID = n.threadID ∧ n'.status = n.status) ∨
      (s'.nodes.record a = none ∧ ∀ (id : ℕ) (w : Worker), s.threads[id]? = some w →
        w.node = a → w.returned = true)) :
    Manned (trace ++ [.main m]) s' := by
  have hcreated : s'.created = s.created := by rw [Server.created, hthreads, Server.created]
  refine ⟨hcreated ▸ h.nodup, fun a ha ↦ ?_, ?_, ?_, ?_, ?_⟩
  · rw [hcreated] at ha
    exact Nat.lt_of_lt_of_le (h.lt a ha) hnext
  · intro id hid
    rw [callsOf_concat_main]
    exact h.unborn id (hthreads ▸ hid)
  · intro id w hw
    rw [callsOf_concat_main]
    exact h.ran id w (hthreads ▸ hw)
  · intro id w n' hw hn'
    rw [hthreads] at hw
    rw [callsOf_concat_main]
    rcases hnodes w.node (Server.mem_created_iff.2 ⟨id, w, hw, rfl⟩) with
      hsame | ⟨n, n₁, hn, hn₁, hid, hstatus⟩ | ⟨hnone, -⟩
    · exact h.node id w n' hw (hsame ▸ hn')
    · obtain rfl := Option.some.inj (hn₁.symm.trans hn')
      rw [hid, hstatus]
      exact h.node id w n hw hn
    · rw [hnone] at hn'
      cases hn'
  · intro id w hw hnone
    rw [hthreads] at hw
    rcases hnodes w.node (Server.mem_created_iff.2 ⟨id, w, hw, rfl⟩) with
      hsame | ⟨n, n₁, hn, hn₁, -⟩ | ⟨-, hreturned⟩
    · exact h.gone id w hw (hsame ▸ hnone)
    · rw [hnone] at hn₁
      cases hn₁
    · exact hreturned id w hw rfl

/-- A node with another link. -/
theorem record_relink {nodes : Heap SlistData} {n : SlistData} {p : Option ℕ}
    (hn : s.nodes.record a = some n)
    (hset : s.nodes.Updates nodes a (some { n with entries := p })) (c : ℕ) :
    nodes.record c = s.nodes.record c ∨ ∃ n n', s.nodes.record c = some n ∧
      nodes.record c = some n' ∧ n'.threadID = n.threadID ∧ n'.status = n.status := by
  rw [hset.record_eq]
  split
  · rename_i hself
    subst hself
    exact Or.inr ⟨n, _, hn, rfl, rfl, rfl⟩
  · exact Or.inl rfl

/-- A thread is created. -/
theorem Manned.concat (h : Manned trace s) {n : SlistData} {nodes : Heap SlistData}
    (hn : s.nodes.record a = some n) (hstatus : n.status = false) (hnew : a ∉ s.created)
    (hset : s.nodes.Updates nodes a (some { n with threadID := s.threads.length }))
    (m : MainEvent) (main : Main) :
    Manned (trace ++ [.main m])
      { s with nodes, threads := s.threads ++ [.created a], main } := by
  have hcreated : s.created ++ [a] = (s.threads ++ [Worker.created a]).map Worker.node := by
    rw [List.map_append]
    rfl
  have hold : ∀ {id : ℕ} {w : Worker}, s.threads[id]? = some w → w.node ≠ a := by
    rintro id w hw rfl
    exact hnew (Server.mem_created_iff.2 ⟨id, w, hw, rfl⟩)
  have hcases : ∀ {id : ℕ} {w : Worker}, (s.threads ++ [Worker.created a])[id]? = some w →
      s.threads[id]? = some w ∨ (id = s.threads.length ∧ w = .created a) := by
    intro id w hw
    rcases Nat.lt_trichotomy id s.threads.length with hlt | rfl | hgt
    · rw [List.getElem?_append_left hlt] at hw
      exact Or.inl hw
    · rw [List.getElem?_concat_length] at hw
      exact Or.inr ⟨rfl, (Option.some.inj hw).symm⟩
    · rw [List.getElem?_eq_none (by rw [List.length_append, List.length_singleton]; omega)] at hw
      cases hw
  refine ⟨?_, ?_, ?_, ?_, ?_, ?_⟩
  · rw [Server.created, ← hcreated]
    exact List.nodup_append_comm.1 (List.nodup_cons.2 ⟨hnew, h.nodup⟩)
  · rw [Server.created, ← hcreated, hset.next_eq]
    intro c hc
    rcases List.mem_append.1 hc with hc | hc
    · exact h.lt c hc
    · rw [List.mem_singleton.1 hc]
      exact Heap.lt_next_of_record hn
  · intro id hid
    rw [callsOf_concat_main]
    rw [List.length_append] at hid
    exact h.unborn id (by omega)
  · intro id w hw
    rw [callsOf_concat_main]
    rcases hcases hw with hw | ⟨rfl, rfl⟩
    · exact h.ran id w hw
    · exact h.unborn _ (Nat.le_refl _)
  · intro id w n' hw hn'
    rw [callsOf_concat_main]
    rw [hset.record_eq] at hn'
    rcases hcases hw with hw | ⟨rfl, rfl⟩
    · rw [if_neg (hold hw)] at hn'
      exact h.node id w n' hw hn'
    · rw [Worker.node, if_pos rfl] at hn'
      obtain rfl := Option.some.inj hn'
      refine ⟨rfl, iff_of_false ?_ ?_⟩
      · rw [hstatus]
        exact Bool.false_ne_true
      · rw [h.unborn _ (Nat.le_refl _)]
        exact List.not_mem_nil
  · intro id w hw hnone
    rw [hset.record_eq] at hnone
    rcases hcases hw with hw | ⟨rfl, rfl⟩
    · rw [if_neg (hold hw)] at hnone
      exact h.gone id w hw hnone
    · rw [Worker.node, if_pos rfl] at hnone
      cases hnone

/-- **A step of `main`** keeps the threads manned. -/
theorem Manned.mainStep (h : Manned trace s) (hsure : s.Sure) (hstep : s.MainStep m s') :
    Manned (trace ++ [.main m]) s' := by
  rw [Server.Sure] at hsure
  cases hstep with
  | malloc n hmain =>
    refine h.of_nodes _ rfl ?_ fun a ha ↦ Or.inl ?_
    · rw [Heap.next_alloc]
      exact Nat.le_succ _
    · rw [Heap.record_alloc, if_neg (Nat.ne_of_lt (h.lt a ha))]
  | @created a n nodes hmain hn hset =>
    rw [hmain] at hsure
    obtain ⟨n', hn', hstatus, hnew⟩ := hsure
    obtain rfl := Option.some.inj (hn.symm.trans hn')
    exact h.concat hn hstatus hnew hset _ _
  | @freeStruct a nodes hmain hfree =>
    -- the node that is freed has no thread
    rw [hmain] at hsure
    obtain ⟨n, hn, hnew⟩ := hsure
    refine h.of_nodes _ rfl hfree.next_eq.ge fun c hc ↦ Or.inl ?_
    rw [hfree.record_eq, if_neg]
    rintro rfl
    exact hnew hc
  | insertHead hmain hn hset =>
    refine h.of_nodes _ rfl hset.next_eq.ge fun c _ ↦ ?_
    exact (record_relink hn hset c).imp_right Or.inl
  | removeAfter hmain hm hlink hn hset =>
    refine h.of_nodes _ rfl hset.next_eq.ge fun c _ ↦ ?_
    exact (record_relink hm hset c).imp_right Or.inl
  | @free a temp nodes hmain hfree =>
    -- its thread has been joined
    rw [hmain] at hsure
    obtain ⟨n, -, -, hreturned⟩ := hsure
    refine h.of_nodes _ rfl hfree.next_eq.ge fun c _ ↦ ?_
    rw [hfree.record_eq]
    split
    · rename_i hself
      exact Or.inr (Or.inr ⟨rfl, fun id w hw hnode ↦ hreturned id w hw (hnode.trans hself)⟩)
    · exact Or.inl rfl
  | _ => exact h.of_nodes _ rfl (Nat.le_refl _) fun _ _ ↦ Or.inl rfl

/-- **A step of `main`** leads from what it knows of its node to what it knows at the next point. -/
theorem Server.Sure.mainStep (h : s.Sure) (hm : Manned trace s) (hstep : s.MainStep m s') :
    s'.Sure := by
  rw [Server.Sure] at h
  cases hstep with
  | malloc n hmain haddr hstatus =>
    dsimp only [Server.Sure]
    refine ⟨n, ?_, hstatus, fun hmem ↦ Nat.lt_irrefl _ (hm.lt _ hmem)⟩
    rw [Heap.record_alloc, if_pos rfl]
  | created hmain hn hset =>
    dsimp only [Server.Sure]
    refine ⟨_, by rw [hset.record_eq, if_pos rfl], s.created, ?_⟩
    rw [Server.created, List.map_append]
    rfl
  | notCreated hmain =>
    rw [hmain] at h
    obtain ⟨n, hn, -, hnew⟩ := h
    exact ⟨n, hn, hnew⟩
  | @test a temp n hmain hn =>
    dsimp only [Server.Sure]
    rcases hstatus : n.status with - | -
    · exact trivial
    · exact ⟨n, hn, hstatus⟩
  | @join a temp n hmain hn hreturned =>
    -- the `threadID` in the node is that of the thread with this node: that thread is joined
    rw [hmain] at h
    obtain ⟨n', hn', hstatus⟩ := h
    refine ⟨n', hn', hstatus, fun id w hw hnode ↦ ?_⟩
    rw [← hnode] at hn
    rw [(hm.node id w n hw hn).1, Server.returned, hw] at hreturned
    exact hreturned
  | removeHead hmain hhead hn =>
    rw [hmain] at h
    exact h
  | searchFirst hmain hhead hne =>
    rw [hmain] at h
    exact h
  | @removeAfter a c temp n n' nodes hmain hn' hlink hn hset =>
    rw [hmain] at h
    obtain ⟨u, hu, hstatus, hreturned⟩ := h
    rcases record_relink hn' hset a with hsame | ⟨v, v', hv, hv', -, hstatus'⟩
    · exact ⟨u, hsame.trans hu, hstatus, hreturned⟩
    · obtain rfl := Option.some.inj (hu.symm.trans hv)
      exact ⟨v', hv', hstatus'.trans hstatus, hreturned⟩
  | search hmain hn hlink hne =>
    rw [hmain] at h
    exact h
  | acceptFails hmain =>
    rw [Server.Sure, hmain]
    exact trivial
  | _ => exact trivial

end Steps

end Aesd
