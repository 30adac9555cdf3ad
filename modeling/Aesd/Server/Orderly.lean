import Aesd.Server.Walk

/-!
# The server after any steps

`Orderly` is what holds of the server after any steps: the threads are manned, `main` is sure of the
node it is about, the links make the list, and what was allocated and freed is what the steps say
(`Accounts`).

An orderly server uses no node that was freed (`Orderly.ne_fault`), and `main` can go on in every
state, unless its `malloc` is refused: it waits only for a thread that has set its status, and such
a thread has at most one `unlock` left to make (`Code.Signs`).

## What is said of the steps and what of the state

`createdBy`, `freedBy`, `registered` and `walkOf` are read off the steps alone. `Accounts` ties them
to the state: a node is allocated exactly if it is not among those that were freed. So what is
proved of the state is known of the steps, such as that a node is freed once
(`Accounts.nodup`), and only after its thread has set its status (`setStatus_of_freed`).

## The unchecked `malloc`

`main` does not look at what its `malloc` returns, and stores into it at once. A refused `malloc` is
a fault in the model, and it is the only one (`Server.Grants`).
-/

namespace Aesd

open Memory LinkedList Execution

/-! ### What `main` has done -/

/-- The nodes whose threads were created, in the order of the calls of `pthread_create`. -/
def createdBy (trace : List ServerEvent) : List ℕ :=
  trace.filterMap fun
    | .main (.pthreadCreate a (some _)) => some a
    | _ => none

/-- The nodes that were freed, after a join or because their threads could not be created. -/
def freedBy (trace : List ServerEvent) : List ℕ :=
  trace.filterMap fun
    | .main (.free a) => some a
    | _ => none

/-- The nodes of the threads that were created and not reaped, the newest first. -/
def registered (trace : List ServerEvent) : List ℕ :=
  (createdBy trace).reverse.filter fun a ↦ a ∉ freedBy trace

/-- How far `main` has come along its list. -/
def walkOf (trace : List ServerEvent) : Walk :=
  trace.foldl Walk.after ⟨[], []⟩

/-! ### The invariant -/

/-- What was allocated and freed. -/
structure Accounts (trace : List ServerEvent) (s : Server) : Prop where
  created : s.created = createdBy trace
  /-- The `pthread_t` that `pthread_create` has stored is that of the thread with this node. -/
  ids : ∀ a id, .main (.pthreadCreate a (some id)) ∈ trace →
    ∃ w, s.threads[id]? = some w ∧ w.node = a
  live : ∀ a < s.nodes.next, (s.nodes.record a).isSome = true ↔ a ∉ freedBy trace
  lt : ∀ a ∈ freedBy trace, a < s.nodes.next
  /-- No node is freed twice. -/
  nodup : (freedBy trace).Nodup

/-- What holds of the server after any steps. -/
structure Orderly (trace : List ServerEvent) (s : Server) : Prop where
  manned : Manned trace s
  sure : s.Sure
  lists : Lists (walkOf trace) s
  accounts : Accounts trace s

section Accounts

variable {trace : List ServerEvent} {s s' : Server} {m : MainEvent} {e : ServerEvent}

/-- The walk goes on with each step. -/
theorem walkOf_concat (trace : List ServerEvent) (e : ServerEvent) :
    walkOf (trace ++ [e]) = (walkOf trace).after e := by
  rw [walkOf, List.foldl_append]
  rfl

/-- The threads do not lead along the list. -/
theorem Walk.after_of_thread {r : Walk} (he : ∀ m, e ≠ .main m) : r.after e = r := by
  cases e with
  | main m => exact absurd rfl (he m)
  | _ => rfl

namespace Accounts

/-- A step that neither creates a thread nor frees a node. It may allocate one: what is allocated
afterwards is what was, and what is new. -/
theorem of_step (h : Accounts trace s) (hcreated : createdBy (trace ++ [e]) = createdBy trace)
    (hnew : ∀ a id, e ≠ .main (.pthreadCreate a (some id)))
    (hfreed : freedBy (trace ++ [e]) = freedBy trace) (hthreads : s'.created = s.created)
    (hids : ∀ (id : ℕ) (w : Worker), s.threads[id]? = some w →
      ∃ w', s'.threads[id]? = some w' ∧ w'.node = w.node)
    (hnext : s.nodes.next ≤ s'.nodes.next)
    (hnodes : ∀ a < s'.nodes.next, (s'.nodes.record a).isSome = true ↔
      s.nodes.next ≤ a ∨ (s.nodes.record a).isSome = true) :
    Accounts (trace ++ [e]) s' where
  created := by rw [hcreated, hthreads, h.created]
  ids a id hmem := by
    rcases List.mem_append.1 hmem with hmem | hmem
    · obtain ⟨w, hw, hnode⟩ := h.ids a id hmem
      obtain ⟨w', hw', hnode'⟩ := hids id w hw
      exact ⟨w', hw', hnode'.trans hnode⟩
    · exact absurd (List.mem_singleton.1 hmem).symm (hnew a id)
  live a ha := by
    rw [hfreed, hnodes a ha]
    rcases Nat.lt_or_ge a s.nodes.next with hlt | hge
    · rw [or_iff_right (by omega), h.live a hlt]
    · refine iff_of_true (Or.inl hge) fun hmem ↦ ?_
      have hlt := h.lt a hmem
      omega
  lt a ha := by
    rw [hfreed] at ha
    exact Nat.lt_of_lt_of_le (h.lt a ha) hnext
  nodup := by
    rw [hfreed]
    exact h.nodup

/-- A step that frees a node. The node was allocated, so it was not freed before. -/
theorem free (h : Accounts trace s) {a : ℕ} {n : SlistData} (hn : s.nodes.record a = some n)
    {nodes : Heap SlistData} (hfree : s.nodes.Updates nodes a none) (main : Main) :
    Accounts (trace ++ [.main (.free a)]) { s with nodes, main } := by
  have hfreed : freedBy (trace ++ [.main (.free a)]) = freedBy trace ++ [a] := by
    rw [freedBy, List.filterMap_append]
    rfl
  have hlt := Heap.lt_next_of_record hn
  have hlive : a ∉ freedBy trace := by
    rw [← h.live a hlt, hn]
    rfl
  refine ⟨?_, fun b id hmem ↦ ?_, fun b hb ↦ ?_, fun b hb ↦ ?_, ?_⟩
  · rw [createdBy, List.filterMap_append, ← createdBy, ← h.created]
    exact (List.append_nil _).symm
  · rcases List.mem_append.1 hmem with hmem | hmem
    · exact h.ids b id hmem
    · cases List.mem_singleton.1 hmem
  · rw [hfreed, List.mem_append, List.mem_singleton, hfree.record_eq]
    rw [show Heap.next _ = s.nodes.next from hfree.next_eq] at hb
    split
    · rename_i hself
      exact iff_of_false Bool.false_ne_true fun hout ↦ hout (Or.inr hself)
    · rename_i hne
      rw [or_iff_left hne, h.live b hb]
  · rw [show Heap.next _ = s.nodes.next from hfree.next_eq]
    rw [hfreed, List.mem_append, List.mem_singleton] at hb
    rcases hb with hb | rfl
    · exact h.lt b hb
    · exact hlt
  · rw [hfreed]
    exact List.nodup_append_comm.1 (List.nodup_cons.2 ⟨hlive, h.nodup⟩)

/-- A step of `main` with the threads as they were, that frees no node. -/
theorem of_main (h : Accounts trace s) (hcreated : ∀ a id, m ≠ .pthreadCreate a (some id))
    (hfreed : ∀ a, m ≠ .free a) (hthreads : s'.threads = s.threads)
    (hnext : s.nodes.next ≤ s'.nodes.next)
    (hnodes : ∀ a < s'.nodes.next, (s'.nodes.record a).isSome = true ↔
      s.nodes.next ≤ a ∨ (s.nodes.record a).isSome = true) :
    Accounts (trace ++ [.main m]) s' := by
  refine h.of_step ?_ (fun a id heq ↦ hcreated a id (ServerEvent.main.inj heq)) ?_ ?_ ?_ hnext
    hnodes
  · cases m with
    | pthreadCreate a id =>
      cases id with
      | none => simp [createdBy]
      | some id => exact absurd rfl (hcreated a id)
    | _ => simp [createdBy]
  · cases m with
    | free a => exact absurd rfl (hfreed a)
    | _ => simp [freedBy]
  · rw [Server.created, hthreads, Server.created]
  · intro id w hw
    exact ⟨w, hthreads ▸ hw, rfl⟩

/-- **A step of `main`** keeps the accounts. The node it frees is allocated: that is what it is sure
of when it comes to `free`. -/
theorem mainStep (h : Accounts trace s) (hsure : s.Sure) (hstep : s.MainStep m s') :
    Accounts (trace ++ [.main m]) s' := by
  have hsame : ∀ a < s.nodes.next, (s.nodes.record a).isSome = true ↔
      s.nodes.next ≤ a ∨ (s.nodes.record a).isSome = true := by
    intro a ha
    rw [or_iff_right (by omega)]
  -- a node that is written stays
  have hwrite : ∀ {c : ℕ} {n n' : SlistData} {nodes : Heap SlistData},
      s.nodes.record c = some n → s.nodes.Updates nodes c (some n') → ∀ a < nodes.next,
        (nodes.record a).isSome = true ↔
          s.nodes.next ≤ a ∨ (s.nodes.record a).isSome = true := by
    intro c n n' nodes hn hset a ha
    rw [hset.next_eq] at ha
    rw [hset.record_eq, ← hsame a ha]
    split
    · rename_i hself
      rw [hself, hn]
      exact Iff.rfl
    · exact Iff.rfl
  rw [Server.Sure] at hsure
  cases hstep with
  | malloc n hmain =>
    refine h.of_main (by simp) (by simp) rfl ?_ fun a ha ↦ ?_
    · rw [Heap.next_alloc]
      exact Nat.le_succ _
    · rw [Heap.next_alloc] at ha
      rw [Heap.record_alloc]
      split
      · rename_i hself
        exact iff_of_true rfl (Or.inl hself.ge)
      · rw [or_iff_right (by omega)]
  | @created a n nodes hmain hn hset =>
    have hcreated : createdBy (trace ++ [.main (.pthreadCreate a (some s.threads.length))]) =
        createdBy trace ++ [a] := by
      rw [createdBy, List.filterMap_append]
      rfl
    have hfreed : freedBy (trace ++ [.main (.pthreadCreate a (some s.threads.length))]) =
        freedBy trace := by
      rw [freedBy, List.filterMap_append]
      exact List.append_nil _
    refine ⟨?_, fun b id hmem ↦ ?_, fun b hb ↦ ?_, fun b hb ↦ ?_, ?_⟩
    · rw [hcreated, ← h.created, Server.created, List.map_append]
      rfl
    · rcases List.mem_append.1 hmem with hmem | hmem
      · obtain ⟨w, hw, hnode⟩ := h.ids b id hmem
        exact ⟨w, by rw [List.getElem?_append_left (List.getElem?_eq_some_iff.1 hw).1, hw], hnode⟩
      · cases List.mem_singleton.1 hmem
        exact ⟨_, List.getElem?_concat_length, rfl⟩
    · rw [hfreed, hwrite hn hset b hb]
      have hlt : b < s.nodes.next := hset.next_eq ▸ hb
      rw [or_iff_right (by omega), h.live b hlt]
    · rw [hfreed] at hb
      exact hset.next_eq ▸ h.lt b hb
    · rw [hfreed]
      exact h.nodup
  | freeStruct hmain hfree =>
    rw [hmain] at hsure
    obtain ⟨n, hn, -⟩ := hsure
    exact h.free hn hfree _
  | insertHead hmain hn hset =>
    exact h.of_main (by simp) (by simp) rfl hset.next_eq.ge (hwrite hn hset)
  | removeAfter hmain hm hlink hn hset =>
    exact h.of_main (by simp) (by simp) rfl hset.next_eq.ge (hwrite hm hset)
  | free hmain hfree =>
    rw [hmain] at hsure
    obtain ⟨n, hn, -⟩ := hsure
    exact h.free hn hfree _
  | _ => exact h.of_main (by simp) (by simp) rfl (Nat.le_refl _) hsame

/-- A step of a thread allocates nothing and frees nothing. -/
theorem frame {id : ℕ} {w w' : Worker} (h : Accounts trace s) (hf : Frame s id e s' w w')
    (he : ∀ m, e ≠ .main m) : Accounts (trace ++ [e]) s' := by
  refine h.of_step ?_ (fun a id heq ↦ he _ heq) ?_ hf.created_eq (fun j u hu ↦ ?_) hf.next_eq.ge
    fun a ha ↦ ?_
  · cases e with
    | main m => exact absurd rfl (he m)
    | _ => simp [createdBy]
  · cases e with
    | main m => exact absurd rfl (he m)
    | _ => simp [freedBy]
  · rw [hf.threads_eq, List.getElem?_set]
    split
    · rename_i hself
      subst hself
      obtain rfl := Option.some.inj (hu.symm.trans hf.before)
      exact ⟨w', if_pos (List.getElem?_eq_some_iff.1 hu).1, hf.node_eq⟩
    · exact ⟨u, hu, rfl⟩
  · rw [hf.next_eq] at ha
    rw [hf.isSome_record, or_iff_right (by omega)]

end Accounts

/-- **A step keeps the server orderly.** -/
theorem Orderly.step (h : Orderly trace s) {turn : Turn} (hstep : s.step turn = .ok (e, s')) :
    Orderly (trace ++ [e]) s' := by
  rcases Server.step_cases hstep with ⟨m, rfl, hmain⟩ | ⟨id, hthread⟩
  · refine ⟨h.manned.mainStep h.sure hmain, h.sure.mainStep h.manned hmain, ?_,
      h.accounts.mainStep h.sure hmain⟩
    rw [walkOf_concat]
    exact h.lists.mainStep h.manned h.sure hmain
  · obtain ⟨w, w', hf⟩ := ThreadStep.exists_frame hthread
    have he : ∀ m, e ≠ .main m := by
      rintro m rfl
      cases hthread
    refine ⟨hf.manned h.manned, hf.sure h.sure, ?_, h.accounts.frame hf he⟩
    rw [walkOf_concat, Walk.after_of_thread he]
    exact hf.lists h.lists

/-- At the start there are no threads and no nodes, and the list is empty. -/
theorem Orderly.start (junk : SockaddrStorage) : Orderly [] (.start junk) where
  manned := ⟨List.nodup_nil, by simp [Server.start, Server.created], fun _ _ ↦ rfl,
    by simp [Server.start], by simp [Server.start], by simp [Server.start]⟩
  sure := trivial
  lists := ⟨.nil _, rfl⟩
  accounts := ⟨rfl, by simp, by simp [Server.start, Heap.empty, Heap.next], by simp [freedBy],
    List.nodup_nil⟩

/-- **The server is orderly after every run**, in whatever order `main` and the threads take their
turns and whatever the calls answer. -/
theorem orderly_of_run {junk : SockaddrStorage} {turns : List Turn}
    (hrun : run Server.step (.start junk) turns = .ok (trace, s)) : Orderly trace s :=
  history_of_run (fun _ _ _ _ _ h hstep ↦ h.step hstep) (Orderly.start junk) hrun

/-- With no node in hand, the list has the nodes of the threads that were not reaped. -/
theorem Orderly.listed_eq (h : Orderly trace s) (hhand : s.main.inHand = none) :
    s.listed = registered trace := by
  rw [Server.listed, registered, h.accounts.created]
  refine List.filter_congr fun a ha ↦ ?_
  have hlive := h.accounts.live a (h.manned.lt a (h.accounts.created ▸ List.mem_reverse.1 ha))
  rw [hhand, Bool.eq_iff_iff, Bool.and_eq_true, decide_eq_true_iff, decide_eq_true_iff, hlive]
  exact and_iff_left (by simp)

/-- The thread of a node that is freed is not created afterwards. -/
theorem not_created_after_free {junk : SockaddrStorage} {turns : List Turn}
    {before after : List ServerEvent} {a id : ℕ}
    (hrun : run Server.step (.start junk) turns = .ok (before ++ .main (.free a) :: after, s)) :
    .main (.pthreadCreate a (some id)) ∉ after := by
  intro hmem
  obtain ⟨between, rest, rfl⟩ := List.append_of_mem hmem
  rw [← List.cons_append, ← List.append_assoc] at hrun
  -- just before, the node is not allocated, and `main` creates threads for allocated nodes only
  obtain ⟨turns₁, turn, -, s₁, s₂, -, hrun₁, hstep, -⟩ := exists_step_of_answers hrun
  have h := orderly_of_run hrun₁
  have hfreed : a ∈ freedBy (before ++ .main (.free a) :: between) := by
    simp [freedBy]
  have hnone := mt (h.accounts.live a (h.accounts.lt a hfreed)).1 (not_not_intro hfreed)
  rcases Server.step_cases hstep with ⟨m, hm, hmain⟩ | ⟨j, hthread⟩
  · obtain rfl := ServerEvent.main.inj hm
    cases hmain with
    | created hmain hn hset =>
      rw [hn] at hnone
      exact hnone rfl
  · cases hthread

/-- **No node is freed before its thread has set its status.** -/
theorem setStatus_of_freed {junk : SockaddrStorage} {turns : List Turn}
    {before after : List ServerEvent} {a id : ℕ}
    (hrun : run Server.step (.start junk) turns = .ok (before ++ .main (.free a) :: after, s))
    (hmem : .main (.pthreadCreate a (some id)) ∈ before ++ .main (.free a) :: after) :
    .call .setStatus ∈ callsOf id before := by
  have hbefore : .main (.pthreadCreate a (some id)) ∈ before := by
    rcases List.mem_append.1 hmem with hbefore | hafter
    · exact hbefore
    · rcases List.mem_cons.1 hafter with heq | hafter
      · cases heq
      · exact absurd hafter (not_created_after_free hrun)
  obtain ⟨turns₁, turn, -, s₁, s₂, -, hrun₁, hstep, -⟩ := exists_step_of_answers hrun
  have h := orderly_of_run hrun₁
  obtain ⟨w, hw, rfl⟩ := h.accounts.ids a id hbefore
  have hsure := h.sure
  rw [Server.Sure] at hsure
  rcases Server.step_cases hstep with ⟨m, hm, hmain⟩ | ⟨j, hthread⟩
  · obtain rfl := ServerEvent.main.inj hm
    cases hmain with
    | freeStruct hmain hfree =>
      -- a node without a thread; this one has one
      rw [hmain] at hsure
      obtain ⟨n, -, hnew⟩ := hsure
      exact absurd (Server.mem_created_iff.2 ⟨id, w, hw, rfl⟩) hnew
    | free hmain hfree =>
      rw [hmain] at hsure
      obtain ⟨n, hn, hstatus, -⟩ := hsure
      exact (h.manned.node id w n hw hn).2.1 hstatus
  · cases hthread

end Accounts

/-! ### Steps that can be taken -/

/-- After a thread has set its status it makes at most one more call, an `unlock`. -/
def Code.Signs : Code → Prop
  | .call .setStatus next => next = .ret ∨ next = .call .unlock .ret
  | .call _ next => next.Signs
  | _ => True

namespace Code

variable {code code' : Code} {e : Event}

/-- What follows the reception sets the status last, or before its last `unlock`. -/
theorem signs_handle (l : Locals) : (handle l).Signs := by
  rcases handle_cases l with ⟨seekto, h⟩ | h | h | h <;> rw [h]
  · exact trivial
  · exact Or.inr rfl
  · exact trivial
  · exact Or.inl rfl

/-- So does what follows a scan of what was received. -/
theorem signs_scan (l : Locals) : (scan l).Signs := by
  rcases scan_cases l with h | h <;> rw [h]
  · exact signs_handle l
  · exact trivial

/-- Until the thread sets its status it stays so. -/
theorem Signs.step (h : code.Signs) (hstep : Step code e code') (he : e ≠ .call .setStatus) :
    code'.Signs := by
  cases hstep with
  | call a next =>
    cases a with
    | setStatus => exact absurd rfl he
    | _ => exact h
  | recvNothing l => exact signs_handle l
  | recv l data =>
    rcases received_cases l data with ⟨l', h⟩ | ⟨l', h⟩ <;> rw [h]
    · exact trivial
    · exact signs_scan l'
  | reallocFails l => exact signs_handle l
  | realloc l => exact signs_scan _
  | openIoctlFails => exact Or.inr rfl
  | ioctlFails => exact Or.inl rfl
  | readIoctlEnd => exact Or.inr rfl
  | openReadFails => exact Or.inl rfl
  | readBackEnd => exact Or.inl rfl
  | _ => exact trivial

/-- A thread that has set its status has returned, or has its last `unlock` to make. -/
theorem ret_or_unlock_of_run {events : List Event} {os : List Outcome}
    (hrun : run Code.step threadfunc os = .ok (events, code))
    (hmem : .call .setStatus ∈ events) : code = .ret ∨ code = .call .unlock .ret := by
  -- either it has set the status and is at the end, or it has not and `Signs`
  have hsigned : (.call .setStatus ∈ events ∧ (code = .ret ∨ code = .call .unlock .ret)) ∨
      (.call .setStatus ∉ events ∧ code.Signs) := by
    refine history_of_run (I := fun events code ↦
      (.call .setStatus ∈ events ∧ (code = .ret ∨ code = .call .unlock .ret)) ∨
        (.call .setStatus ∉ events ∧ code.Signs)) ?_ (Or.inr ⟨List.not_mem_nil, trivial⟩) hrun
    rintro events code o e code' (⟨hmem, rfl | rfl⟩ | ⟨hmem, hsigns⟩) hstep
    · exact absurd hstep (by simp [Code.step])
    · obtain ⟨rfl, rfl⟩ := Prod.mk.inj (Except.ok.inj hstep)
      exact Or.inl ⟨List.mem_append_left _ hmem, Or.inl rfl⟩
    · rcases eq_or_ne e (.call .setStatus) with rfl | hne
      · refine Or.inl ⟨List.mem_append_right _ List.mem_cons_self, ?_⟩
        cases step_cases hstep
        exact hsigns
      · refine Or.inr ⟨fun hnew ↦ ?_, hsigns.step (step_cases hstep) hne⟩
        rcases List.mem_append.1 hnew with hnew | hnew
        · exact hmem hnew
        · exact hne (List.mem_singleton.1 hnew).symm
  exact hsigned.elim (fun h ↦ h.2) fun h ↦ absurd hmem h.1

end Code

/-- `main` waits in `pthread_join` for a thread that has set its status and has one `unlock` left to
make. -/
def Server.Waits (s : Server) : Prop :=
  ∃ (a : ℕ) (temp : Option ℕ) (n : SlistData) (addr : SockaddrIn) (newFd : ℕ),
    s.main = .join a temp ∧ s.nodes.record a = some n ∧
    s.threads[n.threadID]? = some (.running a addr newFd (.call .unlock .ret))

/-- `main` can take a step, or it can when one other thread has taken one, whatever that answers. -/
def Server.Advances (s : Server) : Prop :=
  ∀ o : MainOutcome, (∃ e s', s.step (.main o) = .ok (e, s')) ∨
    ∃ id, ∀ o', ∃ e s', s.step (.thread id o') = .ok (e, s') ∧
      ∃ e' s'', s'.step (.main o) = .ok (e', s'')

/-- `malloc` grants `main` its node, if it is the turn of `main` and it asks for one. -/
def Server.Grants (s : Server) : Turn → Prop
  | .main o => ∀ newFd, s.main = .malloc newFd → o.malloc.isSome = true
  | .thread _ _ => True

section Progress

variable {trace : List ServerEvent} {s : Server}

/-- A node that is allocated can be written. -/
theorem Server.exists_setNode {a : ℕ} {n : SlistData} (hn : s.nodes.record a = some n)
    (n' : SlistData) : ∃ nodes, s.setNode a n' = .ok { s with nodes } := by
  obtain ⟨nodes, hset⟩ := Heap.exists_setRecord hn n'
  refine ⟨nodes, ?_⟩
  rw [setNode, hset]

/-- A node that is allocated can be freed. -/
theorem Server.exists_freeNode {a : ℕ} {n : SlistData} (hn : s.nodes.record a = some n) :
    ∃ nodes, s.freeNode a = .ok { s with nodes } := by
  obtain ⟨nodes, hfree⟩ := Heap.exists_freeRecord hn
  refine ⟨nodes, ?_⟩
  rw [freeNode, hfree]

/-- A node of the list can be used. -/
theorem Server.exists_node {a : ℕ} (ha : a ∈ s.listed) : ∃ n, s.nodes.record a = some n :=
  Option.isSome_iff_exists.1 (Server.mem_listed_iff.1 ha).2.1

/-- The thread of a node of the list: it is the one that `threadID` names, and when the status of
the node is set the thread has returned or is about to. -/
theorem Orderly.exists_thread (h : Orderly trace s) {a : ℕ} (ha : a ∈ s.listed) {n : SlistData}
    (hn : s.nodes.record a = some n) :
    ∃ w, s.threads[n.threadID]? = some w ∧ w.node = a ∧
      (n.status = true → w.returned = true ∨
        ∃ addr newFd, w = .running a addr newFd (.call .unlock .ret)) := by
  obtain ⟨id, w, hw, rfl⟩ := Server.mem_created_iff.1 (Server.mem_listed_iff.1 ha).1
  obtain ⟨rfl, hstatus⟩ := h.manned.node id w n hw hn
  refine ⟨w, hw, rfl, fun hset ↦ ?_⟩
  have hran := h.manned.ran _ w hw
  have hmem := hstatus.1 hset
  cases w with
  | created a =>
    rw [show callsOf n.threadID trace = [] from hran] at hmem
    exact absurd hmem List.not_mem_nil
  | running a addr newFd code =>
    obtain ⟨os, hrun⟩ := hran
    rcases Code.ret_or_unlock_of_run hrun hmem with rfl | rfl
    · exact Or.inl rfl
    · exact Or.inr ⟨addr, newFd, rfl⟩

/-- **`main` can go on**, unless its `malloc` is refused, or it waits for a thread that is about to
return. -/
theorem Orderly.exists_mainStep (h : Orderly trace s) (o : MainOutcome) :
    (∃ e s', s.mainStep o = .ok (e, s')) ∨
      (∃ newFd, s.main = .malloc newFd ∧ o.malloc = none) ∨
      (s.Waits ∧ s.mainStep o = .error .blocked) := by
  have hplace := h.lists.place
  have hsure := h.sure
  have hhead := h.lists.seg.eq_head?
  rw [Server.Sure] at hsure
  rw [Server.mainStep]
  cases hmain : s.main with
  | accept => rcases o.accept with - | ⟨newFd, peer⟩ <;> exact Or.inl ⟨_, _, rfl⟩
  | malloc newFd =>
    rcases hgranted : o.malloc with - | junk
    · exact Or.inr (Or.inl ⟨newFd, rfl, rfl⟩)
    · exact Or.inl ⟨_, _, rfl⟩
  | pthreadCreate a =>
    rw [hmain] at hsure
    obtain ⟨n, hn, -⟩ := hsure
    obtain ⟨nodes, hset⟩ := Server.exists_setNode hn { n with threadID := s.threads.length }
    rcases o.created with - | -
    · exact Or.inl ⟨_, _, rfl⟩
    · simp only [Server.node_eq_ok_iff.2 hn, hset, if_true, bind, Except.bind]
      exact Or.inl ⟨_, _, rfl⟩
  | freeStruct a =>
    rw [hmain] at hsure
    obtain ⟨n, hn, -⟩ := hsure
    obtain ⟨nodes, hfree⟩ := Server.exists_freeNode hn
    simp only [hfree, bind, Except.bind]
    exact Or.inl ⟨_, _, rfl⟩
  | insertHead a =>
    rw [hmain] at hsure
    obtain ⟨n, hn, -⟩ := hsure
    obtain ⟨nodes, hset⟩ := Server.exists_setNode hn { n with entries := s.head }
    simp only [Server.node_eq_ok_iff.2 hn, hset, bind, Except.bind]
    exact Or.inl ⟨_, _, rfl⟩
  | first => exact Or.inl ⟨_, _, rfl⟩
  | loop p =>
    -- the node that `main` comes to is the first of those left, so it is on the list
    rcases p with - | a
    · exact Or.inl ⟨_, _, rfl⟩
    · rw [hmain] at hplace
      obtain ⟨hl, hfirst⟩ := hplace
      have ha : a ∈ s.listed := by
        rw [hl]
        exact List.mem_append_right _ (List.mem_of_mem_head? hfirst.symm)
      obtain ⟨n, hn⟩ := Server.exists_node ha
      simp only [Server.node_eq_ok_iff.2 hn, bind, Except.bind]
      exact Or.inl ⟨_, _, rfl⟩
  | test a temp =>
    rw [hmain] at hplace
    obtain ⟨n, hn⟩ := Server.exists_node (s := s) (a := a) (by rw [hplace.1]; simp)
    simp only [Server.node_eq_ok_iff.2 hn, bind, Except.bind]
    exact Or.inl ⟨_, _, rfl⟩
  | join a temp =>
    -- the status is set: the thread has returned, or it is about to unlock and return
    rw [hmain] at hplace hsure
    obtain ⟨n, hn, hstatus⟩ := hsure
    have ha : a ∈ s.listed := by
      rw [hplace.1]
      simp
    obtain ⟨w, hw, rfl, hthread⟩ := h.exists_thread ha hn
    have hreturned : s.returned n.threadID = w.returned := by
      rw [Server.returned, hw]
    simp only [Server.node_eq_ok_iff.2 hn, bind, Except.bind, hreturned]
    rcases hthread hstatus with hret | ⟨addr, newFd, hunlock⟩
    · rw [if_pos hret]
      exact Or.inl ⟨_, _, rfl⟩
    · refine Or.inr (Or.inr ⟨⟨_, temp, n, addr, newFd, hmain, hn, hunlock ▸ hw⟩, if_neg ?_⟩)
      rw [hunlock]
      exact Bool.false_ne_true
  | remove a temp =>
    rw [hmain] at hplace hsure
    obtain ⟨n, hn, -⟩ := hsure
    rw [hplace.1] at hhead
    rcases hcurelm : s.head with - | c
    -- the list is not empty
    · rw [hcurelm] at hhead
      rcases hkept : (walkOf trace).kept with - | ⟨b, kept⟩ <;> simp [hkept] at hhead
    · rcases eq_or_ne c a with rfl | hne
      · simp only [Server.node_eq_ok_iff.2 hn, if_true, bind, Except.bind]
        exact Or.inl ⟨_, _, rfl⟩
      · simp only [if_neg hne]
        exact Or.inl ⟨_, _, rfl⟩
  | search a temp c =>
    rw [hmain] at hplace hsure
    obtain ⟨n, hn, -⟩ := hsure
    obtain ⟨hl, -, hc⟩ := hplace
    obtain ⟨l₁, l₂, hkept⟩ := List.append_of_mem hc
    rw [hkept, List.append_assoc, List.cons_append] at hl
    obtain ⟨m, hm⟩ := Server.exists_node (s := s) (a := c) (by rw [hl]; simp)
    have hlink := h.lists.entries_eq hl hm
    simp only [Server.node_eq_ok_iff.2 hm, bind, Except.bind]
    by_cases hnext : m.entries = some a
    · obtain ⟨nodes, hset⟩ := Server.exists_setNode hm { m with entries := n.entries }
      simp only [if_pos hnext, Server.node_eq_ok_iff.2 hn, hset]
      exact Or.inl ⟨_, _, rfl⟩
    -- the search does not run off the end: the node is behind the one it is at
    · rw [if_neg hnext]
      rcases hentries : m.entries with - | b
      · rw [hentries] at hlink
        rcases l₂ with - | ⟨d, l₂⟩ <;> simp at hlink
      · exact Or.inl ⟨_, _, rfl⟩
  | free a temp =>
    rw [hmain] at hsure
    obtain ⟨n, hn, -⟩ := hsure
    obtain ⟨nodes, hfree⟩ := Server.exists_freeNode hn
    simp only [hfree, bind, Except.bind]
    exact Or.inl ⟨_, _, rfl⟩

/-- **A thread can go on** until it has returned. -/
theorem Orderly.exists_threadStep (h : Orderly trace s) {id : ℕ} {w : Worker}
    (hw : s.threads[id]? = some w) (hgoing : w.returned = false) (o : Outcome) :
    ∃ e s', s.threadStep id o = .ok (e, s') := by
  -- its node was not freed
  obtain ⟨n, hn⟩ : ∃ n, s.nodes.record w.node = some n := by
    rcases hn : s.nodes.record w.node with - | n
    · exact absurd ((h.manned.gone id w hw hn).symm.trans hgoing) (by decide)
    · exact ⟨n, rfl⟩
  rw [Server.threadStep, hw]
  cases w with
  | created a =>
    have hnode : s.node a = .ok n := Server.node_eq_ok_iff.2 hn
    simp only [hnode, bind, Except.bind]
    exact ⟨_, _, rfl⟩
  | running a addr newFd code =>
    obtain ⟨e, code', hstep⟩ := code.exists_step (of_decide_eq_false hgoing) o
    simp only [hstep, bind, Except.bind]
    split
    · exact ⟨_, _, rfl⟩
    · exact ⟨_, _, rfl⟩
    · have hn : s.nodes.record a = some n := hn
      have hnode : ∀ threads, ({ s with threads } : Server).node a = .ok n :=
        fun _ ↦ Server.node_eq_ok_iff.2 hn
      obtain ⟨nodes, hset⟩ := Server.exists_setNode
        (s := { s with threads := s.threads.set id (.running a addr newFd code') }) hn
        { n with status := true }
      simp only [hnode, hset]
      exact ⟨_, _, rfl⟩
    · exact ⟨_, _, rfl⟩

/-- **No step uses a node that was freed.** -/
theorem Orderly.ne_fault (h : Orderly trace s) {turn : Turn} (hgrants : s.Grants turn) :
    s.step turn ≠ .error .fault := by
  cases turn with
  | main o =>
    rw [Server.step]
    rcases h.exists_mainStep o with ⟨e, s', hstep⟩ | ⟨newFd, hmain, hnone⟩ | ⟨-, hblocked⟩
    · simp [hstep, bind, Except.bind]
    · have hsome := hgrants newFd hmain
      rw [hnone] at hsome
      cases hsome
    · simp [hblocked, bind, Except.bind]
  | thread id o =>
    rw [Server.step]
    rcases hw : s.threads[id]? with - | w
    · simp [Server.threadStep, hw]
    · rcases hgoing : w.returned with - | -
      · obtain ⟨e, s', hstep⟩ := h.exists_threadStep hw hgoing o
        simp [hstep]
      · rw [Server.threadStep, hw]
        cases w with
        | created a => cases hgoing
        | running a addr newFd code =>
          obtain rfl := of_decide_eq_true hgoing
          simp [Code.step, bind, Except.bind]

/-- The thread that `main` waits for returns with its next step. -/
theorem Server.Waits.advances (h : s.Waits) : s.Advances := by
  obtain ⟨a, temp, n, addr, newFd, hmain, hn, hw⟩ := h
  intro o
  refine Or.inr ⟨n.threadID, fun o' ↦ ?_⟩
  have hthread : s.step (.thread n.threadID o') = .ok (.thread n.threadID (.call .unlock) none,
      { s with threads := s.threads.set n.threadID (.running a addr newFd .ret) }) := by
    rw [step, threadStep, hw]
    rfl
  have hjoin : ∀ s' : Server, s'.main = .join a temp → s'.nodes.record a = some n →
      s'.returned n.threadID = true → ∃ e s'', s'.step (.main o) = .ok (e, s'') := by
    intro s' hmain' hn' hreturned
    simp only [step, mainStep, hmain', node_eq_ok_iff.2 hn', bind, Except.bind, hreturned, if_true]
    exact ⟨_, _, rfl⟩
  refine ⟨_, _, hthread, hjoin _ hmain hn ?_⟩
  rw [returned]
  dsimp only
  rw [List.getElem?_set_self (List.getElem?_eq_some_iff.1 hw).1]
  rfl

/-- `main` can go on, now or after one step of another thread. -/
theorem Orderly.advances (h : Orderly trace s) (hmalloc : ∀ newFd, s.main ≠ .malloc newFd) :
    s.Advances := by
  intro o
  rcases h.exists_mainStep o with ⟨e, s', hstep⟩ | ⟨newFd, hmain, -⟩ | ⟨hwaits, -⟩
  · refine Or.inl ⟨.main e, s', ?_⟩
    rw [Server.step, hstep]
    rfl
  · exact absurd hmain (hmalloc newFd)
  · exact hwaits.advances o

end Progress

end Aesd
