import Aesd.Server.Roster

/-!
# The list of threads

The links lead from `head` past the nodes of the threads that were created and not reaped, except
one that `main` has in hand (`Server.listed`, `Lists`). `main` goes along that list (`Walk`): it has
come past some nodes and left them there, and the nodes it has not come to begin at the pointer it
holds (`Main.At`). A step of `main` does to the list what it does to the walk (`Lists.mainStep`).

## What `temp` is for

`SLIST_FOREACH` is not used: the loop reads the link of a node (`temp = SLIST_NEXT(node, entries)`)
before it may free the node, and goes on from `temp`. So at the points where a node is in hand the
walk has it in neither part: `kept` ends before it and `todo` begins at `temp`.

## `SLIST_REMOVE`

The macro takes the head off when the node is the head, and otherwise searches from the head for the
node whose link leads to it. The search stays among the nodes that were kept, and it ends at the
last of them: the nodes of the list are distinct, so a link to the node stands nowhere else. No step
of it reads a link of a node that is not on the list.
-/

namespace Aesd

open Memory LinkedList

/-- The links of the nodes: `none` for a node that is not allocated, `some none` for the last. -/
def Server.links (s : Server) (a : ℕ) : Option (Option ℕ) :=
  (s.nodes.record a).map SlistData.entries

/-- The node that `main` has in hand: it is allocated and not on the list. -/
def Main.inHand : Main → Option ℕ
  | .pthreadCreate a | .freeStruct a | .insertHead a | .free a _ => some a
  | _ => none

/-- The nodes on the list, the newest first. It is said of the nodes and not of the links: that the
links lead along these nodes is what `Lists` says. -/
def Server.listed (s : Server) : List ℕ :=
  s.created.reverse.filter fun a ↦ (s.nodes.record a).isSome && decide (s.main.inHand ≠ some a)

/-- How far `main` has come along the list. -/
structure Walk where
  /-- The nodes it has come past and left there. -/
  kept : List ℕ
  /-- The nodes it has not come to. -/
  todo : List ℕ

/-- The walk after a step. A new node is the first one that the next pass comes to; a node that is
reaped goes out of the walk when `main` reads its link, and does not come back. -/
def Walk.after (r : Walk) : ServerEvent → Walk
  | .main (.insertHead a) => ⟨[], a :: (r.kept ++ r.todo)⟩
  | .main (.next _) => { r with todo := r.todo.tail }
  | .main (.test a false) => { r with kept := r.kept ++ [a] }
  | _ => r

/-- Where on the list `l` the variables of `main` point to. -/
def Main.At (l : List ℕ) (r : Walk) : Main → Prop
  | .first => r.kept = [] ∧ l = r.todo
  | .loop p => l = r.kept ++ r.todo ∧ p = r.todo.head?
  | .test a temp | .join a temp | .remove a temp =>
    l = r.kept ++ a :: r.todo ∧ temp = r.todo.head?
  | .search a temp c => l = r.kept ++ a :: r.todo ∧ temp = r.todo.head? ∧ c ∈ r.kept
  | .free _ temp => l = r.kept ++ r.todo ∧ temp = r.todo.head?
  | _ => l = r.kept ++ r.todo

/-- The links make the list, and `main` is somewhere along it. -/
structure Lists (r : Walk) (s : Server) : Prop where
  seg : Seg s.links s.head s.listed none
  place : s.main.At s.listed r

section Frame

variable {s s' : Server} {id : ℕ} {e : ServerEvent} {w w' : Worker}

namespace Frame

/-- No thread writes a link. -/
theorem links_eq (hf : Frame s id e s' w w') : s'.links = s.links :=
  funext fun c ↦ hf.map_record (fun _ ↦ rfl) c

/-- No thread puts a node on the list or takes one off. -/
theorem listed_eq (hf : Frame s id e s' w w') : s'.listed = s.listed := by
  rw [Server.listed, hf.created_eq, hf.main_eq, Server.listed]
  exact List.filter_congr fun a _ ↦ by rw [hf.isSome_record]

/-- A step of a thread leaves the list and the walk as they are. -/
theorem lists {r : Walk} (hf : Frame s id e s' w w') (h : Lists r s) : Lists r s' where
  seg := by
    rw [hf.links_eq, hf.head_eq, hf.listed_eq]
    exact h.seg
  place := by
    rw [hf.main_eq, hf.listed_eq]
    exact h.place

end Frame

end Frame

/-! ### Steps of `main` -/

section Steps

variable {trace : List ServerEvent} {s s' : Server} {m : MainEvent} {r : Walk} {a : ℕ}

namespace Server

theorem mem_listed_iff : a ∈ s.listed ↔
    a ∈ s.created ∧ (s.nodes.record a).isSome = true ∧ s.main.inHand ≠ some a := by
  rw [listed, List.mem_filter, List.mem_reverse, Bool.and_eq_true, decide_eq_true_iff]

/-- The list is the same when the same nodes are allocated and the same one is in hand. -/
theorem listed_congr (hcreated : s'.created = s.created) (hsame : ∀ a ∈ s.created,
    ((s'.nodes.record a).isSome && decide (s'.main.inHand ≠ some a)) =
      ((s.nodes.record a).isSome && decide (s.main.inHand ≠ some a))) :
    s'.listed = s.listed := by
  rw [listed, hcreated, listed]
  exact List.filter_congr fun a ha ↦ hsame a (List.mem_reverse.1 ha)

/-- No node is on the list twice. -/
theorem listed_nodup (h : Manned trace s) : s.listed.Nodup :=
  (List.nodup_reverse.2 h.nodup).filter _

/-- A node of the list is taken in hand. -/
theorem listed_of_inHand (h : Manned trace s) (hcreated : s'.created = s.created)
    (hlive : ∀ a, (s'.nodes.record a).isSome = (s.nodes.record a).isSome) {main main' : Main}
    (hmain : s.main = main) (hbefore : main.inHand = none) (hmain' : s'.main = main')
    (hafter : main'.inHand = some a) {l l' : List ℕ} (hl : s.listed = l ++ a :: l') :
    s'.listed = l ++ l' := by
  have hfilter : s'.listed = s.listed.filter fun c ↦ decide (c ≠ a) := by
    rw [listed, hcreated, listed, List.filter_filter]
    refine List.filter_congr fun c _ ↦ ?_
    rw [hlive, hmain, hbefore, hmain', hafter]
    rcases eq_or_ne c a with rfl | hne
    · simp
    · simp [hne, hne.symm]
  -- it is on the list only once, so without it the rest is left
  have hdistinct := listed_nodup h
  rw [hl, List.nodup_middle, List.nodup_cons] at hdistinct
  rw [hfilter, hl, List.filter_append, List.filter_cons, if_neg (by simp), ← List.filter_append]
  refine List.filter_eq_self.2 fun c hc ↦ decide_eq_true ?_
  rintro rfl
  exact hdistinct.1 hc

end Server

namespace Lists

/-- `main` goes on, and has the same node in hand. -/
theorem of_main (h : Lists r s) {r' : Walk} {main main' : Main} (theirAddr : SockaddrStorage)
    (hmain : s.main = main) (hhand : main'.inHand = main.inHand) (hplace : main'.At s.listed r') :
    Lists r' { s with theirAddr, main := main' } := by
  have hlisted : ({ s with theirAddr, main := main' } : Server).listed = s.listed := by
    refine Server.listed_congr rfl fun a _ ↦ ?_
    rw [hmain, hhand]
  exact ⟨hlisted ▸ h.seg, hlisted ▸ hplace⟩

/-- A node that is not on the list changes. -/
theorem of_nodes (h : Lists r s) (hhead : s'.head = s.head) (hlisted : s'.listed = s.listed)
    (hnodes : ∀ c ∈ s.listed, s'.nodes.record c = s.nodes.record c)
    (hplace : s'.main.At s.listed r) : Lists r s' := by
  refine ⟨?_, hlisted ▸ hplace⟩
  rw [hhead, hlisted]
  exact h.seg.congr fun c hc ↦ by rw [Server.links, hnodes c hc, Server.links]

/-- What the record of a node on the list has as its link. -/
theorem entries_eq (h : Lists r s) {l l' : List ℕ} (hl : s.listed = l ++ a :: l') {n : SlistData}
    (hn : s.nodes.record a = some n) : n.entries = l'.head? := by
  have hseg := h.seg
  rw [hl] at hseg
  have hlink := hseg.link_eq
  rw [Server.links, hn] at hlink
  exact Option.some.inj hlink

/-- The node in hand is put on the list. -/
theorem insertHead (h : Lists r s) (hm : Manned trace s) (hsure : s.Sure) {n : SlistData}
    (hmain : s.main = .insertHead a)
    (hset : s.nodes.Updates s'.nodes a (some { n with entries := s.head }))
    (hcreated : s'.created = s.created) (hhead : s'.head = some a) (hmain' : s'.main = .first) :
    Lists ⟨[], a :: (r.kept ++ r.todo)⟩ s' := by
  have hplace := h.place
  rw [Server.Sure, hmain] at hsure
  rw [hmain] at hplace
  obtain ⟨-, -, before, hlast⟩ := hsure
  have hnew : a ∉ before := by
    have hdistinct := hm.nodup
    rw [hlast] at hdistinct
    exact (List.nodup_cons.1 (List.nodup_append_comm.1 hdistinct)).1
  -- as long as it is in hand it is not on the list
  have hout : a ∉ s.listed := by
    rw [Server.mem_listed_iff, hmain]
    exact fun hmem ↦ hmem.2.2 rfl
  have hlisted : s'.listed = a :: s.listed := by
    rw [Server.listed, Server.listed, hcreated, hlast, List.reverse_concat, List.filter_cons,
      List.filter_cons, hset.record_eq, if_pos rfl, hmain, hmain', if_pos (by simp [Main.inHand]),
      if_neg (by simp [Main.inHand])]
    refine congrArg (a :: ·) (List.filter_congr fun c hc ↦ ?_)
    have hne : c ≠ a := by
      rintro rfl
      exact hnew (List.mem_reverse.1 hc)
    rw [hset.record_eq, if_neg hne]
    simp [Main.inHand, hne.symm]
  refine ⟨?_, ?_⟩
  · rw [hlisted, hhead]
    refine h.seg.insertHead ?_ fun c hc ↦ ?_
    · rw [Server.links, hset.record_eq, if_pos rfl]
      rfl
    · rw [Server.links, hset.record_eq, if_neg, Server.links]
      rintro rfl
      exact hout hc
  · rw [hlisted, hmain', hplace]
    exact ⟨rfl, rfl⟩

/-- The head of the list is taken off. -/
theorem removeHead (h : Lists r s) (hm : Manned trace s) {temp : Option ℕ} {n : SlistData}
    (hmain : s.main = .remove a temp) (hhead : s.head = some a)
    (hn : s.nodes.record a = some n) (hnodes : s'.nodes = s.nodes) (hhead' : s'.head = n.entries)
    (hcreated : s'.created = s.created) (hmain' : s'.main = .free a temp) : Lists r s' := by
  have hplace := h.place
  rw [hmain] at hplace
  obtain ⟨hl, htemp⟩ := hplace
  have hfirst := h.seg.eq_head?
  have hdistinct := Server.listed_nodup hm
  rw [hhead, hl] at hfirst
  rw [hl] at hdistinct
  -- the node is the head, so there is none before it
  have hkept : r.kept = [] := eq_nil_of_head?_eq hdistinct hfirst.symm
  rw [hkept, List.nil_append] at hl
  have hlisted : s'.listed = r.todo :=
    Server.listed_of_inHand (l := []) hm hcreated (fun c ↦ by rw [hnodes]) hmain rfl hmain' rfl hl
  have hseg := h.seg
  rw [hl] at hseg
  refine ⟨?_, ?_⟩
  · rw [hlisted, hhead', h.entries_eq (l := []) hl hn]
    exact hseg.tail.congr fun c _ ↦ by rw [Server.links, hnodes, Server.links]
  · rw [hlisted, hmain']
    exact ⟨by rw [hkept, List.nil_append], htemp⟩

/-- The node after `c` is taken off the list. -/
theorem removeAfter (h : Lists r s) (hm : Manned trace s) {c : ℕ} {temp : Option ℕ}
    {n m : SlistData} (hmain : s.main = .search a temp c) (hrecord : s.nodes.record c = some m)
    (hlink : m.entries = some a) (hn : s.nodes.record a = some n)
    (hset : s.nodes.Updates s'.nodes c (some { m with entries := n.entries }))
    (hhead' : s'.head = s.head) (hcreated : s'.created = s.created)
    (hmain' : s'.main = .free a temp) : Lists r s' := by
  have hplace := h.place
  rw [hmain] at hplace
  obtain ⟨hl, htemp, hc⟩ := hplace
  obtain ⟨l₁, l₂, hkept⟩ := List.append_of_mem hc
  have hdistinct := Server.listed_nodup hm
  rw [hkept, List.append_assoc, List.cons_append] at hl
  -- the nodes before it end with `c`
  obtain rfl : l₂ = [] := by
    have hnext := h.entries_eq hl hrecord
    rw [hlink] at hnext
    rw [hl] at hdistinct
    exact eq_nil_of_head?_eq (List.nodup_cons.1 (List.nodup_append.1 hdistinct).2.1).2 hnext.symm
  have hlisted : s'.listed = l₁ ++ c :: r.todo := by
    have hsplit : s.listed = (l₁ ++ [c]) ++ a :: r.todo := by
      rw [hl, List.append_assoc]
      rfl
    rw [List.append_cons]
    refine Server.listed_of_inHand hm hcreated (fun b ↦ ?_) hmain rfl hmain' rfl hsplit
    rw [hset.record_eq]
    split
    · rename_i hself
      rw [hself, hrecord]
      rfl
    · rfl
  have hseg := h.seg
  rw [hl] at hseg
  refine ⟨?_, ?_⟩
  · rw [hlisted, hhead']
    refine hseg.removeAfter ?_ fun b hb ↦ ?_
    · rw [Server.links, Server.links, hset.record_eq, if_pos rfl, hn]
      rfl
    · rw [Server.links, hset.record_eq, if_neg hb, Server.links]
  · rw [hlisted, hmain']
    exact ⟨by rw [hkept, List.append_cons], htemp⟩

/-- **A step of `main`** leads along the list as the walk says. -/
theorem mainStep (h : Lists r s) (hm : Manned trace s) (hsure : s.Sure) (hstep : s.MainStep m s') :
    Lists (r.after (.main m)) s' := by
  have hplace := h.place
  have hhand : ∀ {c : ℕ}, c ∈ s.listed → s.main.inHand ≠ some c :=
    fun hc ↦ (Server.mem_listed_iff.1 hc).2.2
  cases hstep with
  | acceptFails => exact h
  | accept newFd peer hmain =>
    rw [hmain] at hplace
    exact h.of_main peer hmain rfl hplace
  | malloc n hmain =>
    -- the new node has a number of its own, and no thread yet
    rw [hmain] at hplace
    have hold : ∀ c ∈ s.created, (s.nodes.alloc [n]).record c = s.nodes.record c := by
      intro c hc
      rw [Heap.record_alloc, if_neg (Nat.ne_of_lt (hm.lt c hc))]
    refine h.of_nodes rfl (Server.listed_congr rfl fun c hc ↦ ?_)
      (fun c hc ↦ hold c (Server.mem_listed_iff.1 hc).1) hplace
    rw [hold c hc, hmain]
    simp [Main.inHand, (Nat.ne_of_lt (hm.lt c hc)).symm]
  | @created a n nodes hmain hn hset =>
    -- the node has a thread now, but it is still in hand
    rw [hmain] at hplace hhand
    have hlisted : ({ s with
        nodes, threads := s.threads ++ [.created a], main := .insertHead a } : Server).listed =
        s.listed := by
      rw [Server.listed, Server.created, List.map_append, List.map_singleton, List.reverse_concat,
        List.filter_cons, if_neg (by simp [Main.inHand, Worker.node]), Server.listed]
      refine List.filter_congr fun c _ ↦ ?_
      rw [hset.record_eq, hmain]
      split
      · rename_i hself
        simp [Main.inHand, hself]
      · rfl
    refine h.of_nodes rfl hlisted (fun c hc ↦ ?_) hplace
    rw [hset.record_eq, if_neg]
    rintro rfl
    exact hhand hc rfl
  | notCreated hmain =>
    rw [hmain] at hplace
    exact h.of_main s.theirAddr hmain rfl hplace
  | @freeStruct a nodes hmain hfree =>
    rw [hmain] at hplace
    rw [Server.Sure, hmain] at hsure
    obtain ⟨n, -, hnew⟩ := hsure
    have hold : ∀ c ∈ s.created, nodes.record c = s.nodes.record c := by
      intro c hc
      rw [hfree.record_eq, if_neg]
      rintro rfl
      exact hnew hc
    refine h.of_nodes rfl (Server.listed_congr rfl fun c hc ↦ ?_)
      (fun c hc ↦ hold c (Server.mem_listed_iff.1 hc).1) hplace
    have hne : a ≠ c := by
      rintro rfl
      exact hnew hc
    rw [hold c hc, hmain]
    simp [Main.inHand, hne]
  | insertHead hmain hn hset => exact h.insertHead hm hsure hmain hset rfl rfl rfl
  | first hmain =>
    rw [hmain] at hplace
    obtain ⟨hkept, hl⟩ := hplace
    refine h.of_main s.theirAddr hmain rfl ⟨?_, ?_⟩
    · show s.listed = r.kept ++ r.todo
      rw [hkept, hl, List.nil_append]
    · show s.head = r.todo.head?
      rw [h.seg.eq_head?, hl]
  | endPass hmain =>
    rw [hmain] at hplace
    exact h.of_main s.theirAddr hmain rfl hplace.1
  | @next a n hmain hn =>
    -- `temp` is the link of the node, which is where the rest of the list begins
    rw [hmain] at hplace
    obtain ⟨hl, hfirst⟩ := hplace
    obtain ⟨rest, htodo⟩ : ∃ rest, r.todo = a :: rest :=
      ⟨r.todo.tail, (List.cons_head?_tail hfirst.symm).symm⟩
    rw [htodo] at hl
    refine h.of_main s.theirAddr hmain rfl ⟨?_, ?_⟩
    · show s.listed = r.kept ++ a :: r.todo.tail
      rw [hl, htodo]
      rfl
    · show n.entries = r.todo.tail.head?
      rw [h.entries_eq hl hn, htodo]
      rfl
  | @test a temp n hmain hn =>
    rw [hmain] at hplace
    obtain ⟨hl, htemp⟩ := hplace
    rcases hstatus : n.status with - | -
    -- the thread has not finished: its node is kept
    · refine h.of_main s.theirAddr hmain rfl ⟨?_, htemp⟩
      show s.listed = r.kept ++ [a] ++ r.todo
      rw [hl, List.append_assoc]
      rfl
    · exact h.of_main s.theirAddr hmain rfl ⟨hl, htemp⟩
  | join hmain hn hreturned =>
    rw [hmain] at hplace
    exact h.of_main s.theirAddr hmain rfl hplace
  | removeHead hmain hhead hn => exact h.removeHead hm hmain hhead hn rfl rfl rfl rfl
  | @searchFirst a c temp hmain hhead hne =>
    -- the head is another node, so it is one that was kept
    rw [hmain] at hplace
    obtain ⟨hl, htemp⟩ := hplace
    refine h.of_main s.theirAddr hmain rfl ⟨hl, htemp, ?_⟩
    have hfirst := h.seg.eq_head?
    rw [hhead, hl] at hfirst
    obtain ⟨kept, hkept⟩ := exists_eq_cons_of_head?_eq hfirst.symm hne
    show c ∈ r.kept
    rw [hkept]
    exact List.mem_cons_self
  | removeAfter hmain hm' hlink hn hset =>
    exact h.removeAfter hm hmain hm' hlink hn hset rfl rfl rfl
  | @search a c c' temp n hmain hn hlink hne =>
    -- the node after a kept one is the one to remove or a kept one again
    rw [hmain] at hplace
    obtain ⟨hl, htemp, hc⟩ := hplace
    refine h.of_main s.theirAddr hmain rfl ⟨hl, htemp, ?_⟩
    obtain ⟨l₁, l₂, hkept⟩ := List.append_of_mem hc
    rw [hkept, List.append_assoc, List.cons_append] at hl
    have hnext := h.entries_eq hl hn
    rw [hlink] at hnext
    obtain ⟨l₃, rfl⟩ := exists_eq_cons_of_head?_eq hnext.symm hne
    show c' ∈ r.kept
    rw [hkept]
    exact List.mem_append_right _ (List.mem_cons_of_mem _ List.mem_cons_self)
  | @free a temp nodes hmain hfree =>
    rw [hmain] at hplace hhand
    refine h.of_nodes rfl (Server.listed_congr rfl fun c _ ↦ ?_) (fun c hc ↦ ?_) hplace
    · rw [hfree.record_eq, hmain]
      split
      · rename_i hself
        simp [Main.inHand, hself]
      · rename_i hne
        simp [Main.inHand, Ne.symm hne]
    · rw [hfree.record_eq, if_neg]
      rintro rfl
      exact hhand hc rfl

end Lists

end Steps

end Aesd
