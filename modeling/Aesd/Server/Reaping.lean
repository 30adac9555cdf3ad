import Aesd.Server.Orderly

/-!
# How threads are reaped

After it has created a thread, `main` goes along its list of threads and joins those whose `status`
is set, while they go on setting it. Between two passes the list has the nodes of the threads that
were created and not reaped, each once. A pass tests every node of the list once, joins and frees
those whose `status` it reads as true, and leaves the others as they are (`PassDone`). It comes to
its end: its steps are bounded by the length of the list, and it never has to wait long.

What holds within a pass is `Passing`. At every point of it `Main.left` bounds the steps that `main`
still has to take.
-/

namespace Aesd

open Memory LinkedList Execution

/-! ### What `main` has done in a pass -/

/-- The nodes whose threads were joined. -/
def joinedBy (trace : List ServerEvent) : List ℕ :=
  trace.filterMap fun
    | .main (.join a) => some a
    | _ => none

/-- The nodes that were tested, with the `status` that was read. -/
def testedBy (trace : List ServerEvent) : List (ℕ × Bool) :=
  trace.filterMap fun
    | .main (.test a status) => some (a, status)
    | _ => none

/-- The nodes whose `status` was read as `status`. -/
def readAs (status : Bool) (trace : List ServerEvent) : List ℕ :=
  ((testedBy trace).filter fun x ↦ x.2 = status).map Prod.fst

/-- How many steps are those of `main`. -/
def mainSteps (trace : List ServerEvent) : ℕ :=
  trace.countP fun
    | .main _ => true
    | _ => false

/-- The list has these nodes. -/
def Server.Holds (s : Server) (l : List ℕ) : Prop :=
  Seg s.links s.head l none

/-- The pass over the list `l` is done. -/
structure PassDone (l : List ℕ) (pass : List ServerEvent) (s : Server) : Prop where
  visited : (testedBy pass).map Prod.fst = l
  joined : joinedBy pass = readAs true pass
  freed : freedBy pass = readAs true pass
  kept : s.Holds (readAs false pass)

/-! ### The invariant of a pass -/

namespace Main

/-- `main` is in a pass over the list. -/
def InPass : Main → Prop
  | .accept | .malloc _ | .pthreadCreate _ | .freeStruct _ | .insertHead _ => False
  | _ => True

/-- The nodes of the list that are not tested yet. -/
def untested (todo : List ℕ) : Main → List ℕ
  | .test a _ => a :: todo
  | _ => todo

/-- The node whose thread is to be joined. -/
def toJoin : Main → List ℕ
  | .join a _ => [a]
  | _ => []

/-- The node that is to be freed. -/
def toFree : Main → List ℕ
  | .join a _ | .remove a _ | .search a _ _ | .free a _ => [a]
  | _ => []

/-- How many steps `main` has left for the node it is about, on a list of `n` nodes. -/
def leftHere (n : ℕ) (r : Walk) : Main → ℕ
  | .test _ _ => n + 6
  | .join _ _ => n + 5
  | .remove _ _ => n + 4
  | .search _ _ c => r.kept.length - r.kept.idxOf c + 2
  | .first | .free _ _ => 2
  | _ => 1

/-- How many steps `main` has left in the pass, at most. -/
def left (n : ℕ) (r : Walk) (main : Main) : ℕ :=
  r.todo.length * (n + 6) + main.leftHere n r

end Main

/-- Where the pass over the list `l` is. -/
structure Passing (l : List ℕ) (pass : List ServerEvent) (r : Walk) (main : Main) : Prop where
  inPass : main.InPass
  visited : (testedBy pass).map Prod.fst ++ main.untested r.todo = l
  joined : joinedBy pass ++ main.toJoin = readAs true pass
  freed : freedBy pass ++ main.toFree = readAs true pass
  kept : readAs false pass = r.kept
  steps : mainSteps pass + main.left l.length r ≤ l.length * (l.length + 6) + 2

section Pass

variable {l : List ℕ} {pass trace : List ServerEvent} {s s' : Server} {r : Walk} {m : MainEvent}
  {e : ServerEvent}

theorem readAs_append (status : Bool) (pass pass' : List ServerEvent) :
    readAs status (pass ++ pass') = readAs status pass ++ readAs status pass' := by
  simp [readAs, testedBy]

theorem testedBy_append (pass pass' : List ServerEvent) :
    testedBy (pass ++ pass') = testedBy pass ++ testedBy pass' :=
  List.filterMap_append

theorem joinedBy_append (pass pass' : List ServerEvent) :
    joinedBy (pass ++ pass') = joinedBy pass ++ joinedBy pass' :=
  List.filterMap_append

theorem freedBy_append (pass pass' : List ServerEvent) :
    freedBy (pass ++ pass') = freedBy pass ++ freedBy pass' :=
  List.filterMap_append

theorem mainSteps_concat (pass : List ServerEvent) (m : MainEvent) :
    mainSteps (pass ++ [.main m]) = mainSteps pass + 1 := by
  simp [mainSteps]

namespace Passing

/-- The nodes that were left are some of the list. -/
theorem length_kept_le (h : Passing l pass r s.main) : r.kept.length ≤ l.length := by
  have hle : (readAs false pass).length ≤ (testedBy pass).length := by
    rw [readAs, List.length_map]
    exact List.length_filter_le ..
  have hl := congrArg List.length h.visited
  rw [List.length_append, List.length_map] at hl
  rw [← h.kept]
  omega

/-- What a step of `main` has to do for the pass to go on. -/
theorem of_step (h : Passing l pass r s.main) {main main' : Main} {r' : Walk}
    (hmain : s.main = main) (hin : main'.InPass)
    (hvisited : (testedBy [.main m]).map Prod.fst ++ main'.untested r'.todo = main.untested r.todo)
    (hjoined : joinedBy [.main m] ++ main'.toJoin = main.toJoin ++ readAs true [.main m])
    (hfreed : freedBy [.main m] ++ main'.toFree = main.toFree ++ readAs true [.main m])
    (hkept : r.kept ++ readAs false [.main m] = r'.kept)
    (hsteps : main'.left l.length r' < main.left l.length r) :
    Passing l (pass ++ [.main m]) r' main' := by
  rw [hmain] at h
  refine ⟨hin, ?_, ?_, ?_, ?_, ?_⟩
  · rw [testedBy_append, List.map_append, List.append_assoc, hvisited]
    exact h.visited
  · rw [joinedBy_append, readAs_append, List.append_assoc, hjoined, ← List.append_assoc, h.joined]
  · rw [freedBy_append, readAs_append, List.append_assoc, hfreed, ← List.append_assoc, h.freed]
  · rw [readAs_append, h.kept, hkept]
  · have hbefore := h.steps
    rw [mainSteps_concat]
    omega

/-- The node after another one that was left has the next place among them. -/
theorem idxOf_succ (hlists : Lists r s) (hm : Manned trace s) {a c c' : ℕ} {temp : Option ℕ}
    {n : SlistData} (hmain : s.main = .search a temp c) (hn : s.nodes.record c = some n)
    (hlink : n.entries = some c') (hne : c' ≠ a) :
    r.kept.idxOf c' = r.kept.idxOf c + 1 ∧ r.kept.idxOf c + 1 < r.kept.length := by
  have hplace := hlists.place
  rw [hmain] at hplace
  obtain ⟨hl, -, hc⟩ := hplace
  obtain ⟨l₁, l₂, hkept⟩ := List.append_of_mem hc
  have hdistinct := Server.listed_nodup hm
  rw [hkept, List.append_assoc, List.cons_append] at hl
  have hnext := hlists.entries_eq hl hn
  rw [hlink] at hnext
  obtain ⟨l₃, rfl⟩ := exists_eq_cons_of_head?_eq hnext.symm hne
  rw [hl] at hdistinct
  have hleft : ∀ b ∈ c :: c' :: l₃, b ∉ l₁ := by
    intro b hb hmem
    exact List.disjoint_of_nodup_append hdistinct hmem (List.mem_append_left (a :: r.todo) hb)
  have hcc : c ≠ c' := by
    rintro rfl
    exact (List.nodup_cons.1 (List.nodup_append.1 hdistinct).2.1).1 List.mem_cons_self
  rw [hkept, List.idxOf_append_of_notMem (hleft c (by simp)),
    List.idxOf_append_of_notMem (hleft c' (by simp)), List.idxOf_cons_self,
    List.idxOf_cons_ne _ hcc, List.idxOf_cons_self, List.length_append]
  exact ⟨rfl, by simp⟩

/-- **A step of `main` in a pass** ends it, or leads on. -/
theorem mainStep (h : Passing l pass r s.main) (hlists : Lists r s) (hm : Manned trace s)
    (hstep : s.MainStep m s') :
    m = .endPass ∨ Passing l (pass ++ [.main m]) (r.after (.main m)) s'.main := by
  have hplace := hlists.place
  have hin := h.inPass
  have hle := h.length_kept_le
  have hnone : r.kept ++ [] = r.kept := List.append_nil _
  cases hstep with
  | endPass hmain => exact Or.inl rfl
  | first hmain =>
    exact Or.inr (h.of_step hmain trivial rfl rfl rfl hnone (Nat.lt_succ_self _))
  | @next a n hmain hn =>
    rw [hmain] at hplace
    obtain ⟨rest, htodo⟩ : ∃ rest, r.todo = a :: rest :=
      ⟨r.todo.tail, (List.cons_head?_tail hplace.2.symm).symm⟩
    refine Or.inr (h.of_step hmain trivial ?_ rfl rfl hnone ?_)
    · show a :: r.todo.tail = r.todo
      rw [htodo]
      rfl
    · simp only [Main.left, Main.leftHere, Walk.after, htodo, List.tail_cons, List.length_cons,
        Nat.add_mul, Nat.one_mul]
      omega
  | @test a temp n hmain hn =>
    refine Or.inr ?_
    rcases n.status with - | -
    · exact h.of_step hmain trivial rfl rfl rfl rfl
        (Nat.add_lt_add_left (by simp [Main.leftHere]) _)
    · exact h.of_step hmain trivial rfl rfl rfl hnone (Nat.lt_succ_self _)
  | join hmain hn hreturned =>
    exact Or.inr (h.of_step hmain trivial rfl rfl rfl hnone (Nat.lt_succ_self _))
  | removeHead hmain hhead hn =>
    exact Or.inr (h.of_step hmain trivial rfl rfl rfl hnone
      (Nat.add_lt_add_left (by simp [Main.leftHere]) _))
  | searchFirst hmain hhead hne =>
    refine Or.inr (h.of_step hmain trivial rfl rfl rfl hnone (Nat.add_lt_add_left ?_ _))
    simp only [Main.leftHere, Walk.after]
    omega
  | removeAfter hmain hm' hlink hn hset =>
    rw [hmain] at hplace
    have hlt := List.idxOf_lt_length_of_mem hplace.2.2
    refine Or.inr (h.of_step hmain trivial rfl rfl rfl hnone (Nat.add_lt_add_left ?_ _))
    simp only [Main.leftHere]
    omega
  | search hmain hn hlink hne =>
    obtain ⟨hidx, hlt⟩ := idxOf_succ hlists hm hmain hn hlink hne
    refine Or.inr (h.of_step hmain trivial rfl rfl rfl hnone (Nat.add_lt_add_left ?_ _))
    simp only [Main.leftHere, Walk.after, hidx]
    omega
  | free hmain hfree =>
    exact Or.inr (h.of_step hmain trivial rfl rfl rfl hnone (Nat.lt_succ_self _))
  | _ => exact absurd hin (by simp [Main.InPass, *])

/-- The steps of the threads are no part of it. -/
theorem concat (h : Passing l pass r s.main) (he : ∀ m, e ≠ .main m) :
    Passing l (pass ++ [e]) r s.main := by
  obtain ⟨htested, hjoined, hfreed, hsteps⟩ : testedBy (pass ++ [e]) = testedBy pass ∧
      joinedBy (pass ++ [e]) = joinedBy pass ∧ freedBy (pass ++ [e]) = freedBy pass ∧
      mainSteps (pass ++ [e]) = mainSteps pass := by
    rw [testedBy_append, joinedBy_append, freedBy_append, mainSteps, List.countP_append]
    cases e with
    | main m => exact absurd rfl (he m)
    | _ => exact ⟨List.append_nil _, List.append_nil _, List.append_nil _, rfl⟩
  have hread : ∀ status, readAs status (pass ++ [e]) = readAs status pass := by
    intro status
    rw [readAs, htested, readAs]
  refine ⟨h.inPass, ?_, ?_, ?_, ?_, ?_⟩
  · rw [htested]
    exact h.visited
  · rw [hjoined, hread]
    exact h.joined
  · rw [hfreed, hread]
    exact h.freed
  · rw [hread]
    exact h.kept
  · rw [hsteps]
    exact h.steps

/-- The list when the pass ends. -/
theorem done (h : Passing l pass r s.main) (hlists : Lists r s) (hstep : s.MainStep .endPass s') :
    PassDone l (pass ++ [.main .endPass]) s' := by
  have hplace := hlists.place
  have hseg := hlists.seg
  cases hstep with
  | endPass hmain =>
    rw [hmain] at h hplace
    obtain ⟨hl, hfirst⟩ := hplace
    have htodo : r.todo = [] := List.head?_eq_none_iff.1 hfirst.symm
    have hread : ∀ status, readAs status (pass ++ [.main .endPass]) = readAs status pass :=
      fun status ↦ (readAs_append ..).trans (List.append_nil _)
    rw [htodo, List.append_nil] at hl
    refine ⟨?_, ?_, ?_, ?_⟩
    · have hvisited := h.visited
      rw [htodo] at hvisited
      rw [testedBy_append, List.map_append]
      exact hvisited
    · rw [joinedBy_append, hread]
      exact h.joined
    · rw [freedBy_append, hread]
      exact h.freed
    · rw [hread, h.kept, ← hl]
      exact hseg

end Passing

end Pass

section Runs

variable {junk : SockaddrStorage} {turns turns' : List Turn} {trace pass : List ServerEvent}
  {s s' : Server}

/-- **Within a pass.** -/
theorem passing_of_run (hrun : run Server.step (.start junk) turns = .ok (trace, s))
    (hmain : s.main = .first) (hpass : run Server.step s turns' = .ok (pass, s'))
    (hend : .main .endPass ∉ pass) :
    Passing (registered trace) pass (walkOf (trace ++ pass)) s'.main := by
  have horderly := orderly_of_run hrun
  have hor : .main .endPass ∈ pass ∨
      Passing (registered trace) pass (walkOf (trace ++ pass)) s'.main := by
    refine history_of_along (C := fun _ _ ↦ True) (I := fun pass s' ↦ .main .endPass ∈ pass ∨
      Passing (registered trace) pass (walkOf (trace ++ pass)) s'.main) ?_ ?_ hpass
      (along_of_forall fun _ _ ↦ trivial)
    · rintro is rs s₁ turn e s₂ hpass₁ (hended | hpassing) - hstep
      · exact Or.inl (List.mem_append_left _ hended)
      · have h := orderly_of_run (run_append_eq_ok_iff.2 ⟨trace, s, rs, hrun, hpass₁, rfl⟩)
        rw [← List.append_assoc, walkOf_concat]
        rcases Server.step_cases hstep with ⟨m, rfl, hmain'⟩ | ⟨id, hthread⟩
        · refine (hpassing.mainStep h.lists h.manned hmain').imp_left ?_
          rintro rfl
          exact List.mem_append_right _ List.mem_cons_self
        · obtain ⟨w, w', hf⟩ := ThreadStep.exists_frame hthread
          have he : ∀ m, e ≠ .main m := by
            rintro m rfl
            cases hthread
          rw [hf.main_eq, Walk.after_of_thread he]
          exact Or.inr (hpassing.concat he)
    · have hplace := horderly.lists.place
      have hlisted := horderly.listed_eq (by rw [hmain]; rfl)
      rw [hmain] at hplace
      obtain ⟨hkept, hl⟩ := hplace
      rw [List.append_nil, hmain]
      refine Or.inr ⟨trivial, ?_, rfl, rfl, hkept.symm, ?_⟩
      · rw [← hlisted, hl]
        rfl
      · rw [← hlisted, hl]
        exact Nat.le_of_eq (Nat.zero_add _)
  exact hor.resolve_left hend

/-- **Threads are reaped once.** Whatever order of steps and however many connections:

* between two passes, the list has the nodes of the threads that were created and not reaped, each
  once;
* no step uses a node that was freed, as long as `malloc` grants `main` its nodes;
* no node is freed twice, or before its thread has set its status;
* `main` takes a bounded number of steps in a pass, in each state of it `main` can go on, now or
  after one step of another thread, and a pass that ends is done as `PassDone` says. -/
theorem threads_reaped_once
    (hrun : run Server.step (.start junk) turns = .ok (trace, s)) :
    (s.main = .accept → s.Holds (registered trace) ∧ (registered trace).Nodup) ∧
    (∀ turn, s.Grants turn → s.step turn ≠ .error .fault) ∧
    ((freedBy trace).Nodup ∧ ∀ before after a id, trace = before ++ .main (.free a) :: after →
      .main (.pthreadCreate a (some id)) ∈ trace → .call .setStatus ∈ callsOf id before) ∧
    (s.main = .first → s.Holds (registered trace) ∧ (registered trace).Nodup ∧
      ∀ turns' pass s', run Server.step s turns' = .ok (pass, s') → .main .endPass ∉ pass →
        mainSteps pass ≤ (registered trace).length * ((registered trace).length + 6) + 2 ∧
        s'.Advances ∧
        ∀ turn s'', s'.step turn = .ok (.main .endPass, s'') →
          PassDone (registered trace) (pass ++ [.main .endPass]) s'') := by
  have h := orderly_of_run hrun
  have hholds : s.main.inHand = none → s.Holds (registered trace) ∧ (registered trace).Nodup := by
    intro hhand
    rw [← h.listed_eq hhand]
    exact ⟨h.lists.seg, Server.listed_nodup h.manned⟩
  refine ⟨fun hmain ↦ hholds (by rw [hmain]; rfl), fun turn hgrants ↦ h.ne_fault hgrants,
    ⟨h.accounts.nodup, ?_⟩, fun hmain ↦ ?_⟩
  · rintro before after a id rfl hmem
    exact setStatus_of_freed hrun hmem
  · obtain ⟨hlist, hnodup⟩ := hholds (by rw [hmain]; rfl)
    refine ⟨hlist, hnodup, fun turns' pass s' hpass hend ↦ ?_⟩
    have hpassing := passing_of_run hrun hmain hpass hend
    have h' := orderly_of_run (run_append_eq_ok_iff.2 ⟨trace, s, pass, hrun, hpass, rfl⟩)
    refine ⟨(Nat.le_add_right ..).trans hpassing.steps, ?_, fun turn s'' hstep ↦ ?_⟩
    · refine h'.advances fun newFd hmalloc ↦ ?_
      have hin := hpassing.inPass
      rw [hmalloc] at hin
      exact hin
    · rcases Server.step_cases hstep with ⟨m, hm, hstep⟩ | ⟨id, hthread⟩
      · obtain rfl := ServerEvent.main.inj hm
        exact hpassing.done h'.lists hstep
      · cases hthread

/-- The thread of the first of two connections is reaped after the second was accepted. -/
theorem threads_reaped_once_one_of_two :
    let main : Turn := .main ⟨some (4, .inet 0), some ⟨0, true, 0, .theirAddr, none⟩, true⟩
    let turns := List.replicate 8 main ++ List.replicate 9 (.thread 0 (.granting [])) ++
      List.replicate 4 main
    ∃ trace s pass s', run Server.step (.start (.inet 0)) turns = .ok (trace, s) ∧
      run Server.step s (List.replicate 10 main) = .ok (pass, s') ∧ s.Holds [1, 0] ∧
      freedBy pass = [0] ∧ PassDone [1, 0] pass s' := by
  intro main turns
  have heval : (run Server.step (.start (.inet 0)) turns).map (fun z ↦ (z.2.main, registered z.1)) =
      .ok (.first, [1, 0]) := by
    decide +kernel
  let passed : List ServerEvent := [.first, .next 1, .test 1 false, .next 0, .test 0 true, .join 0,
    .search, .remove 0, .free 0].map .main
  have hpass : (run Server.step (.start (.inet 0)) (turns ++ List.replicate 10 main)).map
      (fun z ↦ z.1.drop turns.length) = .ok (passed ++ [.main .endPass]) := by
    decide +kernel
  obtain ⟨⟨trace, s⟩, hrun, hend⟩ := exists_of_map_eq_ok heval
  obtain ⟨hmain, hregistered⟩ := Prod.mk.inj hend
  obtain ⟨⟨all, s'⟩, hall, hlast⟩ := exists_of_map_eq_ok hpass
  obtain ⟨trace₁, s₁, pass, hrun₁, hrunPass, rfl⟩ := run_append_eq_ok_iff.1 hall
  obtain ⟨rfl, rfl⟩ := Prod.mk.inj (Except.ok.inj (hrun.symm.trans hrun₁))
  obtain rfl : pass = passed ++ [.main .endPass] :=
    (List.drop_left' (length_of_run hrun)).symm.trans hlast
  obtain ⟨before, turn, s₂, -, hbefore, hstep⟩ := exists_last_step hrunPass
  obtain ⟨-, -, -, hfirst⟩ := threads_reaped_once hrun
  obtain ⟨hholds, -, hpasses⟩ := hfirst hmain
  obtain ⟨-, -, hdone⟩ := hpasses _ _ _ hbefore (by decide)
  rw [hregistered] at hholds hdone
  exact ⟨_, _, _, _, hrun, hrunPass, hholds, rfl, hdone turn s' hstep⟩

end Runs

end Aesd
