import Mathlib.Algebra.BigOperators.Group.Finset.Piecewise
import Mathlib.Algebra.Order.BigOperators.Group.Finset
import Aesd.Foundation.Fairness
import Aesd.Service.OwnLine

/-!
# Everybody is served

The kernel picks the thread that calls next, again and again, and the mutex favours nobody: a
thread that waits for it is tried now and then, and can find it held each time. Still, if every
thread is tried again and again, all threads return (`fair_schedule_serves_all`). What is left to
do is the calls that the requests allow and that have not been made (`callsLeft`); each call makes
it less, and at any time some thread can call, the one inside a critical section or, if there is
none, any that has not returned (`Follows.exists_ready`).

At the end the device has committed the lines of the clients, each once, in some order.

Every `send` takes all its bytes and returns here. Left out: a client that does not read its reply
blocks the `send` of its thread, which holds the mutex meanwhile, and then nobody is served.
-/

namespace Aesd

open Execution MutualExclusion

section Ready

variable {req : ℕ → Request} {inboxes : ℕ → List (List Byte)} {xs : List (ℕ × Choice)}
  {trace : List (ℕ × Event)} {w w' : World} {s : Store} {i N : ℕ}

namespace Follows

theorem ne_ret_of_owner (h : Follows req inboxes trace w s) (howner : w.owner = some i) :
    (w.proc i).code ≠ .ret := by
  obtain ⟨-, left, hinside, -⟩ := h.inside i howner
  exact hinside.ne_ret

/-- A thread can call if no other one is inside a critical section. -/
theorem exists_serve (hsends : ∀ i, (req i).Sends (inboxes i))
    (h : Follows req inboxes trace w s) (hret : (w.proc i).code ≠ .ret)
    (howner : ∀ j, w.owner = some j → j = i) {x : ℕ × Choice} (hx : x.1 = i)
    (hgood : GoesWell w x) : ∃ y w', serve w x = .ok (y, w') := by
  obtain ⟨i, c⟩ := x
  obtain rfl : i = _ := hx
  refine (h.exists_serve_or_blocked hsends hgood hret).resolve_right ?_
  rintro ⟨-, j, hne, hj⟩
  exact hne (howner j hj)

/-- **Some thread can call** as long as not all have returned: the one inside a critical section,
or any other one. -/
theorem exists_ready (hsends : ∀ i, (req i).Sends (inboxes i)) (h : Follows req inboxes trace w s)
    (howner : ∀ j, w.owner = some j → j < N) (hi : i < N) (hret : (w.proc i).code ≠ .ret) :
    ∃ k < N, ∀ x : ℕ × Choice, x.1 = k → GoesWell w x → ∃ y w', serve w x = .ok (y, w') := by
  rcases hholds : w.owner with - | k
  · refine ⟨i, hi, fun x hx hgood ↦ h.exists_serve hsends hret ?_ hx hgood⟩
    rintro j hj
    exact absurd (hholds.symm.trans hj) (Option.some_ne_none j).symm
  · refine ⟨k, howner k hholds, fun x hx hgood ↦
      h.exists_serve hsends (h.ne_ret_of_owner hholds) ?_ hx hgood⟩
    rintro j hj
    exact Option.some.inj (hj.symm.trans hholds)

end Follows

/-- The calls that the threads below `N` may still make. -/
def callsLeft (req : ℕ → Request) (N : ℕ) (trace : List (ℕ × Event)) : ℕ :=
  ∑ i ∈ Finset.range N, ((req i).steps - (own i trace).length)

/-- A call leaves fewer calls. -/
theorem callsLeft_concat_lt {e : Event} (hi : i < N)
    (hle : (own i (trace ++ [(i, e)])).length ≤ (req i).steps) :
    callsLeft req N (trace ++ [(i, e)]) < callsLeft req N trace := by
  rw [own_concat_self, List.length_append, List.length_singleton] at hle
  refine Finset.sum_lt_sum (fun j _ ↦ ?_) ⟨i, Finset.mem_range.2 hi, ?_⟩
  · rcases eq_or_ne i j with rfl | hne
    · rw [own_concat_self, List.length_append]
      omega
    · rw [own_concat_of_ne hne]
  · rw [own_concat_self, List.length_append, List.length_singleton]
    omega

/-- The calls are those of the threads. -/
theorem sum_length_own (h : ∀ y ∈ trace, y.1 < N) :
    ∑ i ∈ Finset.range N, (own i trace).length = trace.length := by
  induction trace with
  | nil => simp [own]
  | cons y trace ih =>
    obtain ⟨hy, htrace⟩ := List.forall_mem_cons.1 h
    have hcons : ∀ i, (own i (y :: trace)).length =
        (own i trace).length + if y.1 = i then 1 else 0 := by
      intro i
      rcases eq_or_ne y.1 i with hi | hi <;> simp [own, hi]
    rw [Finset.sum_congr rfl fun i _ ↦ hcons i, Finset.sum_add_distrib, ih htrace,
      Finset.sum_ite_eq, if_pos (Finset.mem_range.2 hy), List.length_cons]

/-- The threads below `N` have made a run that goes well. -/
structure MadeBy (inboxes : ℕ → List (List Byte)) (N : ℕ) (trace : List (ℕ × Event)) (w : World) :
    Prop where
  exists_run : ∃ xs, run serve (start inboxes) xs = .ok (trace, w) ∧
    Along serve GoesWell (start inboxes) xs
  caller_lt : ∀ y ∈ trace, y.1 < N
  owner_lt : ∀ j, w.owner = some j → j < N

namespace MadeBy

theorem start (inboxes : ℕ → List (List Byte)) (N : ℕ) : MadeBy inboxes N [] (start inboxes) where
  exists_run := ⟨[], rfl, trivial⟩
  caller_lt := List.forall_mem_nil _
  owner_lt j hj := absurd hj (by simp [Aesd.start])

theorem follows (hsends : ∀ i, (req i).Sends (inboxes i)) (h : MadeBy inboxes N trace w) :
    Follows req inboxes trace w (Store.after req (sections trace)) := by
  obtain ⟨xs, hrun, hgood⟩ := h.exists_run
  exact follows_of_run hsends hrun hgood

theorem step (h : MadeBy inboxes N trace w) {x : ℕ × Choice} {y : ℕ × Event} (hx : x.1 < N)
    (hgood : GoesWell w x) (hserve : serve w x = .ok (y, w')) :
    MadeBy inboxes N (trace ++ [y]) w' where
  exists_run := by
    obtain ⟨xs, hrun, halong⟩ := h.exists_run
    exact ⟨xs ++ [x],
      run_append_eq_ok_iff.2 ⟨trace, w, [y], hrun, run_cons_of_ok hserve (run_nil _), rfl⟩,
      halong.append hrun ⟨hgood, fun _ _ _ ↦ trivial⟩⟩
  caller_lt := by
    obtain ⟨-, -, -, -, hcaller, -⟩ := serve_cases hserve
    exact List.forall_mem_append.2 ⟨h.caller_lt, List.forall_mem_singleton.2 (hcaller ▸ hx)⟩
  owner_lt j hj := by
    obtain ⟨-, -, -, -, -, -, ⟨-, -, howner⟩ | ⟨-, howner⟩ | ⟨-, howner⟩⟩ := serve_cases hserve
    · obtain rfl := Option.some.inj (howner.symm.trans hj)
      exact hx
    · exact absurd (howner.symm.trans hj) (Option.some_ne_none j).symm
    · exact h.owner_lt j (howner ▸ hj)

/-- **When all threads have returned**, nobody holds the mutex, and the device has committed the
lines of the clients, each once. -/
theorem committed_perm (hsends : ∀ i, (req i).Sends (inboxes i)) (h : MadeBy inboxes N trace w)
    (hret : ∀ i < N, (w.proc i).code = .ret) :
    w.owner = none ∧ w.env.kernel.committed.Perm
      (((List.range N).filter fun i ↦ (req i).isLine).map fun i ↦ (req i).bytes) := by
  have hfollows := h.follows hsends
  have hfree : w.owner = none := by
    rcases howner : w.owner with - | j
    · rfl
    · exact absurd (hret j (h.owner_lt j howner)) (hfollows.ne_ret_of_owner howner)
  refine ⟨hfree, ?_⟩
  rw [(hfollows.device_eq hfree).1, Store.lines]
  refine List.Perm.map _ ((List.perm_ext_iff_of_nodup (Store.nodup_first_after req _)
    (List.nodup_range.filter _)).2 fun i ↦ ?_)
  rw [List.mem_filter, List.mem_range, Store.mem_first_after]
  refine and_congr_left fun hline ↦ ⟨fun hvisit ↦ ?_, fun hi ↦ ?_⟩
  · obtain ⟨before, rest, hsections⟩ := List.append_of_mem hvisit
    obtain ⟨trace₁, e, trace₂, rfl, -⟩ := exists_call_of_sections hsections
    exact h.caller_lt (i, e) (by simp)
  · have hcount := count_sections_of_ret hfollows (hret i hi)
    exact List.count_pos_iff.1 (by omega)

end MadeBy

/-- A thread that has returned makes no call. -/
theorem serve_ne_ok_of_ret {x : ℕ × Choice} (h : (w.proc x.1).code = .ret) (y : ℕ × Event)
    (w' : World) : serve w x ≠ .ok (y, w') := by
  intro hserve
  obtain ⟨a, code, -, hstep, -⟩ := serve_cases hserve
  rw [h] at hstep
  exact absurd hstep (by simp [Code.step])

/-- With lines only, all goes well if nothing is refused. -/
theorem goesWell_attempts_of_lines {sched : ℕ → ℕ × Choice}
    (hsends : ∀ i, (req i).Sends (inboxes i)) (hlines : ∀ i, (req i).isLine = true)
    (hgrants : ∀ n, (sched n).2.Grants) (n : ℕ) :
    GoesWell (attempts serve (start inboxes) sched n).2.2 (sched n) := by
  have hinputs : ∀ x ∈ (attempts serve (start inboxes) sched n).1, x.2.Grants :=
    forall_mem_attempts (D := fun x : ℕ × Choice ↦ x.2.Grants) hgrants n
  have halong := along_goesWell_of_lines hsends hlines hinputs
  have hfollows := follows_of_run hsends (run_attempts serve (start inboxes) sched n) halong
  exact hfollows.goesWell hlines (hgrants n)

end Ready

/-- **Under a fair schedule everybody is served.** `N` clients, each with a line in chunks cut in
any way or a command for the device in one chunk; nothing is refused, and the commands for the
device name bytes of the ring. If the kernel tries each thread again and again, then after finitely
many tries all threads have returned, each with the reply that begins in the ring at the place its
client asked for, and the device has committed the lines of the clients, each once. They made no
more calls than the requests allow, and they make none later. -/
theorem fair_schedule_serves_all {req : ℕ → Request} {inboxes : ℕ → List (List Byte)} {N : ℕ}
    {sched : ℕ → ℕ × Choice} (hsends : ∀ i, (req i).Sends (inboxes i))
    (hclients : ∀ n, (sched n).1 < N)
    (hgood : ∀ n, GoesWell (attempts serve (start inboxes) sched n).2.2 (sched n))
    (hfair : ∀ i < N, ∀ n, ∃ m ≥ n, (sched m).1 = i) :
    ∃ n xs trace w, (∀ m ≥ n, attempts serve (start inboxes) sched m = (xs, trace, w)) ∧
      run serve (start inboxes) xs = .ok (trace, w) ∧
      xs.length ≤ ∑ i ∈ Finset.range N, (req i).steps ∧
      (∀ i < N, (w.proc i).code = .ret ∧ RepliedFromRing req inboxes xs trace i) ∧
      w.owner = none ∧ w.env.kernel.committed.Perm
        (((List.range N).filter fun i ↦ (req i).isLine).map fun i ↦ (req i).bytes) := by
  have hstep : ∀ trace w x y w', MadeBy inboxes N trace w → x.1 < N ∧ GoesWell w x →
      serve w x = .ok (y, w') → MadeBy inboxes N (trace ++ [y]) w' ∧
        callsLeft req N (trace ++ [y]) < callsLeft req N trace := by
    rintro trace w ⟨i, c⟩ ⟨j, e⟩ w' hmade ⟨hi, hgood⟩ hserve
    have hnext := hmade.step hi hgood hserve
    obtain ⟨-, -, -, -, hcaller, -⟩ := serve_cases hserve
    obtain rfl : i = j := hcaller.symm
    exact ⟨hnext, callsLeft_concat_lt hi ((hnext.follows hsends).length_own_le i)⟩
  have hready : ∀ trace w, MadeBy inboxes N trace w → (¬ ∀ i < N, (w.proc i).code = .ret) →
      ∃ k < N, ∀ x : ℕ × Choice, x.1 = k → x.1 < N ∧ GoesWell w x →
        ∃ y w', serve w x = .ok (y, w') := by
    intro trace w hmade hnot
    simp only [not_forall] at hnot
    obtain ⟨i, hi, hret⟩ := hnot
    obtain ⟨k, hk, hready⟩ := (hmade.follows hsends).exists_ready hsends hmade.owner_lt hi hret
    exact ⟨k, hk, fun x hx hgood ↦ hready x hx hgood.2⟩
  obtain ⟨n, hmade, hret⟩ := exists_done Prod.fst (fun i ↦ i < N) (fun w x ↦ x.1 < N ∧ GoesWell w x)
    (MadeBy inboxes N) (fun w ↦ ∀ i < N, (w.proc i).code = .ret)
    (fun trace _ ↦ callsLeft req N trace) (MadeBy.start inboxes N) hstep hready
    (fun n ↦ ⟨hclients n, hgood n⟩) hfair
  have hrun := run_attempts serve (start inboxes) sched n
  have halong := along_attempts hgood n
  have hlater : ∀ m ≥ n, attempts serve (start inboxes) sched m =
      attempts serve (start inboxes) sched n := fun m hm ↦
    attempts_eq_of_forall_ne_ok (fun m _ hsame y w' ↦
      serve_ne_ok_of_ret (by rw [hsame]; exact hret _ (hclients m)) y w') hm
  obtain ⟨hfree, hperm⟩ := hmade.committed_perm hsends hret
  refine ⟨n, _, _, _, hlater, hrun, ?_, fun i hi ↦ ⟨hret i hi, ?_⟩, hfree, hperm⟩
  · rw [← length_of_run hrun, ← sum_length_own hmade.caller_lt]
    exact Finset.sum_le_sum fun i _ ↦ (hmade.follows hsends).length_own_le i
  · exact repliedFromRing_of_ret hsends hrun halong (hret i hi)

/-- Two clients with a line each, and threads that are tried in turn. -/
theorem fair_schedule_serves_two :
    let req : ℕ → Request := fun i ↦ .line [if i = 0 then 97 else 98, newline]
    let inboxes : ℕ → List (List Byte) := fun i ↦ [[if i = 0 then 97 else 98, newline]]
    let sched : ℕ → ℕ × Choice := fun n ↦ (n % 2, .granting 3)
    ∃ n xs trace w, (∀ m ≥ n, attempts serve (start inboxes) sched m = (xs, trace, w)) ∧
      RepliedFromRing req inboxes xs trace 0 ∧ RepliedFromRing req inboxes xs trace 1 ∧
      w.env.kernel.committed.Perm [[97, newline], [98, newline]] := by
  intro req inboxes sched
  have hline : ∀ b : Byte, b ≠ 0 → b ≠ newline →
      (Request.line [b, newline]).Sends [[b, newline]] := by
    intro b hzero hb
    refine .line ⟨?_, [b], rfl, by simpa using hb.symm⟩ (fun h ↦ ?_) ?_ rfl (by simp)
    · simpa using ⟨hzero.symm, show ¬ (0 : Byte) = newline by decide⟩
    · exact absurd h.length_le (show ¬ ioctlCmdStr.length ≤ 2 by decide)
    · exact show 2 ≤ maxRwCount by decide
  have hsends : ∀ i, (req i).Sends (inboxes i) := by
    intro i
    refine hline _ ?_ ?_ <;> split <;> decide
  have hgrants : (Choice.granting 3).Grants := by decide
  have hgood : ∀ n, GoesWell (attempts serve (start inboxes) sched n).2.2 (sched n) :=
    goesWell_attempts_of_lines hsends (fun _ ↦ rfl) fun _ ↦ hgrants
  obtain ⟨n, xs, trace, w, hlater, -, -, hret, -, hperm⟩ := fair_schedule_serves_all (N := 2) hsends
    (fun n ↦ Nat.mod_lt n Nat.two_pos) hgood fun i hi n ↦ ⟨2 * n + i, by omega, by
      show (2 * n + i) % 2 = i
      omega⟩
  exact ⟨n, xs, trace, w, hlater, (hret 0 Nat.two_pos).2, (hret 1 Nat.one_lt_two).2, hperm⟩

end Aesd
