import Aesd.Service.Store

/-!
# What the clients get

Read off the store that the server follows: the commands on the device are the lines of the
clients, each once, in the order of their first critical sections; the ring has the last ten;
nothing is pending. A thread that has returned has sent what begins in the ring at the place it
asked for, as the ring was at the end of its last critical section (`RepliedFromRing`).

That is about threads that have returned. They do: a thread calls no more than `Request.steps`
says, and whenever it cannot call it waits for another one that is inside a critical section; that
one can.
-/

namespace Aesd

open Execution MutualExclusion

/-- Each section ends with a call of the trace. -/
theorem exists_call_of_sections {trace : List (ℕ × Event)} {before rest : List ℕ} {i : ℕ}
    (h : sections trace = before ++ i :: rest) :
    ∃ trace₁ e trace₂, trace = trace₁ ++ [(i, e)] ++ trace₂ ∧ e.role = .unlock ∧
      sections trace₁ = before ∧ sections trace₂ = rest := by
  rw [sections, List.filterMap_eq_append_iff] at h
  obtain ⟨trace₀, trace', rfl, h₀, h'⟩ := h
  rw [List.filterMap_eq_cons_iff] at h'
  obtain ⟨trace₁, ⟨j, e⟩, trace₂, rfl, hnone, hcall, hrest⟩ := h'
  have hrole : e.role = .unlock ∧ j = i := by
    rw [Option.ite_none_right_eq_some] at hcall
    exact ⟨hcall.1, Option.some.inj hcall.2⟩
  obtain ⟨hrole, rfl⟩ := hrole
  refine ⟨trace₀ ++ trace₁, e, trace₂, by simp, hrole, ?_, hrest⟩
  rw [sections, List.filterMap_append, h₀, List.filterMap_eq_nil_iff.2 hnone, List.append_nil]

section Places

variable {r : Request} {chunks cmds inbox : List (List Byte)} {stored : Bool}
  {given : Option (List Byte)} {sys : System} {code : Code} {sent : List Byte} {left : ℕ}

/-- A thread that has returned has sent the reply that was given. -/
theorem Outside.of_ret (h : Outside r chunks stored given code inbox sent left)
    (hret : code = .ret) : given = some sent ∧ stored = r.isLine := by
  cases h with
  | ending => exact ⟨rfl, rfl⟩
  | _ => exact Code.noConfusion hret

/-- No thread returns inside. -/
theorem Inside.ne_ret (h : Inside r cmds stored sys code inbox sent left) : code ≠ .ret := by
  intro hret
  cases h with
  | finishing hsys hacts hunlock =>
    obtain ⟨a, acts, rfl⟩ := List.exists_cons_of_ne_nil (List.ne_nil_of_mem hunlock)
    exact Code.noConfusion hret
  | entry => cases r <;> exact Code.noConfusion hret
  | reading => cases r <;> exact Code.noConfusion hret
  | _ => exact Code.noConfusion hret

end Places

section Runs

variable {req : ℕ → Request} {inboxes : ℕ → List (List Byte)} {xs : List (ℕ × Choice)}
  {trace : List (ℕ × Event)} {w : World} {s : Store} {i : ℕ}

namespace Follows

/-- Between two critical sections the device has what the store has. -/
theorem device_eq (h : Follows req inboxes trace w s) (hfree : w.owner = none) :
    w.env.kernel.committed = s.lines req ∧ w.env.kernel.commands = s.kept req ∧
      w.env.kernel.pending = [] := by
  have hkernel := (h.idle hfree).represents.kernel
  exact ⟨hkernel.committed_eq, hkernel.commands_eq, hkernel.pending_eq⟩

/-- A thread that has returned has stored its line and sent the reply that the store gave. -/
theorem returned (h : Follows req inboxes trace w s) (hret : (w.proc i).code = .ret) :
    s.reply i = some (sentBytes (own i trace)) ∧ decide (i ∈ s.first) = (req i).isLine := by
  have hnot : w.owner ≠ some i := by
    intro hholds
    obtain ⟨-, left, hinside, -⟩ := h.inside i hholds
    exact hinside.ne_ret hret
  obtain ⟨left, houtside, -⟩ := h.outside i hnot
  exact houtside.of_ret hret

/-- No thread calls more than it may. -/
theorem length_own_le (h : Follows req inboxes trace w s) (i : ℕ) :
    (own i trace).length ≤ (req i).steps := by
  by_cases hholds : w.owner = some i
  · obtain ⟨-, left, -, hlength⟩ := h.inside i hholds
    omega
  · obtain ⟨left, -, hlength⟩ := h.outside i hholds
    omega

/-- **A thread that has not returned can call**, or waits for one that is inside a critical
section. -/
theorem exists_serve_or_blocked (hsends : ∀ i, (req i).Sends (inboxes i))
    (h : Follows req inboxes trace w s) {c : Choice} (hgood : GoesWell w (i, c))
    (hret : (w.proc i).code ≠ .ret) :
    (∃ y w', serve w (i, c) = .ok (y, w')) ∨
      (serve w (i, c) = .error .blocked ∧ ∃ j ≠ i, w.owner = some j) := by
  have hcalls : ∃ e env p, act w.env (w.proc i) c = .ok (e, env, p) ∧
      (e.role = .lock → w.owner ≠ some i) := by
    by_cases hholds : w.owner = some i
    · obtain ⟨-, left, hinside, -⟩ := h.inside i hholds
      obtain ⟨e, env, p, hact, left', -, hnext⟩ := hinside.act (hsends i) hgood.grants hgood.valid
      refine ⟨e, env, p, hact, fun hlock ↦ ?_⟩
      rcases hnext with ⟨hrole, -⟩ | ⟨hrole, -⟩ <;> rw [hrole] at hlock <;> cases hlock
    · obtain ⟨left, houtside, -⟩ := h.outside i hholds
      obtain ⟨e, code, hact, -⟩ :=
        (houtside.act (hsends i) hgood.grants w.env).resolve_left hret
      exact ⟨e, _, _, hact, fun _ ↦ hholds⟩
  obtain ⟨e, env, p, hact, hlock⟩ := hcalls
  refine Or.imp_left ?_ (exists_step_or_blocked hact hlock)
  rintro ⟨w', hstep⟩
  exact ⟨(i, e), w', hstep⟩

end Follows

/-- The reply of thread `i` is what begins in the ring at the place it asked for. The ring is that
of the device when the thread has just left its last critical section, the second one if it sends
a line and the only one if not. -/
def RepliedFromRing (req : ℕ → Request) (inboxes : ℕ → List (List Byte)) (xs : List (ℕ × Choice))
    (trace : List (ℕ × Event)) (i : ℕ) : Prop :=
  ∃ xs₁ xs₂ trace₁ trace₂ w₁ before, xs = xs₁ ++ xs₂ ∧ trace = trace₁ ++ trace₂ ∧
    run serve (start inboxes) xs₁ = .ok (trace₁, w₁) ∧ w₁.owner = none ∧
    sections trace₁ = before ++ [i] ∧ before.count i = (req i).isLine.toNat ∧
    i ∉ sections trace₂ ∧ sentBytes (own i trace) = (req i).reply w₁.env.kernel.commands

/-- A thread that has returned has left all its critical sections. -/
theorem count_sections_of_ret (h : Follows req inboxes trace w s) (hret : (w.proc i).code = .ret) :
    (sections trace).count i = (req i).isLine.toNat + 1 := by
  obtain ⟨hreply, hkind⟩ := h.returned hret
  rw [h.count i, hkind, hreply]
  rfl

theorem repliedFromRing_of_ret (hsends : ∀ i, (req i).Sends (inboxes i))
    (hrun : run serve (start inboxes) xs = .ok (trace, w))
    (hgood : Along serve GoesWell (start inboxes) xs) (hret : (w.proc i).code = .ret) :
    RepliedFromRing req inboxes xs trace i := by
  have hfollows := follows_of_run hsends hrun hgood
  obtain ⟨before, rest, hsections, hkind, hreply⟩ :=
    Store.exists_visit_of_reply (hfollows.returned hret).1
  have hcount := count_sections_of_ret hfollows hret
  obtain ⟨trace₁, e, trace₂, rfl, hrole, rfl, rfl⟩ := exists_call_of_sections hsections
  obtain ⟨xs₁, xs₂, w₁, rfl, hrun₁, -⟩ := exists_run_of_answers hrun
  have hgood₁ := hgood.take xs₁.length
  rw [List.take_left] at hgood₁
  have hfollows₁ := follows_of_run hsends hrun₁ hgood₁
  have hfree : w₁.owner = none := by
    obtain ⟨ys, y, w₀, rfl, -, hlast⟩ := exists_last_step hrun₁
    obtain ⟨-, -, -, -, -, -, howner⟩ := serve_cases hlast
    simpa [hrole] using howner
  -- the thread is through with its critical sections
  have hbefore : (req i).isLine.toNat ≤ (sections trace₁).count i := by
    rcases hr : (req i).isLine with - | -
    · exact Nat.zero_le _
    · rw [hr, decide_eq_true_iff, Store.mem_first_after] at hkind
      exact List.one_le_count_iff.2 hkind.1
  rw [hsections, List.count_append, List.count_cons_self] at hcount
  refine ⟨xs₁, xs₂, _, trace₂, w₁, sections trace₁, rfl, rfl, hrun₁, hfree,
    sections_concat_unlock hrole, by omega, List.count_eq_zero.1 (by omega), ?_⟩
  -- getting a reply stores nothing
  have hring := (hfollows₁.device_eq hfree).2.1
  rw [sections_concat_unlock hrole, Store.after_concat, Store.visit_of_reply hkind] at hring
  rw [hreply, hring]
  rfl

end Runs

/-- **The server on the device is a store of lines.** Any number of clients, each with a line in
chunks cut in any way or a command for the device in one chunk; nothing is refused, and the
commands for the device name bytes of the ring. Then after any calls of the threads in any order:

* the lines stored are those of the clients whose threads have left a critical section, each once,
  in the order of the first time; between two critical sections they are the commands the device
  has committed, the last ten of them are the ring, and nothing is pending;
* a thread that has returned has stored its line, if it had one, and has sent what begins in the
  ring at the place it asked for, in its second critical section if it had a line;
* a thread that has not returned can call, or waits for one that is inside a critical section, and
  no thread calls without end. -/
theorem server_refines_store {req : ℕ → Request} {inboxes : ℕ → List (List Byte)}
    {xs : List (ℕ × Choice)} {trace : List (ℕ × Event)} {w : World}
    (hsends : ∀ i, (req i).Sends (inboxes i))
    (hrun : run serve (start inboxes) xs = .ok (trace, w))
    (hgood : Along serve GoesWell (start inboxes) xs) :
    let s := Store.after req (sections trace)
    s.first = ((sections trace).filter fun i ↦ (req i).isLine).eraseDups ∧
    (w.owner = none → w.env.kernel.committed = s.lines req ∧ w.env.kernel.commands = s.kept req ∧
      w.env.kernel.pending = []) ∧
    (∀ i, (w.proc i).code = .ret → decide (i ∈ s.first) = (req i).isLine ∧
      RepliedFromRing req inboxes xs trace i) ∧
    (∀ i c, GoesWell w (i, c) → (w.proc i).code ≠ .ret →
      (∃ y w', serve w (i, c) = .ok (y, w')) ∨
        (serve w (i, c) = .error .blocked ∧ ∃ j ≠ i, w.owner = some j)) ∧
    ∀ i, (own i trace).length ≤ (req i).steps := by
  intro s
  have hfollows : Follows req inboxes trace w s := follows_of_run hsends hrun hgood
  refine ⟨Store.first_after req (sections trace), hfollows.device_eq, fun i hret ↦ ?_, ?_,
    hfollows.length_own_le⟩
  · exact ⟨(hfollows.returned hret).2, repliedFromRing_of_ret hsends hrun hgood hret⟩
  · exact fun i c hgood hret ↦ hfollows.exists_serve_or_blocked hsends hgood hret

/-- One client sends a line in two chunks; between its critical sections another asks for what is
stored, from the second byte on. -/
theorem server_refines_store_line_and_command :
    let req : ℕ → Request := fun i ↦
      if i = 0 then .line [97, 98, newline] else if i = 1 then .seek [48] [49] else .line [newline]
    let inboxes : ℕ → List (List Byte) := fun i ↦
      if i = 0 then [[97], [98, newline]] else if i = 1 then [(Request.seek [48] [49]).bytes]
      else [[newline]]
    let xs := List.replicate 10 (0, Choice.granting 3) ++
      List.replicate 15 (1, Choice.granting 3) ++ List.replicate 11 (0, Choice.granting 3)
    ∃ trace w, run serve (start inboxes) xs = .ok (trace, w) ∧
      sentBytes (own 0 trace) = [97, 98, newline] ∧ sentBytes (own 1 trace) = [98, newline] ∧
      RepliedFromRing req inboxes xs trace 0 ∧ RepliedFromRing req inboxes xs trace 1 := by
  intro req inboxes xs
  have hsends : ∀ i, (req i).Sends (inboxes i) := by
    rintro (- | - | i)
    · exact .line ⟨by decide, [97, 98], rfl, by decide⟩ (by decide) (by decide) rfl (by decide)
    · exact .seek ⟨by decide, List.forall_mem_singleton.2 (by decide), by decide⟩
        ⟨by decide, List.forall_mem_singleton.2 (by decide), by decide⟩ (by decide)
    · have hempty : (Request.line [newline]).Sends [[newline]] :=
        .line ⟨by decide, [], rfl, by decide⟩ (by decide) (by decide) rfl (by decide)
      exact hempty
  have heval : (run serve (start inboxes) xs).map (fun z ↦
      ((z.2.proc 0).code, (z.2.proc 1).code, sentBytes (own 0 z.1), sentBytes (own 1 z.1))) =
      .ok (.ret, .ret, [97, 98, newline], [98, newline]) := by
    decide +kernel
  have hgood : Along serve GoesWell (start inboxes) xs := by
    decide +kernel
  obtain ⟨⟨trace, w⟩, hrun, hend⟩ := exists_of_map_eq_ok heval
  simp only [Prod.mk.injEq] at hend
  obtain ⟨hret₀, hret₁, hsent₀, hsent₁⟩ := hend
  obtain ⟨-, -, hreturned, -⟩ := server_refines_store hsends hrun hgood
  exact ⟨trace, w, hrun, hsent₀, hsent₁, (hreturned 0 hret₀).2, (hreturned 1 hret₁).2⟩

end Aesd
