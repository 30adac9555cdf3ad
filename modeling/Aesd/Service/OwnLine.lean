import Aesd.Service.Refinement

/-!
# Whether a client reads its own line

A client that sends a line gets the ring as its reply, but not at once: its line is stored in one
critical section and the ring is read in a later one. Between the two any number of other clients
can store their lines. The reply has the client's own line if and only if they are fewer than ten
(`own_line_kept_or_evicted`).
-/

namespace Aesd

open Execution MutualExclusion

section Lines

variable {r : Request} {chunks cmds inbox : List (List Byte)} {stored : Bool}
  {given : Option (List Byte)} {sys : System} {code : Code} {sent : List Byte} {left : ℕ}
  {l : Locals} {fd : ℕ} {seekto : AesdSeekto}

theorem Outside.ne_ioctl (h : Outside r chunks stored given code inbox sent left) :
    code ≠ .ioctl l fd seekto := by
  intro hcode
  cases h with
  | ending =>
    rename_i acts _ _
    cases acts <;> exact Code.noConfusion hcode
  | _ => exact Code.noConfusion hcode

/-- The thread of a line does not seek. -/
theorem Inside.isLine_of_ioctl (h : Inside r cmds stored sys code inbox sent left)
    (hcode : code = .ioctl l fd seekto) : r.isLine = false := by
  cases h with
  | seeking hr => rw [hr, Request.isLine]
  | entry => cases r <;> exact Code.noConfusion hcode
  | reading => cases r <;> exact Code.noConfusion hcode
  | finishing hsys hacts hunlock =>
    obtain ⟨a, acts, rfl⟩ := List.exists_cons_of_ne_nil (List.ne_nil_of_mem hunlock)
    exact Code.noConfusion hcode
  | _ => exact Code.noConfusion hcode

end Lines

section Runs

variable {req : ℕ → Request} {inboxes : ℕ → List (List Byte)} {xs : List (ℕ × Choice)}
  {trace : List (ℕ × Event)} {w : World} {s : Store}

/-- With lines only, a run goes well if nothing is refused. -/
theorem Follows.goesWell (h : Follows req inboxes trace w s) (hlines : ∀ i, (req i).isLine = true)
    {x : ℕ × Choice} (hgrants : x.2.Grants) : GoesWell w x := by
  refine ⟨hgrants, fun l fd seekto hcode ↦ ?_⟩
  by_cases hholds : w.owner = some x.1
  · obtain ⟨-, left, hinside, -⟩ := h.inside x.1 hholds
    exact absurd ((hlines x.1).symm.trans (hinside.isLine_of_ioctl hcode)) (by decide)
  · obtain ⟨left, houtside, -⟩ := h.outside x.1 hholds
    exact absurd hcode houtside.ne_ioctl

theorem along_goesWell_of_lines (hsends : ∀ i, (req i).Sends (inboxes i))
    (hlines : ∀ i, (req i).isLine = true) (hgrants : ∀ x ∈ xs, x.2.Grants) :
    Along serve GoesWell (start inboxes) xs := by
  refine along_of_invariant (I := fun w ↦ ∃ trace s, Follows req inboxes trace w s)
    (D := fun x ↦ x.2.Grants) ?_ ?_ ⟨[], Store.empty, Follows.start req inboxes⟩ hgrants
  · rintro w x ⟨trace, s, hfollows⟩ hgrants
    exact hfollows.goesWell hlines hgrants
  · rintro w x y w' ⟨trace, s, hfollows⟩ hgood hserve
    exact ⟨_, _, hfollows.step hsends hgood hserve⟩

end Runs

/-- What client `i` has been sent. The ring is that of the device when the thread of `i` has just
left its second critical section, and `between` are the clients whose first critical sections came
after that of `i` and before this. If they are fewer than ten, the line of `i` is one of the
commands in the ring. If not, the ring has lines of theirs only. -/
def ReadsBack (line : ℕ → List Byte) (inboxes : ℕ → List (List Byte)) (xs : List (ℕ × Choice))
    (trace : List (ℕ × Event)) (i : ℕ) : Prop :=
  ∃ xs₁ xs₂ trace₁ trace₂ w₁ visits before between, xs = xs₁ ++ xs₂ ∧ trace = trace₁ ++ trace₂ ∧
    run serve (start inboxes) xs₁ = .ok (trace₁, w₁) ∧ w₁.owner = none ∧
    sections trace₁ = visits ++ [i] ∧ visits.count i = 1 ∧
    (sections trace₁).eraseDups = before ++ i :: between ∧ i ∉ before ∧ i ∉ between ∧
    sentBytes (own i trace) = w₁.env.kernel.commands.flatten ∧
    (between.length < 10 → w₁.env.kernel.commands =
      (before.map line).rtake (9 - between.length) ++ line i :: between.map line) ∧
    (10 ≤ between.length → w₁.env.kernel.commands = (between.map line).rtake 10)

/-- **Whether a client reads its own line.** Any number of clients send a line each, and nothing
is refused. Then the reply to a client has its own line, as one whole command, if fewer than ten
clients left their lines between its two critical sections, and otherwise the lines of ten of
these. -/
theorem own_line_kept_or_evicted {line : ℕ → List Byte} {inboxes : ℕ → List (List Byte)}
    {xs : List (ℕ × Choice)} {trace : List (ℕ × Event)} {w : World}
    (hsends : ∀ i, (Request.line (line i)).Sends (inboxes i)) (hgrants : ∀ x ∈ xs, x.2.Grants)
    (hrun : run serve (start inboxes) xs = .ok (trace, w)) {i : ℕ}
    (hret : (w.proc i).code = .ret) : ReadsBack line inboxes xs trace i := by
  have hgood : Along serve GoesWell (start inboxes) xs :=
    along_goesWell_of_lines hsends (fun _ ↦ rfl) hgrants
  obtain ⟨xs₁, xs₂, trace₁, trace₂, w₁, visits, rfl, rfl, hrun₁, hfree, hsections, hcount, -,
    hsent⟩ := repliedFromRing_of_ret hsends hrun hgood hret
  have hgood₁ := hgood.take xs₁.length
  rw [List.take_left] at hgood₁
  obtain ⟨-, hring, -⟩ := (follows_of_run hsends hrun₁ hgood₁).device_eq hfree
  have hnodup := Store.nodup_first_after (fun i ↦ Request.line (line i)) (sections trace₁)
  have hfirst : (Store.after (fun i ↦ Request.line (line i)) (sections trace₁)).first =
      (sections trace₁).eraseDups := by
    rw [Store.first_after]
    exact congrArg List.eraseDups (List.filter_eq_self.2 fun _ _ ↦ rfl)
  rw [Store.kept, Store.lines, hfirst] at hring
  rw [hfirst] at hnodup
  have hmem : i ∈ (sections trace₁).eraseDups := by
    rw [List.mem_eraseDups, hsections]
    exact List.mem_append_right _ List.mem_cons_self
  obtain ⟨before, between, hsplit⟩ := List.append_of_mem hmem
  rw [hsplit] at hring hnodup
  replace hring :
      w₁.env.kernel.commands = (before.map line ++ line i :: between.map line).rtake 10 := by
    rw [hring, List.map_append]
    rfl
  have hlen : (between.map line).length = between.length := List.length_map _
  rw [List.nodup_middle, List.nodup_cons, List.mem_append, not_or] at hnodup
  obtain ⟨⟨hbefore, hbetween⟩, -⟩ := hnodup
  refine ⟨xs₁, xs₂, trace₁, trace₂, w₁, visits, before, between, rfl, rfl, hrun₁, hfree, hsections,
    hcount, hsplit, hbefore, hbetween, hsent, fun hfew ↦ ?_, fun hmany ↦ ?_⟩
  · have hroom : (line i :: between.map line).length ≤ 10 := by
      rw [List.length_cons, hlen]
      omega
    rw [hring, BoundedFifo.rtake_append_of_length_le hroom, List.length_cons, hlen, Nat.add_comm,
      ← Nat.sub_sub]
  · rw [hring, List.append_cons, BoundedFifo.rtake_append_of_le (by rwa [hlen])]

/-- The first client sends one line, the others another one. -/
theorem sends_letters (i : ℕ) :
    (Request.line (if i = 0 then [97, newline] else [98, newline])).Sends
      [if i = 0 then [97, newline] else [98, newline]] := by
  split
  · exact .line ⟨by decide, [97], rfl, by decide⟩ (by decide) (by decide) rfl (by decide)
  · exact .line ⟨by decide, [98], rfl, by decide⟩ (by decide) (by decide) rfl (by decide)

/-- One client comes between the two critical sections of another. -/
theorem own_line_kept_or_evicted_one_between :
    let line : ℕ → List Byte := fun i ↦ if i = 0 then [97, newline] else [98, newline]
    let xs := List.replicate 9 (0, Choice.granting 3) ++ List.replicate 22 (1, Choice.granting 3) ++
      List.replicate 13 (0, Choice.granting 3)
    ∃ trace w, run serve (start fun i ↦ [line i]) xs = .ok (trace, w) ∧
      sentBytes (own 0 trace) = [97, newline, 98, newline] ∧
      ReadsBack line (fun i ↦ [line i]) xs trace 0 := by
  intro line xs
  have heval : (run serve (start fun i ↦ [line i]) xs).map (fun z ↦
      ((z.2.proc 0).code, sentBytes (own 0 z.1))) = .ok (.ret, [97, newline, 98, newline]) := by
    decide +kernel
  obtain ⟨⟨trace, w⟩, hrun, hend⟩ := exists_of_map_eq_ok heval
  rw [Prod.mk.injEq] at hend
  exact ⟨trace, w, hrun, hend.2,
    own_line_kept_or_evicted sends_letters (by decide +kernel) hrun hend.1⟩

/-- Ten clients come between the two critical sections of the first one, and its reply lacks its
line. -/
theorem own_line_evicted :
    let line : ℕ → List Byte := fun i ↦ if i = 0 then [97, newline] else [98, newline]
    let xs := List.replicate 9 (0, Choice.granting 3) ++
      ((List.range 10).flatMap fun k ↦ List.replicate 9 (k + 1, Choice.granting 3)) ++
      List.replicate 29 (0, Choice.granting 3)
    (∀ i, (Request.line (line i)).Sends [line i]) ∧ (∀ x ∈ xs, x.2.Grants) ∧
      ∃ trace w, run serve (start fun i ↦ [line i]) xs = .ok (trace, w) ∧
        (w.proc 0).code = .ret ∧ 97 ∉ sentBytes (own 0 trace) := by
  intro line xs
  have heval : (run serve (start fun i ↦ [line i]) xs).map (fun z ↦
      ((z.2.proc 0).code, decide (97 ∈ sentBytes (own 0 z.1)))) = .ok (.ret, false) := by
    decide +kernel
  obtain ⟨⟨trace, w⟩, hrun, hend⟩ := exists_of_map_eq_ok heval
  rw [Prod.mk.injEq, decide_eq_false_iff_not] at hend
  exact ⟨sends_letters, by decide +kernel, trace, w, hrun, hend⟩

end Aesd
