import Mathlib.Data.Nat.Init
import Aesd.Foundation.Execution

/-!
# Fair schedules

An endless schedule tries one input after the other, and an input that cannot be taken is dropped
(`attempts`). If what is left to do gets less with every step, and while not all is done there is
somebody whose next input can be taken, then all is done after finitely many attempts, provided
that everybody's turn comes again and again (`exists_done`). Nobody is asked to take a step at once.
-/

namespace Execution

variable {σ ι ρ ε κ : Type*}

/-- After `n` attempts: the inputs that were taken, what they were answered, and the state. -/
def attempts (step : σ → ι → Except ε (ρ × σ)) (s : σ) (sched : ℕ → ι) : ℕ → List ι × List ρ × σ
  | 0 => ([], [], s)
  | n + 1 =>
    match step (attempts step s sched n).2.2 (sched n) with
    | .ok (r, s') =>
      ((attempts step s sched n).1 ++ [sched n], (attempts step s sched n).2.1 ++ [r], s')
    | .error _ => attempts step s sched n

section Attempts

variable {step : σ → ι → Except ε (ρ × σ)} {s s' : σ} {sched : ℕ → ι} {n : ℕ} {r : ρ}

theorem attempts_succ_of_ok (h : step (attempts step s sched n).2.2 (sched n) = .ok (r, s')) :
    attempts step s sched (n + 1) =
      ((attempts step s sched n).1 ++ [sched n], (attempts step s sched n).2.1 ++ [r], s') := by
  rw [attempts]
  simp only [h]

/-- An attempt that fails changes nothing. -/
theorem attempts_succ_of_error {e : ε}
    (h : step (attempts step s sched n).2.2 (sched n) = .error e) :
    attempts step s sched (n + 1) = attempts step s sched n := by
  rw [attempts]
  simp only [h]

/-- The attempts that succeed are a run. -/
theorem run_attempts (step : σ → ι → Except ε (ρ × σ)) (s : σ) (sched : ℕ → ι) (n : ℕ) :
    run step s (attempts step s sched n).1 = .ok (attempts step s sched n).2 := by
  induction n with
  | zero => rfl
  | succ n ih =>
    rcases h : step (attempts step s sched n).2.2 (sched n) with e | ⟨r, s'⟩
    · rw [attempts_succ_of_error h, ih]
    · rw [attempts_succ_of_ok h]
      exact run_append_eq_ok_iff.2 ⟨_, _, [r], ih, run_cons_of_ok h (run_nil _), rfl⟩

/-- The inputs taken are inputs of the schedule. -/
theorem forall_mem_attempts {D : ι → Prop} (hD : ∀ n, D (sched n)) (n : ℕ) :
    ∀ i ∈ (attempts step s sched n).1, D i := by
  induction n with
  | zero => exact List.forall_mem_nil D
  | succ n ih =>
    rcases h : step (attempts step s sched n).2.2 (sched n) with e | ⟨r, s'⟩
    · rwa [attempts_succ_of_error h]
    · rw [attempts_succ_of_ok h]
      exact List.forall_mem_append.2 ⟨ih, List.forall_mem_singleton.2 (hD n)⟩

/-- The inputs taken meet a condition that the attempts meet. -/
theorem along_attempts {C : σ → ι → Prop}
    (hC : ∀ n, C (attempts step s sched n).2.2 (sched n)) (n : ℕ) :
    Along step C s (attempts step s sched n).1 := by
  induction n with
  | zero => exact trivial
  | succ n ih =>
    rcases h : step (attempts step s sched n).2.2 (sched n) with e | ⟨r, s'⟩
    · rwa [attempts_succ_of_error h]
    · rw [attempts_succ_of_ok h]
      exact ih.append (run_attempts step s sched n) ⟨hC n, fun _ _ _ ↦ trivial⟩

/-- Nothing changes until an attempt succeeds. -/
theorem attempts_eq_of_forall_ne_ok
    (h : ∀ m ≥ n, attempts step s sched m = attempts step s sched n →
      ∀ r s', step (attempts step s sched m).2.2 (sched m) ≠ .ok (r, s')) {m : ℕ} (hm : n ≤ m) :
    attempts step s sched m = attempts step s sched n := by
  induction m, hm using Nat.le_induction with
  | base => rfl
  | succ m hm ih =>
    rcases hstep : step (attempts step s sched m).2.2 (sched m) with e | ⟨r, s'⟩
    · rw [attempts_succ_of_error hstep, ih]
    · exact absurd hstep (h m hm ih r s')

/-- Somebody whose input can be taken now will not wait for ever, unless another one goes first. -/
theorem exists_next_step {who : ι → κ} {k : κ} {C : σ → ι → Prop}
    (hC : ∀ n, C (attempts step s sched n).2.2 (sched n))
    (hready : ∀ i, who i = k → C (attempts step s sched n).2.2 i →
      ∃ r s', step (attempts step s sched n).2.2 i = .ok (r, s'))
    (hfair : ∃ m ≥ n, who (sched m) = k) :
    ∃ m, attempts step s sched m = attempts step s sched n ∧
      ∃ r s', step (attempts step s sched m).2.2 (sched m) = .ok (r, s') := by
  by_contra hnone
  have hsame : ∀ m ≥ n, attempts step s sched m = attempts step s sched n := fun m hm ↦
    attempts_eq_of_forall_ne_ok (fun m _ hsame r s' h ↦ hnone ⟨m, hsame, r, s', h⟩) hm
  obtain ⟨m, hm, hwho⟩ := hfair
  have hCm := hC m
  rw [hsame m hm] at hCm
  obtain ⟨r, s', h⟩ := hready (sched m) hwho hCm
  exact hnone ⟨m, hsame m hm, r, s', by rw [hsame m hm, h]⟩

/-- **Under a fair schedule everything gets done.** -/
theorem exists_done (who : ι → κ) (P : κ → Prop) (C : σ → ι → Prop) (I : List ρ → σ → Prop)
    (done : σ → Prop) (left : List ρ → σ → ℕ) (hs : I [] s)
    (hstep : ∀ rs s i r s', I rs s → C s i → step s i = .ok (r, s') →
      I (rs ++ [r]) s' ∧ left (rs ++ [r]) s' < left rs s)
    (hready : ∀ rs s, I rs s → ¬ done s →
      ∃ k, P k ∧ ∀ i, who i = k → C s i → ∃ r s', step s i = .ok (r, s'))
    (hC : ∀ n, C (attempts step s sched n).2.2 (sched n))
    (hfair : ∀ k, P k → ∀ n, ∃ m ≥ n, who (sched m) = k) :
    ∃ n, I (attempts step s sched n).2.1 (attempts step s sched n).2.2 ∧
      done (attempts step s sched n).2.2 := by
  have hI : ∀ n, I (attempts step s sched n).2.1 (attempts step s sched n).2.2 := fun n ↦
    history_of_along (fun _ rs s i r s' _ hI hC h ↦ (hstep rs s i r s' hI hC h).1) hs
      (run_attempts step s sched n) (along_attempts hC n)
  -- by induction on what is left to do after `n` attempts
  have hall : ∀ b n, left (attempts step s sched n).2.1 (attempts step s sched n).2.2 = b →
      ∃ n, I (attempts step s sched n).2.1 (attempts step s sched n).2.2 ∧
        done (attempts step s sched n).2.2 := by
    intro b
    induction b using Nat.strong_induction_on with
    | _ b ih =>
      rintro n rfl
      by_cases hdone : done (attempts step s sched n).2.2
      · exact ⟨n, hI n, hdone⟩
      · obtain ⟨k, hk, hnext⟩ := hready _ _ (hI n) hdone
        obtain ⟨m, hm, r, s', h⟩ := exists_next_step hC hnext (hfair k hk n)
        have hless := (hstep _ _ _ _ _ (hI m) (hC m) h).2
        refine ih _ ?_ (m + 1) rfl
        rwa [attempts_succ_of_ok h, ← hm]
  exact hall _ 0 rfl

end Attempts

end Execution
