import Mathlib.Data.List.Induction

/-!
# Runs of a machine

A machine takes one input at a time; it answers and moves to a next state, or it stops. A state is
reachable when a run leads to it.

Rules for runs:

* what the first state satisfies and every step keeps, every reachable state satisfies
  (`Reachable.invariant`), and every state along a run from a state that does (`invariant_of_run`);
  likewise for what relates a state to the answers given so far (`history_of_run`,
  `history_of_along`);
* a machine that moves wherever an invariant and a condition on the input hold finishes every run
  whose inputs meet the condition where they are taken (`exists_run_of_along`);
* a relation to an abstract state that every step carries over to what the input does abstractly
  relates the end of a run to the abstract run (`simulates_of_run`); if it relates the states of two
  machines that answer alike, every run of the one is a run of the other
  (`exists_run_of_refines`).
-/

namespace Execution

variable {ε σ ι ρ τ : Type*} {step : σ → ι → Except ε (ρ × σ)}

/-- Take the inputs one after the other: all answers, and the last state. -/
def run (step : σ → ι → Except ε (ρ × σ)) : σ → List ι → Except ε (List ρ × σ)
  | s, [] => .ok ([], s)
  | s, i :: is =>
    match step s i with
    | .error e => .error e
    | .ok (r, s') =>
      match run step s' is with
      | .error e => .error e
      | .ok (rs, t) => .ok (r :: rs, t)

/-- Some run leads from one state to the other. -/
def Reachable (step : σ → ι → Except ε (ρ × σ)) (s t : σ) : Prop :=
  ∃ is rs, run step s is = .ok (rs, t)

/-- Each input of the run meets `C` in the state where it is taken. -/
def Along (step : σ → ι → Except ε (ρ × σ)) (C : σ → ι → Prop) : σ → List ι → Prop
  | _, [] => True
  | s, i :: is => C s i ∧ ∀ r s', step s i = .ok (r, s') → Along step C s' is

/-- Running the machine decides whether the condition is met. -/
instance decidableAlong {C : σ → ι → Prop} [∀ s i, Decidable (C s i)] :
    ∀ s is, Decidable (Along step C s is)
  | _, [] => .isTrue trivial
  | s, i :: is =>
    match h : step s i with
    | .error _ => decidable_of_iff (C s i) (by simp [Along, h])
    | .ok (_, s') =>
      have := decidableAlong (C := C) s' is
      decidable_of_iff (C s i ∧ Along step C s' is) (by simp [Along, h])

variable {s s' t : σ} {i : ι} {is js : List ι} {r : ρ} {rs : List ρ}

@[simp]
theorem run_nil (s : σ) : run step s [] = .ok ([], s) :=
  rfl

theorem run_cons_of_ok (h : step s i = .ok (r, s')) (hrun : run step s' is = .ok (rs, t)) :
    run step s (i :: is) = .ok (r :: rs, t) := by
  simp only [run, h, hrun]

/-- A run is its first step and the run after it. -/
theorem run_cons_eq_ok_iff :
    run step s (i :: is) = .ok (rs, t) ↔
      ∃ r s' rs', step s i = .ok (r, s') ∧ run step s' is = .ok (rs', t) ∧ rs = r :: rs' := by
  constructor
  · intro h
    rw [run] at h
    rcases hstep : step s i with e | ⟨r, s'⟩
    · simp [hstep] at h
    · rcases hrun : run step s' is with e | ⟨rs', t'⟩
      · simp [hstep, hrun] at h
      · simp only [hstep, hrun, Except.ok.injEq, Prod.mk.injEq] at h
        obtain ⟨rfl, rfl⟩ := h
        exact ⟨r, s', rs', rfl, hrun, rfl⟩
  · rintro ⟨r, s', rs', hstep, hrun, rfl⟩
    exact run_cons_of_ok hstep hrun

/-- Runs compose. -/
theorem run_append_eq_ok_iff :
    run step s (is ++ js) = .ok (rs, t) ↔
      ∃ rs₁ s' rs₂, run step s is = .ok (rs₁, s') ∧ run step s' js = .ok (rs₂, t) ∧
        rs = rs₁ ++ rs₂ := by
  induction is generalizing s rs with
  | nil =>
    constructor
    · exact fun h ↦ ⟨[], s, rs, rfl, h, rfl⟩
    · rintro ⟨rs₁, s', rs₂, h₁, h₂, rfl⟩
      obtain ⟨rfl, rfl⟩ := Prod.mk.inj (Except.ok.inj h₁)
      exact h₂
  | cons i is ih =>
    rw [List.cons_append, run_cons_eq_ok_iff]
    constructor
    · rintro ⟨r, s₁, rs', hstep, hrun, rfl⟩
      obtain ⟨rs₁, s', rs₂, h₁, h₂, rfl⟩ := ih.1 hrun
      exact ⟨r :: rs₁, s', rs₂, run_cons_of_ok hstep h₁, h₂, rfl⟩
    · rintro ⟨rs₁, s', rs₂, h₁, h₂, rfl⟩
      obtain ⟨r, s₁, rs', hstep, hrun, rfl⟩ := run_cons_eq_ok_iff.1 h₁
      exact ⟨r, s₁, rs' ++ rs₂, hstep, ih.2 ⟨rs', s', rs₂, hrun, h₂, rfl⟩, rfl⟩

theorem length_of_run (h : run step s is = .ok (rs, t)) : rs.length = is.length := by
  induction is generalizing s rs with
  | nil =>
    obtain ⟨rfl, -⟩ := Prod.mk.inj (Except.ok.inj h)
    rfl
  | cons i is ih =>
    obtain ⟨r, s', rs', -, hrun, rfl⟩ := run_cons_eq_ok_iff.1 h
    rw [List.length_cons, List.length_cons, ih hrun]

/-- A run that gives some answers and then others is a run that gives the first and one that gives
the others. -/
theorem exists_run_of_answers {rs₁ rs₂ : List ρ} (h : run step s is = .ok (rs₁ ++ rs₂, t)) :
    ∃ is₁ is₂ s', is = is₁ ++ is₂ ∧ run step s is₁ = .ok (rs₁, s') ∧
      run step s' is₂ = .ok (rs₂, t) := by
  have hlen := length_of_run h
  rw [← List.take_append_drop rs₁.length is] at h
  obtain ⟨rs₁', s', rs₂', h₁, h₂, heq⟩ := run_append_eq_ok_iff.1 h
  have hlen₁ := length_of_run h₁
  rw [List.length_append] at hlen
  rw [List.length_take_of_le (by omega)] at hlen₁
  obtain ⟨rfl, rfl⟩ := List.append_inj heq hlen₁.symm
  exact ⟨_, _, s', (List.take_append_drop _ _).symm, h₁, h₂⟩

/-- The step that gives an answer of a run. -/
theorem exists_step_of_answers {rs₁ rs₂ : List ρ} (h : run step s is = .ok (rs₁ ++ r :: rs₂, t)) :
    ∃ is₁ i is₂ s₁ s₂, is = is₁ ++ i :: is₂ ∧ run step s is₁ = .ok (rs₁, s₁) ∧
      step s₁ i = .ok (r, s₂) ∧ run step s₂ is₂ = .ok (rs₂, t) := by
  obtain ⟨is₁, is', s₁, rfl, h₁, h'⟩ := exists_run_of_answers h
  rcases is' with - | ⟨i, is₂⟩
  · exact absurd (length_of_run h') (by simp)
  · obtain ⟨r', s₂, rs', hi, h₂, hrs⟩ := run_cons_eq_ok_iff.1 h'
    obtain ⟨rfl, rfl⟩ := List.cons.inj hrs
    exact ⟨is₁, i, is₂, s₁, s₂, rfl, h₁, hi, h₂⟩

/-- The last answer is that of the last step. -/
theorem exists_last_step (h : run step s is = .ok (rs ++ [r], t)) :
    ∃ is' i s', is = is' ++ [i] ∧ run step s is' = .ok (rs, s') ∧ step s' i = .ok (r, t) := by
  obtain ⟨is', i, is₂, s', s₂, rfl, h', hi, hnil⟩ := exists_step_of_answers h
  obtain rfl := List.eq_nil_of_length_eq_zero (length_of_run hnil).symm
  obtain ⟨-, rfl⟩ := Prod.mk.inj (Except.ok.inj hnil)
  exact ⟨is', i, s', rfl, h', hi⟩

/-- The step a run takes at its `n`-th input. -/
theorem exists_step_of_run (h : run step s is = .ok (rs, t)) {n : ℕ} (hn : is[n]? = some i) :
    ∃ s₁ r s₂, run step s (is.take n) = .ok (rs.take n, s₁) ∧ step s₁ i = .ok (r, s₂) ∧
      rs[n]? = some r := by
  induction is generalizing s rs n with
  | nil => exact absurd hn (by simp)
  | cons j is ih =>
    obtain ⟨r, s', rs', hstep, hrun, rfl⟩ := run_cons_eq_ok_iff.1 h
    rcases n with - | n
    · obtain rfl := Option.some.inj hn
      exact ⟨s, r, s', rfl, hstep, rfl⟩
    · obtain ⟨s₁, r', s₂, htake, hstep', hr'⟩ := ih hrun hn
      exact ⟨s₁, r', s₂, run_cons_of_ok hstep htake, hstep', hr'⟩

/-- A computation that comes to its end, and whose result another one goes on with. -/
theorem exists_of_bind_eq_ok {ε α β : Type} {x : Except ε α} {f : α → Except ε β} {b : β}
    (h : (x >>= f) = .ok b) : ∃ a, x = .ok a ∧ f a = .ok b := by
  rcases x with e | a
  · exact absurd h (by simp [bind, Except.bind])
  · exact ⟨a, rfl, h⟩

/-- What the result of a computation has is what it has if it comes to an end. -/
theorem exists_of_map_eq_ok {ε α β : Type} {x : Except ε α} {f : α → β} {b : β}
    (h : x.map f = .ok b) : ∃ a, x = .ok a ∧ f a = b := by
  rcases x with e | a
  · exact absurd h (by simp [Except.map])
  · exact ⟨a, rfl, Except.ok.inj h⟩

/-! ### Invariants -/

theorem Reachable.refl (s : σ) : Reachable step s s :=
  ⟨[], [], rfl⟩

theorem Reachable.of_run (hs : Reachable step s s') (h : run step s' is = .ok (rs, t)) :
    Reachable step s t := by
  obtain ⟨is₀, rs₀, h₀⟩ := hs
  exact ⟨is₀ ++ is, rs₀ ++ rs, run_append_eq_ok_iff.2 ⟨rs₀, s', rs, h₀, h, rfl⟩⟩

theorem Reachable.tail (hs : Reachable step s s') (h : step s' i = .ok (r, t)) :
    Reachable step s t :=
  hs.of_run (run_cons_of_ok h (run_nil t))

/-- What every step keeps that meets the condition, and answers as `D` says. -/
theorem invariant_of_along {I : σ → Prop} {C : σ → ι → Prop} {D : ρ → Prop}
    (hstep : ∀ s i r s', I s → C s i → D r → step s i = .ok (r, s') → I s') (hs : I s)
    (h : run step s is = .ok (rs, t)) (hC : Along step C s is) (hD : ∀ r ∈ rs, D r) : I t := by
  induction is generalizing s rs with
  | nil =>
    obtain ⟨-, rfl⟩ := Prod.mk.inj (Except.ok.inj h)
    exact hs
  | cons i is ih =>
    obtain ⟨r, s', rs', hi, hrun, rfl⟩ := run_cons_eq_ok_iff.1 h
    rw [List.forall_mem_cons] at hD
    exact ih (hstep s i r s' hs hC.1 hD.1 hi) hrun (hC.2 r s' hi) hD.2

theorem along_cons_of_ok {C : σ → ι → Prop} (hC : C s i) (hstep : step s i = .ok (r, s'))
    (h : Along step C s' is) : Along step C s (i :: is) := by
  refine ⟨hC, fun r₁ s₁ hstep₁ ↦ ?_⟩
  obtain ⟨-, rfl⟩ := Prod.mk.inj (Except.ok.inj (hstep.symm.trans hstep₁))
  exact h

/-- A condition on the inputs alone. -/
theorem along_of_forall {C : ι → Prop} (h : ∀ i ∈ is, C i) : Along step (fun _ i ↦ C i) s is := by
  induction is generalizing s with
  | nil => exact trivial
  | cons i is ih =>
    rw [List.forall_mem_cons] at h
    exact ⟨h.1, fun r s' _ ↦ ih h.2⟩

/-- An invariant under which the inputs meet the condition. -/
theorem along_of_invariant {I : σ → Prop} {C : σ → ι → Prop} {D : ι → Prop}
    (hC : ∀ s i, I s → D i → C s i)
    (hstep : ∀ s i r s', I s → C s i → step s i = .ok (r, s') → I s') (hs : I s)
    (h : ∀ i ∈ is, D i) : Along step C s is := by
  induction is generalizing s with
  | nil => exact trivial
  | cons i is ih =>
    rw [List.forall_mem_cons] at h
    have hi := hC s i hs h.1
    exact ⟨hi, fun r s' hok ↦ ih (hstep s i r s' hs hi hok) h.2⟩

theorem Along.and {C D : σ → ι → Prop} (h : Along step C s is) (h' : Along step D s is) :
    Along step (fun s i ↦ C s i ∧ D s i) s is := by
  induction is generalizing s with
  | nil => exact trivial
  | cons i is ih => exact ⟨⟨h.1, h'.1⟩, fun r s' hstep ↦ ih (h.2 r s' hstep) (h'.2 r s' hstep)⟩

theorem Along.mono {C D : σ → ι → Prop} (h : Along step C s is) (hCD : ∀ s i, C s i → D s i) :
    Along step D s is := by
  induction is generalizing s with
  | nil => exact trivial
  | cons i is ih => exact ⟨hCD s i h.1, fun r s' hstep ↦ ih (h.2 r s' hstep)⟩

/-- A condition met at the end of every beginning of the run. -/
theorem along_of_prefixes {C : σ → ι → Prop}
    (h : ∀ is₁ i is₂ rs t, is = is₁ ++ i :: is₂ → run step s is₁ = .ok (rs, t) → C t i) :
    Along step C s is := by
  induction is generalizing s with
  | nil => exact trivial
  | cons i is ih =>
    refine ⟨h [] i is [] s rfl rfl, fun r s' hstep ↦ ih fun is₁ j is₂ rs t his hrun ↦ ?_⟩
    exact h (i :: is₁) j is₂ (r :: rs) t (by rw [his, List.cons_append])
      (run_cons_of_ok hstep hrun)

theorem Along.append {C : σ → ι → Prop} (h : Along step C s is)
    (hrun : run step s is = .ok (rs, t)) (h' : Along step C t js) :
    Along step C s (is ++ js) := by
  induction is generalizing s rs with
  | nil =>
    obtain ⟨-, rfl⟩ := Prod.mk.inj (Except.ok.inj hrun)
    exact h'
  | cons i is ih =>
    obtain ⟨r, s', rs', hstep, hrun', rfl⟩ := run_cons_eq_ok_iff.1 hrun
    exact along_cons_of_ok h.1 hstep (ih (h.2 r s' hstep) hrun')

theorem Along.take {C : σ → ι → Prop} (h : Along step C s is) (n : ℕ) :
    Along step C s (is.take n) := by
  induction is generalizing s n with
  | nil => rwa [List.take_nil]
  | cons i is ih =>
    rcases n with - | n
    · exact trivial
    · exact ⟨h.1, fun r s' hstep ↦ ih (h.2 r s' hstep) n⟩

/-- The condition at the `n`-th input. -/
theorem Along.of_getElem? {C : σ → ι → Prop} (h : Along step C s is) {n : ℕ}
    (hn : is[n]? = some i) (hrun : run step s (is.take n) = .ok (rs, t)) : C t i := by
  induction is generalizing s rs n with
  | nil => exact absurd hn (by simp)
  | cons j is ih =>
    rcases n with - | n
    · obtain rfl := Option.some.inj hn
      obtain ⟨-, rfl⟩ := Prod.mk.inj (Except.ok.inj hrun)
      exact h.1
    · rw [List.take_succ_cons] at hrun
      obtain ⟨r, s', rs', hstep, hrun', -⟩ := run_cons_eq_ok_iff.1 hrun
      exact ih (h.2 r s' hstep) hn hrun'

/-- What every step that meets the condition keeps of the answers given so far and the state. The
step is one of a run, so that what is known of runs is known before it. -/
theorem history_of_along {I : List ρ → σ → Prop} {C : σ → ι → Prop}
    (hstep : ∀ is rs s' i r t, run step s is = .ok (rs, s') → I rs s' → C s' i →
      step s' i = .ok (r, t) → I (rs ++ [r]) t)
    (hs : I [] s) (h : run step s is = .ok (rs, t)) (hC : Along step C s is) : I rs t := by
  induction is using List.reverseRecOn generalizing rs t with
  | nil =>
    obtain ⟨rfl, rfl⟩ := Prod.mk.inj (Except.ok.inj h)
    exact hs
  | append_singleton is i ih =>
    obtain ⟨rs₁, s', rs₂, h₁, h₂, rfl⟩ := run_append_eq_ok_iff.1 h
    obtain ⟨r, t', rs', hi, hnil, rfl⟩ := run_cons_eq_ok_iff.1 h₂
    obtain ⟨rfl, rfl⟩ := Prod.mk.inj (Except.ok.inj hnil)
    have hbefore := hC.take is.length
    rw [List.take_left] at hbefore
    have hhere : C s' i := hC.of_getElem? (n := is.length) (by simp) (by rwa [List.take_left])
    exact hstep is rs₁ s' i r t' h₁ (ih h₁ hbefore) hhere hi

/-- What every step keeps of the answers given so far and the state, holds after a run. -/
theorem history_of_run {I : List ρ → σ → Prop}
    (hstep : ∀ rs s i r s', I rs s → step s i = .ok (r, s') → I (rs ++ [r]) s') (hs : I [] s)
    (h : run step s is = .ok (rs, t)) : I rs t :=
  history_of_along (C := fun _ _ ↦ True) (fun _ rs s' i r t _ hI _ hi ↦ hstep rs s' i r t hI hi) hs
    h (along_of_forall fun _ _ ↦ trivial)

/-- What every step keeps holds along a run. -/
theorem invariant_of_run {I : σ → Prop}
    (hstep : ∀ s i r s', I s → step s i = .ok (r, s') → I s') (hs : I s)
    (h : run step s is = .ok (rs, t)) : I t :=
  history_of_run (I := fun _ s ↦ I s) (fun _ s i r s' ↦ hstep s i r s') hs h

/-- **The rule for invariants.** -/
theorem Reachable.invariant {I : σ → Prop}
    (hstep : ∀ s i r s', I s → step s i = .ok (r, s') → I s') (hs : I s)
    (h : Reachable step s t) : I t := by
  obtain ⟨is, rs, hrun⟩ := h
  exact invariant_of_run hstep hs hrun

/-- **The rule for progress**: a run that meets the condition all along comes to its end. -/
theorem exists_run_of_along {I : σ → Prop} {C : σ → ι → Prop}
    (hstep : ∀ s i, I s → C s i → ∃ r s', step s i = .ok (r, s') ∧ I s') (hs : I s)
    (h : Along step C s is) : ∃ rs t, run step s is = .ok (rs, t) ∧ I t := by
  induction is generalizing s with
  | nil => exact ⟨[], s, rfl, hs⟩
  | cons i is ih =>
    obtain ⟨hC, hnext⟩ := h
    obtain ⟨r, s', hi, hI⟩ := hstep s i hs hC
    obtain ⟨rs, t, hrun, ht⟩ := ih hI (hnext r s' hi)
    exact ⟨r :: rs, t, run_cons_of_ok hi hrun, ht⟩

/-- **The rule for simulations**: the end of a run simulates the abstract run. -/
theorem simulates_of_run {R : σ → τ → Prop} {abs : τ → ι → τ} {C : ι → ρ → Prop}
    (hstep : ∀ s a i r s', R s a → C i r → step s i = .ok (r, s') → R s' (abs a i)) {a : τ}
    (hs : R s a) (h : run step s is = .ok (rs, t)) (hC : List.Forall₂ C is rs) :
    R t (is.foldl abs a) := by
  induction is generalizing s rs a with
  | nil =>
    obtain ⟨-, rfl⟩ := Prod.mk.inj (Except.ok.inj h)
    exact hs
  | cons i is ih =>
    obtain ⟨r, s', rs', hi, hrun, rfl⟩ := run_cons_eq_ok_iff.1 h
    obtain ⟨hr, hrs⟩ := List.forall₂_cons.1 hC
    exact ih (hstep s a i r s' hs hr hi) hrun hrs

/-- **The rule for refinements**: a machine that takes the same inputs with the same answers. -/
theorem exists_run_of_refines {R : σ → τ → Prop} {step' : τ → ι → Except ε (ρ × τ)}
    (hstep : ∀ s a i r s', R s a → step s i = .ok (r, s') →
      ∃ a', step' a i = .ok (r, a') ∧ R s' a') {a : τ}
    (hs : R s a) (h : run step s is = .ok (rs, t)) :
    ∃ b, run step' a is = .ok (rs, b) ∧ R t b := by
  induction is generalizing s rs a with
  | nil =>
    obtain ⟨rfl, rfl⟩ := Prod.mk.inj (Except.ok.inj h)
    exact ⟨a, rfl, hs⟩
  | cons i is ih =>
    obtain ⟨r, s', rs', hi, hrun, rfl⟩ := run_cons_eq_ok_iff.1 h
    obtain ⟨a', hi', hs'⟩ := hstep s a i r s' hs hi
    obtain ⟨b, hrun', ht⟩ := ih hs' hrun
    exact ⟨b, run_cons_of_ok hi' hrun', ht⟩

end Execution
