import Mathlib.Logic.Function.Basic
import Aesd.Foundation.Execution

/-!
# Processes under one mutex

Any number of processes share an environment and one mutex and take their steps in any order. A
process is a machine of its own (`act`); the mutex sees only what role an action plays for it. A
process that locks a held mutex waits; unlocking frees the mutex, whoever holds it.

Whether a process holds the mutex, as far as it can know, is a function of its own actions
(`holding`); the function is undefined once the process has locked the mutex while holding it or
unlocked it while not. If it is defined for every process, then what they believe is true
(`holding_own`): a process believes that it holds the mutex exactly when it does. In particular no
two do.
-/

namespace MutualExclusion

open Execution

/-- What an action does to the mutex. -/
inductive Role
  | lock
  | unlock
  | other
deriving DecidableEq, Repr

/-- Processes with a common environment and a mutex. -/
structure Shared (δ σ : Type*) where
  env : δ
  /-- The process that holds the mutex. -/
  owner : Option ℕ
  proc : ℕ → σ

variable {δ σ ι ρ ε : Type*}

/-- One process takes a step. -/
def step (act : δ → σ → ι → Except ε (ρ × δ × σ)) (role : ρ → Role) (blocked : ε)
    (w : Shared δ σ) (x : ℕ × ι) : Except ε ((ℕ × ρ) × Shared δ σ) :=
  match act w.env (w.proc x.1) x.2 with
  | .error e => .error e
  | .ok (r, env, p) =>
    match role r, w.owner with
    | .lock, some _ => .error blocked
    | .lock, none => .ok ((x.1, r), ⟨env, some x.1, Function.update w.proc x.1 p⟩)
    | .unlock, _ => .ok ((x.1, r), ⟨env, none, Function.update w.proc x.1 p⟩)
    | .other, owner => .ok ((x.1, r), ⟨env, owner, Function.update w.proc x.1 p⟩)

/-- Whether a process holds the mutex after an action, if that action is allowed. -/
def Role.after : Bool → Role → Option Bool
  | held, .other => some held
  | false, .lock => some true
  | true, .unlock => some false
  | _, _ => none

/-- Whether a process holds the mutex after its actions; `none` if one was not allowed. -/
def holding (roles : List Role) : Option Bool :=
  roles.foldlM Role.after false

/-- The actions of process `i` in a trace. -/
def own {α : Type*} (i : ℕ) (trace : List (ℕ × α)) : List α :=
  trace.filterMap fun x ↦ if x.1 = i then some x.2 else none

theorem own_concat_self {α : Type*} (i : ℕ) (trace : List (ℕ × α)) (r : α) :
    own i (trace ++ [(i, r)]) = own i trace ++ [r] := by
  simp [own]

theorem own_concat_of_ne {α : Type*} {i j : ℕ} (h : j ≠ i) (trace : List (ℕ × α)) (r : α) :
    own i (trace ++ [(j, r)]) = own i trace := by
  simp [own, h]

theorem holding_append (roles roles' : List Role) :
    holding (roles ++ roles') = (holding roles).bind fun held ↦ roles'.foldlM Role.after held :=
  List.foldlM_append

theorem holding_concat (roles : List Role) (r : Role) :
    holding (roles ++ [r]) = (holding roles).bind (Role.after · r) := by
  rw [holding, List.foldlM_append]
  simp [holding]

theorem holding_of_holding_concat {roles : List Role} {r : Role}
    (h : holding (roles ++ [r]) ≠ none) : holding roles ≠ none := by
  intro hnone
  rw [holding_concat, hnone] at h
  exact h rfl

section Shared

variable {act : δ → σ → ι → Except ε (ρ × δ × σ)} {role : ρ → Role} {blocked : ε}
  {w w' : Shared δ σ} {i : ℕ} {x : ι} {r : ρ} {trace : List (ℕ × ρ)}

/-- What a step does to the mutex and to the processes. -/
theorem step_cases {y : ℕ × ρ} (h : step act role blocked w (i, x) = .ok (y, w')) :
    ∃ r env p, act w.env (w.proc i) x = .ok (r, env, p) ∧ y = (i, r) ∧ w'.env = env ∧
      w'.proc = Function.update w.proc i p ∧
      ((role r = .lock ∧ w.owner = none ∧ w'.owner = some i) ∨
        (role r = .unlock ∧ w'.owner = none) ∨ (role r = .other ∧ w'.owner = w.owner)) := by
  rw [step] at h
  rcases hact : act w.env (w.proc i) x with e | ⟨r, env, p⟩
  · simp [hact] at h
  · refine ⟨r, env, p, rfl, ?_⟩
    simp only [hact] at h
    rcases hrole : role r with - | - | -
    · rcases howner : w.owner with - | j
      · simp only [hrole, howner, Except.ok.injEq, Prod.mk.injEq] at h
        obtain ⟨rfl, rfl⟩ := h
        exact ⟨rfl, rfl, rfl, Or.inl ⟨rfl, rfl, rfl⟩⟩
      · simp [hrole, howner] at h
    · simp only [hrole, Except.ok.injEq, Prod.mk.injEq] at h
      obtain ⟨rfl, rfl⟩ := h
      exact ⟨rfl, rfl, rfl, Or.inr (Or.inl ⟨rfl, rfl⟩)⟩
    · simp only [hrole, Except.ok.injEq, Prod.mk.injEq] at h
      obtain ⟨rfl, rfl⟩ := h
      exact ⟨rfl, rfl, rfl, Or.inr (Or.inr ⟨rfl, rfl⟩)⟩

/-- The step in another environment in which the process acts alike. -/
theorem step_of_act {δ' : Type*} {act' : δ' → σ → ι → Except ε (ρ × δ' × σ)} {g : δ → δ'}
    {y : ℕ × ρ}
    (hact : ∀ r env p, act w.env (w.proc i) x = .ok (r, env, p) →
      act' (g w.env) (w.proc i) x = .ok (r, g env, p))
    (h : step act role blocked w (i, x) = .ok (y, w')) :
    step act' role blocked ⟨g w.env, w.owner, w.proc⟩ (i, x) =
      .ok (y, ⟨g w'.env, w'.owner, w'.proc⟩) := by
  rw [step] at h ⊢
  rcases hacts : act w.env (w.proc i) x with e | ⟨r, env, p⟩
  · simp [hacts] at h
  · simp only [hacts] at h
    simp only [hact r env p hacts]
    rcases hrole : role r with - | - | -
    · rcases hfree : w.owner with - | j
      · simp only [hrole, hfree] at h ⊢
        obtain ⟨rfl, rfl⟩ := Prod.mk.inj (Except.ok.inj h)
        rfl
      · simp [hrole, hfree] at h
    all_goals
      simp only [hrole] at h ⊢
      obtain ⟨rfl, rfl⟩ := Prod.mk.inj (Except.ok.inj h)
      rfl

/-- A process whose machine can act takes a step, or waits for another that holds the mutex. -/
theorem exists_step_or_blocked {env : δ} {p : σ} (hact : act w.env (w.proc i) x = .ok (r, env, p))
    (hlock : role r = .lock → w.owner ≠ some i) :
    (∃ w', step act role blocked w (i, x) = .ok ((i, r), w')) ∨
      (step act role blocked w (i, x) = .error blocked ∧ ∃ j ≠ i, w.owner = some j) := by
  rw [step]
  simp only [hact]
  rcases hrole : role r with - | - | -
  · rcases howner : w.owner with - | j
    · exact Or.inl ⟨_, rfl⟩
    · refine Or.inr ⟨rfl, j, ?_, rfl⟩
      rintro rfl
      exact hlock hrole howner
  · exact Or.inl ⟨_, rfl⟩
  · exact Or.inl ⟨_, rfl⟩

/-- Every process believes to hold the mutex exactly when it does. -/
def Believes (role : ρ → Role) (trace : List (ℕ × ρ)) (owner : Option ℕ) : Prop :=
  ∀ i, holding ((own i trace).map role) = some (decide (owner = some i))

theorem believes_nil : Believes role [] none := by
  intro i
  rfl

/-- One step keeps the beliefs true, if all beliefs are defined after it. -/
theorem Believes.step (hbelieves : Believes role trace w.owner) {y : ℕ × ρ}
    (hdefined : ∀ j, holding ((own j (trace ++ [y])).map role) ≠ none)
    (h : step act role blocked w (i, x) = .ok (y, w')) :
    Believes role (trace ++ [y]) w'.owner := by
  obtain ⟨r, env, p, -, rfl, -, -, howner⟩ := step_cases h
  have hself := hdefined i
  rw [own_concat_self, List.map_append, List.map_singleton, holding_concat, hbelieves i,
    Option.bind_some] at hself
  intro j
  rcases eq_or_ne i j with rfl | hne
  · rw [own_concat_self, List.map_append, List.map_singleton, holding_concat, hbelieves i,
      Option.bind_some]
    obtain ⟨hrole, hfree, howner⟩ | ⟨hrole, howner⟩ | ⟨hrole, howner⟩ := howner
    · rw [hrole, hfree, howner]
      simp [Role.after]
    · -- it may unlock only what it holds
      rw [hrole] at hself ⊢
      rw [howner]
      rcases hheld : decide (w.owner = some i) with - | -
      · rw [hheld] at hself
        exact absurd rfl hself
      · rfl
    · rw [hrole, howner]
      rfl
  · rw [own_concat_of_ne hne, hbelieves j]
    obtain ⟨-, hfree, howner⟩ | ⟨hrole, howner⟩ | ⟨-, howner⟩ := howner
    · rw [hfree, howner]
      simp [hne]
    · -- the mutex was held by `i`, so not by `j`
      have hheld : w.owner = some i := by
        rcases hdec : decide (w.owner = some i) with - | -
        · rw [hrole, hdec] at hself
          exact absurd rfl hself
        · exact of_decide_eq_true hdec
      rw [howner, hheld]
      simp [hne]
    · rw [howner]

/-- **What disciplined processes believe is true.** -/
theorem holding_own {w₀ : Shared δ σ} {xs : List (ℕ × ι)} (hfree : w₀.owner = none)
    (h : run (step act role blocked) w₀ xs = .ok (trace, w))
    (hdefined : ∀ i, holding ((own i trace).map role) ≠ none) : Believes role trace w.owner := by
  refine history_of_run
    (I := fun trace w ↦ (∀ i, holding ((own i trace).map role) ≠ none) →
      Believes role trace w.owner) ?_ ?_ h hdefined
  · rintro trace w ⟨i, x⟩ y w' hI hstep hdefined
    refine (hI fun j ↦ ?_).step hdefined hstep
    obtain ⟨r, -, -, -, rfl, -⟩ := step_cases hstep
    have hj := hdefined j
    rcases eq_or_ne i j with rfl | hne
    · rw [own_concat_self, List.map_append] at hj
      exact holding_of_holding_concat hj
    · rwa [own_concat_of_ne hne] at hj
  · rw [hfree]
    exact fun _ ↦ believes_nil

/-! ### Processes that take turns -/

/-- The steps are those of the processes whose inputs were taken. -/
theorem map_fst_of_run {xs : List (ℕ × ι)}
    (h : run (step act role blocked) w xs = .ok (trace, w')) :
    trace.map Prod.fst = xs.map Prod.fst := by
  induction xs generalizing w trace with
  | nil =>
    obtain ⟨rfl, -⟩ := Prod.mk.inj (Except.ok.inj h)
    rfl
  | cons x xs ih =>
    obtain ⟨y, w₁, trace', hstep, hrun, rfl⟩ := run_cons_eq_ok_iff.1 h
    obtain ⟨r, env, p, -, rfl, -⟩ := step_cases hstep
    rw [List.map_cons, List.map_cons, ih hrun]

/-- A process that takes no step stays where it is. -/
theorem proc_eq_of_run {xs : List (ℕ × ι)} (h : run (step act role blocked) w xs = .ok (trace, w'))
    (hi : ∀ x ∈ xs, x.1 ≠ i) : w'.proc i = w.proc i := by
  induction xs generalizing w trace with
  | nil =>
    obtain ⟨-, rfl⟩ := Prod.mk.inj (Except.ok.inj h)
    rfl
  | cons x xs ih =>
    obtain ⟨y, w₁, trace', hstep, hrun, rfl⟩ := run_cons_eq_ok_iff.1 h
    obtain ⟨r, env, p, -, -, -, hproc, -⟩ := step_cases hstep
    rw [List.forall_mem_cons] at hi
    rw [ih hrun hi.2, hproc, Function.update_of_ne hi.1.symm]

/-- **Processes that go one after the other.** If every process is at rest before and after, then,
whenever one takes a step, the others are at rest. -/
theorem along_of_sorted {P : σ → Prop} {xs : List (ℕ × ι)}
    (hsorted : xs.Pairwise fun x y ↦ x.1 ≤ y.1)
    (h : run (step act role blocked) w xs = .ok (trace, w')) (hbefore : ∀ i, P (w.proc i))
    (hafter : ∀ i, P (w'.proc i)) :
    Along (step act role blocked) (fun w x ↦ ∀ i ≠ x.1, P (w.proc i)) w xs := by
  -- one process, of which nothing is known, has not been overtaken
  suffices hone : ∀ {k : ℕ} {w : Shared δ σ} {trace : List (ℕ × ρ)}, (∀ x ∈ xs, k ≤ x.1) →
      (∀ i ≠ k, P (w.proc i)) → run (step act role blocked) w xs = .ok (trace, w') →
      Along (step act role blocked) (fun w x ↦ ∀ i ≠ x.1, P (w.proc i)) w xs from
    hone (k := 0) (fun x _ ↦ Nat.zero_le x.1) (fun i _ ↦ hbefore i) h
  clear h hbefore
  induction xs with
  | nil => exact fun _ _ _ ↦ trivial
  | cons x xs ih =>
    intro k w trace hk hothers hrun
    obtain ⟨hle, hsorted⟩ := List.pairwise_cons.1 hsorted
    -- who is overtaken is at rest
    have hrest : ∀ i ≠ x.1, P (w.proc i) := by
      intro i hi
      rcases eq_or_ne i k with rfl | hne
      · have hlt : i < x.1 := Nat.lt_of_le_of_ne (hk x List.mem_cons_self) hi
        rw [← proc_eq_of_run hrun fun y hy heq ↦ ?_]
        · exact hafter i
        · rcases List.mem_cons.1 hy with rfl | hy
          · exact hi heq.symm
          · have := hle y hy
            omega
      · exact hothers i hne
    obtain ⟨y, w₁, trace', hstep, hrun', rfl⟩ := run_cons_eq_ok_iff.1 hrun
    obtain ⟨r, env, p, -, -, -, hproc, -⟩ := step_cases hstep
    refine along_cons_of_ok hrest hstep (ih hsorted hle (fun i hi ↦ ?_) hrun')
    rw [hproc, Function.update_of_ne hi]
    exact hrest i hi

end Shared

/-! ### Processes that do not use the environment -/

section Alone

variable {alone : σ → ι → Except ε (ρ × σ)} {role : ρ → Role} {blocked : ε}

/-- The action of a process that leaves the environment alone. -/
def solo (alone : σ → ι → Except ε (ρ × σ)) (env : δ) (p : σ) (x : ι) :
    Except ε (ρ × δ × σ) :=
  match alone p x with
  | .error e => .error e
  | .ok (r, p') => .ok (r, env, p')

/-- **In any interleaving a process takes the run it takes alone.** -/
theorem run_own {w₀ w : Shared δ σ} {xs : List (ℕ × ι)} {trace : List (ℕ × ρ)}
    (h : run (step (solo alone) role blocked) w₀ xs = .ok (trace, w)) (i : ℕ) :
    run alone (w₀.proc i) (own i xs) = .ok (own i trace, w.proc i) := by
  induction xs generalizing w₀ trace with
  | nil =>
    obtain ⟨rfl, rfl⟩ := Prod.mk.inj (Except.ok.inj h)
    rfl
  | cons x xs ih =>
    obtain ⟨j, x⟩ := x
    obtain ⟨y, w₁, trace', hstep, hrun, rfl⟩ := run_cons_eq_ok_iff.1 h
    obtain ⟨r, env, p, hact, rfl, -, hproc, -⟩ := step_cases hstep
    have halone : alone (w₀.proc j) x = .ok (r, p) := by
      rw [solo] at hact
      rcases halone : alone (w₀.proc j) x with e | ⟨r', p'⟩
      · simp [halone] at hact
      · simp only [halone, Except.ok.injEq, Prod.mk.injEq] at hact
        obtain ⟨rfl, -, rfl⟩ := hact
        rfl
    have hrest := ih hrun
    rcases eq_or_ne j i with rfl | hne
    · rw [hproc, Function.update_self] at hrest
      simpa [own] using run_cons_of_ok halone hrest
    · rw [hproc, Function.update_of_ne hne.symm] at hrest
      simpa [own, hne] using hrest

end Alone

end MutualExclusion
