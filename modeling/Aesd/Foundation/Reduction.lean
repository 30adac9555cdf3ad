import Aesd.Foundation.Mutex

/-!
# Critical sections one after the other

Processes under one mutex, where a process that does not hold the mutex neither sees nor changes
what they share (`Bystands`). Its steps commute with those of the process that holds it
(`run_of_bystander`), so they can be taken before its section begins. Every interleaving is then
the same, for each process and in what is left in the end, as one in which a process that holds the
mutex takes all steps until it unlocks it (`exists_serial_run`).
-/

namespace MutualExclusion

open Execution

variable {δ σ ι ρ ε : Type*}

/-- If the process does not hold the mutex, it does not unlock it, and unless it locks it, its step
neither sees nor changes the environment. -/
def Bystands (act : δ → σ → ι → Except ε (ρ × δ × σ)) (role : ρ → Role) (w : Shared δ σ)
    (x : ℕ × ι) : Prop :=
  w.owner ≠ some x.1 → ∀ r env p, act w.env (w.proc x.1) x.2 = .ok (r, env, p) →
    role r ≠ .unlock ∧
      (role r = .other → env = w.env ∧ ∀ env', act env' (w.proc x.1) x.2 = .ok (r, env', p))

/-- Whoever holds the mutex takes the step. -/
def HolderSteps (w : Shared δ σ) (x : ℕ × ι) : Prop :=
  ∀ i, w.owner = some i → x.1 = i

/-- The steps that lock or unlock the mutex. -/
def lockings (role : ρ → Role) (trace : List (ℕ × ρ)) : List (ℕ × ρ) :=
  trace.filter fun y ↦ decide (role y.2 ≠ .other)

@[simp]
theorem own_nil {α : Type*} (i : ℕ) : own i ([] : List (ℕ × α)) = [] :=
  rfl

@[simp]
theorem lockings_nil (role : ρ → Role) : lockings role [] = [] :=
  rfl

/-- The part of a process in two traces, one after the other. -/
theorem own_append {α : Type*} (i : ℕ) (trace trace' : List (ℕ × α)) :
    own i (trace ++ trace') = own i trace ++ own i trace' :=
  List.filterMap_append

/-- A process that is not in a trace has no part in it. -/
theorem own_eq_nil {α : Type*} {i : ℕ} {trace : List (ℕ × α)} (h : ∀ y ∈ trace, y.1 ≠ i) :
    own i trace = [] := by
  refine List.filterMap_eq_nil_iff.2 fun y hy ↦ ?_
  rw [if_neg (h y hy)]

section Serial

variable {act : δ → σ → ι → Except ε (ρ × δ × σ)} {role : ρ → Role} {blocked : ε}
  {w w' w₀ w₁ : Shared δ σ} {i k : ℕ} {x : ι} {r : ρ} {xs sect : List (ℕ × ι)}
  {trace t : List (ℕ × ρ)} {p : σ}

/-- What one process does does not depend on where another one is. -/
theorem step_update {y : ℕ × ρ} {x : ℕ × ι} (hne : x.1 ≠ i)
    (h : step act role blocked w x = .ok (y, w')) :
    step act role blocked ⟨w.env, w.owner, Function.update w.proc i p⟩ x =
      .ok (y, ⟨w'.env, w'.owner, Function.update w'.proc i p⟩) := by
  have hself : Function.update w.proc i p x.1 = w.proc x.1 := Function.update_of_ne hne ..
  rw [step] at h ⊢
  simp only [hself]
  rcases hact : act w.env (w.proc x.1) x.2 with e | ⟨r, env, q⟩
  · simp [hact] at h
  · simp only [hact] at h ⊢
    have hcomm := Function.update_comm hne q p w.proc
    rcases hrole : role r with - | - | -
    · rcases howner : w.owner with - | j
      · simp only [hrole, howner] at h ⊢
        obtain ⟨rfl, rfl⟩ := Prod.mk.inj (Except.ok.inj h)
        simp only [hcomm]
      · simp [hrole, howner] at h
    all_goals
      simp only [hrole] at h ⊢
      obtain ⟨rfl, rfl⟩ := Prod.mk.inj (Except.ok.inj h)
      simp only [hcomm]

/-- **A bystander's step can be taken first.** -/
theorem run_of_bystander (hsect : ∀ x ∈ sect, x.1 ≠ i)
    (h : run (step act role blocked) w sect = .ok (t, w')) :
    run (step act role blocked) ⟨w.env, w.owner, Function.update w.proc i p⟩ sect =
      .ok (t, ⟨w'.env, w'.owner, Function.update w'.proc i p⟩) := by
  induction sect generalizing w t with
  | nil =>
    obtain ⟨rfl, rfl⟩ := Prod.mk.inj (Except.ok.inj h)
    rfl
  | cons x sect ih =>
    obtain ⟨y, w₁, t', hstep, hrun, rfl⟩ := run_cons_eq_ok_iff.1 h
    rw [List.forall_mem_cons] at hsect
    exact run_cons_of_ok (step_update hsect.1 hstep) (ih hsect.2 hrun)

/-- The steps of one process disturb nobody, if nobody else holds the mutex. -/
theorem along_holderSteps (hsect : ∀ x ∈ sect, x.1 = k)
    (howner : w.owner = none ∨ w.owner = some k) :
    Along (step act role blocked) HolderSteps w sect := by
  induction sect generalizing w with
  | nil => exact trivial
  | cons x sect ih =>
    obtain ⟨j, x⟩ := x
    rw [List.forall_mem_cons] at hsect
    obtain ⟨rfl, hsect⟩ := hsect
    refine ⟨fun i hi ↦ ?_, fun y w' hstep ↦ ih hsect ?_⟩
    · rcases howner with hnone | hsome
      · exact absurd (hi.symm.trans hnone) (by simp)
      · exact Option.some.inj (hsome.symm.trans hi)
    · obtain ⟨r, env, p, -, -, -, -, hlock | hunlock | hother⟩ := step_cases hstep
      · exact Or.inr hlock.2.2
      · exact Or.inl hunlock.2
      · rwa [hother.2]

/-- The run `xs` from `w₀` is the run `done` in which sections are whole, and after it `sect`, the
section of the process that holds the mutex. -/
structure Serialized (act : δ → σ → ι → Except ε (ρ × δ × σ)) (role : ρ → Role) (blocked : ε)
    (w₀ : Shared δ σ) (xs : List (ℕ × ι)) (trace : List (ℕ × ρ)) (w : Shared δ σ)
    (done sect : List (ℕ × ι)) (t t' : List (ℕ × ρ)) (w₁ : Shared δ σ) : Prop where
  run_done : run (step act role blocked) w₀ done = .ok (t, w₁)
  run_sect : run (step act role blocked) w₁ sect = .ok (t', w)
  free : w₁.owner = none
  serial : Along (step act role blocked) HolderSteps w₀ done
  sect_own : ∀ x ∈ sect, w.owner = some x.1
  inputs : ∀ i, own i (done ++ sect) = own i xs
  outputs : ∀ i, own i (t ++ t') = own i trace
  order : lockings role (t ++ t') = lockings role trace

/-- The locks and unlocks of two traces, one after the other. -/
theorem lockings_append (role : ρ → Role) (t t' : List (ℕ × ρ)) :
    lockings role (t ++ t') = lockings role t ++ lockings role t' :=
  List.filter_append ..

/-- One step more. -/
theorem Serialized.step {done : List (ℕ × ι)} {t' : List (ℕ × ρ)} {x : ℕ × ι} {y : ℕ × ρ}
    (h : Serialized act role blocked w₀ xs trace w done sect t t' w₁)
    (hstep : MutualExclusion.step act role blocked w x = .ok (y, w'))
    (hx : Bystands act role w x) :
    ∃ done sect t t' w₁, Serialized act role blocked w₀ (xs ++ [x]) (trace ++ [y]) w' done sect t t'
      w₁ := by
  obtain ⟨i, x⟩ := x
  have hone := run_cons_of_ok hstep (run_nil w')
  obtain ⟨r, env, p, hact, rfl, henv, hproc, howner⟩ := step_cases hstep
  -- what is in each part, for each process
  have hin : ∀ j, own j xs = own j done ++ own j sect := fun j ↦ by
    rw [← h.inputs, own_append]
  have hout : ∀ j, own j trace = own j t ++ own j t' := fun j ↦ by
    rw [← h.outputs, own_append]
  have hord : lockings role trace = lockings role t ++ lockings role t' := by
    rw [← h.order, lockings_append]
  rcases hown : w.owner with - | k
  · -- nobody holds the mutex
    obtain rfl : sect = [] := List.eq_nil_iff_forall_not_mem.2 fun z hz ↦
      absurd ((h.sect_own z hz).symm.trans hown) (by simp)
    obtain ⟨rfl, rfl⟩ := Prod.mk.inj (Except.ok.inj h.run_sect)
    obtain ⟨hnot, -⟩ := hx (by simp [hown]) r env p hact
    obtain ⟨-, -, hlock⟩ | ⟨hunlock, -⟩ | ⟨-, hother⟩ := howner
    · refine ⟨done, [(i, x)], t, [(i, r)], w₁, h.run_done, hone, h.free, h.serial, ?_,
        fun j ↦ ?_, fun j ↦ ?_, ?_⟩
      · simpa using hlock
      · simp [own_append, hin]
      · simp [own_append, hout]
      · simp [lockings_append, hord]
    · exact absurd hunlock hnot
    · refine ⟨done ++ [(i, x)], [], t ++ [(i, r)], [], w',
        run_append_eq_ok_iff.2 ⟨t, w₁, _, h.run_done, hone, rfl⟩, rfl, ?_,
        h.serial.append h.run_done ⟨fun j hj ↦ ?_, fun _ _ _ ↦ trivial⟩, by simp,
        fun j ↦ ?_, fun j ↦ ?_, ?_⟩
      · rw [hother, hown]
      · exact absurd (hj.symm.trans hown) (by simp)
      · simp [own_append, hin]
      · simp [own_append, hout]
      · simp [lockings_append, hord]
  have hsect : ∀ z ∈ sect, z.1 = k := fun z hz ↦ Option.some.inj ((h.sect_own z hz).symm.trans hown)
  have hboth := run_append_eq_ok_iff.2 ⟨t', w, _, h.run_sect, hone, rfl⟩
  rcases eq_or_ne i k with rfl | hne
  · -- the step of the process that holds it
    have hall : ∀ z ∈ sect ++ [(i, x)], z.1 = i := by
      simpa [or_imp, forall_and] using hsect
    obtain ⟨-, hfree, -⟩ | ⟨-, hunlock⟩ | ⟨-, hother⟩ := howner
    · exact absurd (hfree.symm.trans hown) (by simp)
    · refine ⟨done ++ (sect ++ [(i, x)]), [], t ++ (t' ++ [(i, r)]), [], w',
        run_append_eq_ok_iff.2 ⟨t, w₁, _, h.run_done, hboth, rfl⟩, rfl, hunlock,
        h.serial.append h.run_done (along_holderSteps hall (Or.inl h.free)), by simp,
        fun j ↦ ?_, fun j ↦ ?_, ?_⟩
      · simp [own_append, hin]
      · simp [own_append, hout]
      · simp [lockings_append, hord]
    · refine ⟨done, sect ++ [(i, x)], t, t' ++ [(i, r)], w₁, h.run_done, hboth, h.free, h.serial,
        fun z hz ↦ ?_, fun j ↦ ?_, fun j ↦ ?_, ?_⟩
      · rw [hother, hown, hall z hz]
      · simp [own_append, hin]
      · simp [own_append, hout]
      · simp [lockings_append, hord]
  · -- a bystander's step goes before the section
    have hnotOwner : w.owner ≠ some i := fun hi ↦ hne (Option.some.inj (hi.symm.trans hown))
    obtain ⟨hnot, hquiet⟩ := hx hnotOwner r env p hact
    obtain ⟨-, hfree, -⟩ | ⟨hunlock, -⟩ | ⟨hother, howner⟩ := howner
    · exact absurd (hfree.symm.trans hown) (by simp)
    · exact absurd hunlock hnot
    obtain ⟨rfl, hsame⟩ := hquiet hother
    have hsect' : ∀ z ∈ sect, z.1 ≠ i := fun z hz hi ↦ hne (hi.symm.trans (hsect z hz))
    have htrace' : ∀ y ∈ t', y.1 ≠ i := by
      intro y hy hi
      have hmem := List.mem_map_of_mem (f := Prod.fst) hy
      rw [map_fst_of_run h.run_sect] at hmem
      obtain ⟨z, hz, hzy⟩ := List.mem_map.1 hmem
      exact hsect' z hz (hzy.trans hi)
    have hfirst : MutualExclusion.step act role blocked w₁ (i, x) =
        .ok ((i, r), ⟨w₁.env, w₁.owner, Function.update w₁.proc i p⟩) := by
      have hact₁ := hsame w₁.env
      rw [proc_eq_of_run h.run_sect hsect'] at hact₁
      simp only [MutualExclusion.step, hact₁, hother]
    have hlast := run_of_bystander (p := p) hsect' h.run_sect
    obtain rfl : w' = ⟨w.env, w.owner, Function.update w.proc i p⟩ := by
      rw [← henv, ← howner, ← hproc]
    refine ⟨done ++ [(i, x)], sect, t ++ [(i, r)], t', _,
      run_append_eq_ok_iff.2 ⟨t, w₁, _, h.run_done, run_cons_of_ok hfirst (run_nil _), rfl⟩, hlast,
      h.free, h.serial.append h.run_done ⟨fun j hj ↦ ?_, fun _ _ _ ↦ trivial⟩, h.sect_own,
      fun j ↦ ?_, fun j ↦ ?_, ?_⟩
    · exact absurd (hj.symm.trans h.free) (by simp)
    · rcases eq_or_ne i j with rfl | hij
      · simp only [own_append, hin, own_eq_nil hsect', List.append_nil]
      · have hnil : own j [(i, x)] = [] := own_eq_nil (by simpa using hij)
        simp only [own_append, hin, hnil, List.append_nil]
    · rcases eq_or_ne i j with rfl | hij
      · simp only [own_append, hout, own_eq_nil htrace', List.append_nil]
      · have hnil : own j [(i, r)] = [] := own_eq_nil (by simpa using hij)
        simp only [own_append, hout, hnil, List.append_nil]
    · have hnil : lockings role [(i, r)] = [] := by simp [lockings, hother]
      simp only [lockings_append, hord, hnil, List.append_nil]

/-- **Every run has a serial one**: the calls of the others between a lock and its unlock are moved
before the lock, one at a time. -/
theorem exists_serialized (h : run (step act role blocked) w₀ xs = .ok (trace, w))
    (hfree : w₀.owner = none) (hbystand : Along (step act role blocked) (Bystands act role) w₀ xs) :
    ∃ done sect t t' w₁, Serialized act role blocked w₀ xs trace w done sect t t' w₁ := by
  induction xs using List.reverseRecOn generalizing trace w with
  | nil =>
    obtain ⟨rfl, rfl⟩ := Prod.mk.inj (Except.ok.inj h)
    exact ⟨[], [], [], [], w₀, rfl, rfl, hfree, trivial, by simp, fun _ ↦ rfl, fun _ ↦ rfl, rfl⟩
  | append_singleton xs x ih =>
    obtain ⟨trace', w', ys, hrun, hlast, rfl⟩ := run_append_eq_ok_iff.1 h
    obtain ⟨y, w'', ys', hstep, hnil, rfl⟩ := run_cons_eq_ok_iff.1 hlast
    obtain ⟨rfl, rfl⟩ := Prod.mk.inj (Except.ok.inj hnil)
    have hbefore := hbystand.take xs.length
    rw [List.take_left] at hbefore
    have hhere : Bystands act role w' x :=
      hbystand.of_getElem? (n := xs.length) (by simp) (by rwa [List.take_left])
    obtain ⟨done, sect, t, t', w₁, hserial⟩ := ih hrun hbefore
    exact hserial.step hstep hhere

/-- **Every interleaving is one of whole sections.** If whoever does not hold the mutex stands by,
every run can be reordered into one in which a process that holds the mutex takes all steps until
it unlocks it. Every process takes the same steps in it, the mutex is locked and unlocked in the
same order, and the end is the same. -/
theorem exists_serial_run (h : run (step act role blocked) w₀ xs = .ok (trace, w))
    (hfree : w₀.owner = none) (hbystand : Along (step act role blocked) (Bystands act role) w₀ xs) :
    ∃ xs' trace', run (step act role blocked) w₀ xs' = .ok (trace', w) ∧
      Along (step act role blocked) HolderSteps w₀ xs' ∧ (∀ i, own i xs' = own i xs) ∧
      (∀ i, own i trace' = own i trace) ∧ lockings role trace' = lockings role trace := by
  obtain ⟨done, sect, t, t', w₁, hserial⟩ := exists_serialized h hfree hbystand
  refine ⟨done ++ sect, t ++ t', run_append_eq_ok_iff.2 ⟨t, w₁, t', hserial.run_done,
    hserial.run_sect, rfl⟩, hserial.serial.append hserial.run_done ?_, hserial.inputs,
    hserial.outputs, hserial.order⟩
  rcases hown : w.owner with - | k
  · obtain rfl : sect = [] := List.eq_nil_iff_forall_not_mem.2 fun z hz ↦
      absurd ((hserial.sect_own z hz).symm.trans hown) (by simp)
    exact trivial
  · refine along_holderSteps (k := k) (fun z hz ↦ ?_) (Or.inl hserial.free)
    exact Option.some.inj ((hserial.sect_own z hz).symm.trans hown)

end Serial

end MutualExclusion
