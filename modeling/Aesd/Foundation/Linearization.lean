import Aesd.Foundation.Mutex

/-!
# Calls under one lock are atomic

Any number of callers call operations on shared data and take the steps of their calls in any
order. What a call does all at once, when nobody else takes a step, is `alone`; taken apart it is a
chain of places (`micro`). What is left to do at a place, all at once, is `rest`.

The laws (`Calls.Lawful`) are about one call: it takes the lock once at most; outside of the lock
it neither sees nor changes the shared data; and every step does what `rest` does first. They give
that every interleaving is a sequence of whole calls (`exists_linearization`). A call stands in the
sequence where it took the lock, or where it returned if it took none, so between its invocation
and its return; and it answers what it answers alone. The shared data may be between two states of
the sequence only while somebody is inside (`Linearized`). A step that cannot be taken waits for
the lock (`Linearized.waits_of_error`).
-/

namespace Linearization

open Execution MutualExclusion

/-- Where a call is with respect to the lock. -/
inductive Phase
  | before
  | inside
  | after
deriving DecidableEq, Repr

variable {δ σ κ α π ε : Type*}

/-- Operations on shared data `δ` and on what the caller owns, `σ`: the calls `κ`, their answers `α`
and the places `π` a call goes through. -/
structure Calls (δ σ κ α π ε : Type*) where
  /-- A whole call. -/
  alone : δ → σ → κ → Except ε (α × δ × σ)
  /-- The first place of a call. -/
  enter : σ → κ → π
  /-- One step: to the next place, or to the return. -/
  micro : δ → π → Except ε (δ × (π ⊕ (α × σ)))
  phase : π → Phase
  held : δ → Bool
  /-- A bound on the steps that are left. -/
  rank : π → ℕ
  rank_lt : ∀ {d p d' p'}, micro d p = .ok (d', .inl p') → rank p' < rank p

/-- A caller: what it owns, and its call with the place the call has got to. -/
structure Caller (σ κ π : Type*) where
  own : σ
  call : Option (κ × π)

/-- The shared data and the callers. -/
structure State (δ σ κ π : Type*) where
  shared : δ
  caller : ℕ → Caller σ κ π

/-- Nobody is in a call. -/
def State.start (d : δ) (own : ℕ → σ) : State δ σ κ π :=
  ⟨d, fun i ↦ ⟨own i, none⟩⟩

/-- The shared data and one caller change. -/
def State.put (s : State δ σ κ π) (d : δ) (i : ℕ) (k : Caller σ κ π) : State δ σ κ π :=
  ⟨d, Function.update s.caller i k⟩

@[simp]
theorem State.put_caller (s : State δ σ κ π) (d : δ) (i : ℕ) (k : Caller σ κ π) (j : ℕ) :
    (s.put d i k).caller j = if j = i then k else s.caller j :=
  Function.update_apply ..

@[simp]
theorem State.put_shared (s : State δ σ κ π) (d : δ) (i : ℕ) (k : Caller σ κ π) :
    (s.put d i k).shared = d :=
  rfl

/-- What a step is. -/
inductive Note (κ α : Type*)
  | invoked (c : κ)
  | moved
  /-- The step that takes the lock. -/
  | locked (c : κ)
  /-- The return of a call that has not taken the lock. -/
  | answered (c : κ) (a : α)
  /-- The return of a call that has. -/
  | returned (c : κ) (a : α)
deriving DecidableEq

namespace Calls

variable (C : Calls δ σ κ α π ε)

/-- What is left of a call, all at once. -/
def rest (d : δ) (p : π) : Except ε (α × δ × σ) :=
  match _hmicro : C.micro d p with
  | .error e => .error e
  | .ok (d', .inl p') => rest d' p'
  | .ok (d', .inr (a, o)) => .ok (a, d', o)
termination_by C.rank p
decreasing_by exact C.rank_lt _hmicro

/-- What a call and the lock have to do with each other. -/
structure Lawful (GoodData : δ → Prop) (GoodOwn : σ → Prop) : Prop where
  /-- Step by step a call does what it does all at once. -/
  rest_enter : ∀ d o c, C.rest d (C.enter o c) = C.alone d o c
  phase_enter : ∀ o c, C.phase (C.enter o c) = .before
  /-- Before the lock is taken, a step neither sees nor changes the shared data. -/
  before : ∀ d p d' r, C.phase p = .before → C.micro d p = .ok (d', r) →
    (∃ p', r = .inl p' ∧ C.phase p' = .inside ∧ C.held d = false ∧ C.held d' = true) ∨
      ((∀ p', r = .inl p' → C.phase p' = .before) ∧ d' = d ∧ ∀ d₂, C.micro d₂ p = .ok (d₂, r))
  /-- Inside, the lock stays as it is. -/
  inside : ∀ d p d' p', C.phase p = .inside → C.micro d p = .ok (d', .inl p') →
    C.phase p' = .inside ∧ C.held d' = C.held d ∨ C.phase p' = .after
  /-- After it was given back, a step does the same whatever the shared data is. -/
  after : ∀ p, C.phase p = .after →
    ∃ r, (∀ p', r = .inl p' → C.phase p' = .after) ∧ ∀ d, C.micro d p = .ok (d, r)
  good_alone : ∀ d o c a d' o', GoodData d → GoodOwn o → C.alone d o c = .ok (a, d', o') →
    GoodData d' ∧ GoodOwn o'
  /-- With the lock free a call returns. -/
  total : ∀ d o c, GoodData d → GoodOwn o → C.held d = false →
    ∃ a d' o', C.alone d o c = .ok (a, d', o')

/-- One step of one caller. If it is in no call, it makes the call that the input says. -/
def step (s : State δ σ κ π) (x : ℕ × κ) : Except ε ((ℕ × Note κ α) × State δ σ κ π) :=
  match (s.caller x.1).call with
  | none =>
    .ok ((x.1, .invoked x.2), s.put s.shared x.1
      ⟨(s.caller x.1).own, some (x.2, C.enter (s.caller x.1).own x.2)⟩)
  | some (c, p) =>
    match C.micro s.shared p with
    | .error e => .error e
    | .ok (d, .inl p') =>
      .ok ((x.1, if C.phase p = .before ∧ C.phase p' = .inside then .locked c else .moved),
        s.put d x.1 ⟨(s.caller x.1).own, some (c, p')⟩)
    | .ok (d, .inr (a, o)) =>
      .ok ((x.1, if C.phase p = .before then .answered c a else .returned c a),
        s.put d x.1 ⟨o, none⟩)

/-- One whole call of one caller. -/
def aloneStep (t : δ × (ℕ → σ)) (x : ℕ × κ) : Except ε (α × δ × (ℕ → σ)) :=
  match C.alone t.1 (t.2 x.1) x.2 with
  | .error e => .error e
  | .ok (a, d, o) => .ok (a, d, Function.update t.2 x.1 o)

end Calls

/-- The calls that have returned, with their answers. -/
def completed (notes : List (Note κ α)) : List (κ × α) :=
  notes.filterMap fun
    | .answered c a | .returned c a => some (c, a)
    | _ => none

/-- The calls in the order in which they took effect. -/
def effects (trace : List (ℕ × Note κ α)) : List (ℕ × κ) :=
  trace.filterMap fun
    | (i, .locked c) | (i, .answered c _) => some (i, c)
    | _ => none

/-- The calls of a sequence, without their answers. -/
def inputs (calls : List (ℕ × κ × α)) : List (ℕ × κ) :=
  calls.map fun x ↦ (x.1, x.2.1)

/-- The answers. -/
def answers (calls : List (ℕ × κ × α)) : List α :=
  calls.map fun x ↦ x.2.2

/-- A caller that has taken the lock and not given it back. -/
def Calls.Inside (C : Calls δ σ κ α π ε) (k : Caller σ κ π) : Prop :=
  ∃ c p, k.call = some (c, p) ∧ C.phase p = .inside

/-- How a caller stands when the calls of the sequence have left the shared data `D` and the caller
with `o`, and the shared data is now `d`. Last its call, if it is in the sequence and has not
returned. -/
inductive Stands (C : Calls δ σ κ α π ε) (D d : δ) (o : σ) : Caller σ κ π → List (κ × α) → Prop
  | idle : Stands C D d o ⟨o, none⟩ []
  | before {c : κ} {p : π} (hphase : C.phase p = .before)
      (hrest : ∀ d₂, C.rest d₂ p = C.alone d₂ o c) : Stands C D d o ⟨o, some (c, p)⟩ []
  | inside {o₀ : σ} {c : κ} {p : π} {a : α} (hphase : C.phase p = .inside)
      (hrest : C.rest d p = .ok (a, D, o)) : Stands C D d o ⟨o₀, some (c, p)⟩ [(c, a)]
  | after {o₀ : σ} {c : κ} {p : π} {a : α} (hphase : C.phase p = .after)
      (hrest : ∀ d₂, C.rest d₂ p = .ok (a, d₂, o)) : Stands C D d o ⟨o₀, some (c, p)⟩ [(c, a)]

/-- The steps `trace` from `t₀` to `s` are the sequence `calls` of whole calls, which leads to
`t`. -/
structure Linearized (C : Calls δ σ κ α π ε) (GoodData : δ → Prop) (GoodOwn : σ → Prop)
    (t₀ : δ × (ℕ → σ)) (trace : List (ℕ × Note κ α)) (s : State δ σ κ π)
    (calls : List (ℕ × κ × α)) (t : δ × (ℕ → σ)) : Prop where
  run : run C.aloneStep t₀ (inputs calls) = .ok (answers calls, t)
  order : inputs calls = effects trace
  caller : ∀ i, ∃ pending, Stands C t.1 s.shared (t.2 i) (s.caller i) pending ∧
    own i calls = completed (own i trace) ++ pending
  free : (∀ i, ¬ C.Inside (s.caller i)) → s.shared = t.1
  held : ∀ i, C.Inside (s.caller i) →
    C.held s.shared = true ∧ ∀ j ≠ i, ¬ C.Inside (s.caller j)
  goodData : GoodData t.1
  goodOwn : ∀ i, GoodOwn (t.2 i)

namespace Calls

variable {C : Calls δ σ κ α π ε} {d d' : δ} {p p' : π} {a : α} {o : σ} {e : ε}

theorem rest_of_moved (h : C.micro d p = .ok (d', .inl p')) : C.rest d p = C.rest d' p' := by
  rw [rest]
  split
  · rename_i hmicro
    exact absurd (h.symm.trans hmicro) (by simp)
  · rename_i hmicro
    obtain ⟨rfl, hp⟩ := Prod.mk.inj (Except.ok.inj (h.symm.trans hmicro))
    rw [Sum.inl.inj hp]
  · rename_i hmicro
    exact absurd (h.symm.trans hmicro) (by simp)

theorem rest_of_returned (h : C.micro d p = .ok (d', .inr (a, o))) :
    C.rest d p = .ok (a, d', o) := by
  rw [rest]
  split
  · rename_i hmicro
    exact absurd (h.symm.trans hmicro) (by simp)
  · rename_i hmicro
    exact absurd (h.symm.trans hmicro) (by simp)
  · rename_i hmicro
    obtain ⟨rfl, hp⟩ := Prod.mk.inj (Except.ok.inj (h.symm.trans hmicro))
    obtain ⟨rfl, rfl⟩ := Prod.mk.inj (Sum.inr.inj hp)
    rfl

theorem rest_of_error (h : C.micro d p = .error e) : C.rest d p = .error e := by
  rw [rest]
  split
  · rename_i hmicro
    rw [Except.error.inj (h.symm.trans hmicro)]
  · rename_i hmicro
    exact absurd (h.symm.trans hmicro) (by simp)
  · rename_i hmicro
    exact absurd (h.symm.trans hmicro) (by simp)

/-- After the lock was given back, the call returns the same whatever the shared data is. -/
theorem Lawful.exists_rest {GoodData : δ → Prop} {GoodOwn : σ → Prop}
    (hC : C.Lawful GoodData GoodOwn) (d : δ) {p : π} (hphase : C.phase p = .after) :
    ∃ a o, ∀ d₂, C.rest d₂ p = .ok (a, d₂, o) := by
  obtain ⟨p' | ⟨a, o⟩, hout, hsame⟩ := hC.after p hphase
  · have hlt := C.rank_lt (hsame d)
    obtain ⟨a, o, hrest⟩ := exists_rest hC d (hout p' rfl)
    exact ⟨a, o, fun d₂ ↦ by rw [rest_of_moved (hsame d₂), hrest]⟩
  · exact ⟨a, o, fun d₂ ↦ rest_of_returned (hsame d₂)⟩
termination_by C.rank p
decreasing_by exact hlt

end Calls

section Lemmas

variable {C : Calls δ σ κ α π ε} {GoodData : δ → Prop} {GoodOwn : σ → Prop} {t₀ t t' : δ × (ℕ → σ)}
  {trace : List (ℕ × Note κ α)} {s s' : State δ σ κ π} {calls calls' : List (ℕ × κ × α)}
  {D D' d d' : δ} {o : σ} {k k' : Caller σ κ π} {pending : List (κ × α)} {i : ℕ} {c : κ} {p : π}
  {a : α} {note : Note κ α}

theorem completed_concat (notes : List (Note κ α)) (note : Note κ α) :
    completed (notes ++ [note]) = completed notes ++ completed [note] :=
  List.filterMap_append

theorem effects_concat (trace : List (ℕ × Note κ α)) (y : ℕ × Note κ α) :
    effects (trace ++ [y]) = effects trace ++ effects [y] :=
  List.filterMap_append

theorem inputs_concat (calls : List (ℕ × κ × α)) (i : ℕ) (c : κ) (a : α) :
    inputs (calls ++ [(i, c, a)]) = inputs calls ++ [(i, c)] :=
  List.map_append

theorem answers_concat (calls : List (ℕ × κ × α)) (i : ℕ) (c : κ) (a : α) :
    answers (calls ++ [(i, c, a)]) = answers calls ++ [a] :=
  List.map_append

/-- A caller that is not inside stands as it does whatever happens to the shared data. -/
theorem Stands.of_not_inside (h : Stands C D d o k pending) (hk : ¬ C.Inside k) (D' d' : δ) :
    Stands C D' d' o k pending := by
  cases h with
  | idle => exact .idle
  | before hphase hrest => exact .before hphase hrest
  | inside hphase hrest => exact absurd ⟨_, _, rfl, hphase⟩ hk
  | after hphase hrest => exact .after hphase hrest

theorem Calls.not_inside_idle (C : Calls δ σ κ α π ε) (o : σ) : ¬ C.Inside ⟨o, none⟩ := by
  rintro ⟨c, p, hcall, -⟩
  exact absurd hcall (by simp)

theorem Calls.inside_iff (C : Calls δ σ κ α π ε) (o : σ) (c : κ) (p : π) :
    C.Inside ⟨o, some (c, p)⟩ ↔ C.phase p = .inside := by
  constructor
  · rintro ⟨c', p', hcall, hphase⟩
    rw [(Prod.mk.inj (Option.some.inj hcall)).2, hphase]
  · exact fun hphase ↦ ⟨c, p, rfl, hphase⟩

/-- A whole call at the end of the sequence. -/
theorem Linearized.run_concat (h : Linearized C GoodData GoodOwn t₀ trace s calls t) {o : σ}
    (halone : C.alone t.1 (t.2 i) c = .ok (a, D, o)) :
    Execution.run C.aloneStep t₀ (inputs (calls ++ [(i, c, a)])) =
      .ok (answers (calls ++ [(i, c, a)]), (D, Function.update t.2 i o)) := by
  have hstep : C.aloneStep t (i, c) = .ok (a, (D, Function.update t.2 i o)) := by
    simp only [Calls.aloneStep, halone]
  rw [inputs_concat, answers_concat]
  exact run_append_eq_ok_iff.2 ⟨_, t, [a], h.run, run_cons_of_ok hstep rfl, rfl⟩

/-- **One caller moves on**, and the sequence may get a call of it. -/
theorem Linearized.move (h : Linearized C GoodData GoodOwn t₀ trace s calls t)
    (hrun : Execution.run C.aloneStep t₀ (inputs calls') = .ok (answers calls', t'))
    (horder : inputs calls' = effects (trace ++ [(i, note)]))
    (hself : ∃ pending, Stands C t'.1 d' (t'.2 i) k' pending ∧
      own i calls' = completed (own i trace ++ [note]) ++ pending)
    (hothers : ∀ j ≠ i, own j calls' = own j calls ∧ t'.2 j = t.2 j)
    (hframe : (t'.1 = t.1 ∧ d' = s.shared) ∨ ∀ j ≠ i, ¬ C.Inside (s.caller j))
    (hfree : ¬ C.Inside k' → (∀ j ≠ i, ¬ C.Inside (s.caller j)) → d' = t'.1)
    (hheld : C.Inside k' → C.held d' = true ∧ ∀ j ≠ i, ¬ C.Inside (s.caller j))
    (hdata : GoodData t'.1) (hown : GoodOwn (t'.2 i)) :
    Linearized C GoodData GoodOwn t₀ (trace ++ [(i, note)]) (s.put d' i k') calls' t' where
  run := hrun
  order := horder
  caller j := by
    rcases eq_or_ne j i with rfl | hne
    · rw [own_concat_self, State.put_caller, if_pos rfl]
      exact hself
    · obtain ⟨pending, hstands, hcalls⟩ := h.caller j
      obtain ⟨hcalls', howns⟩ := hothers j hne
      rw [own_concat_of_ne hne.symm, State.put_caller, if_neg hne, hcalls', howns]
      refine ⟨pending, ?_, hcalls⟩
      rcases hframe with ⟨hD, hd⟩ | hout
      · rwa [hD, State.put_shared, hd]
      · exact hstands.of_not_inside (hout j hne) _ _
  free hnone := by
    refine hfree ?_ fun j hj ↦ ?_
    · simpa using hnone i
    · simpa [hj] using hnone j
  held j hj := by
    rw [State.put_caller] at hj
    split at hj
    · rename_i heq
      subst heq
      refine ⟨(hheld hj).1, fun l hl ↦ ?_⟩
      rw [State.put_caller, if_neg hl]
      exact (hheld hj).2 l hl
    · rename_i hne
      obtain ⟨hlock, hout⟩ := h.held j hj
      refine ⟨?_, fun l hl ↦ ?_⟩
      · rcases hframe with ⟨-, hd⟩ | hnone
        · rwa [State.put_shared, hd]
        · exact absurd hj (hnone j hne)
      · rw [State.put_caller]
        split
        · exact fun hk ↦ (hheld hk).2 j hne hj
        · exact hout l hl
  goodData := hdata
  goodOwn j := by
    rcases eq_or_ne j i with rfl | hne
    · exact hown
    · rw [(hothers j hne).2]
      exact h.goodOwn j

/-- A step outside of the lock that has no effect. -/
theorem Linearized.move_outside (h : Linearized C GoodData GoodOwn t₀ trace s calls t)
    (hnote : effects [(i, note)] = []) (hk : ¬ C.Inside (s.caller i)) (hk' : ¬ C.Inside k')
    (hstands : Stands C t.1 s.shared (t.2 i) k' pending)
    (hcalls : own i calls = completed (own i trace ++ [note]) ++ pending) :
    Linearized C GoodData GoodOwn t₀ (trace ++ [(i, note)]) (s.put s.shared i k') calls t := by
  refine h.move h.run ?_ ⟨pending, hstands, hcalls⟩ (fun _ _ ↦ ⟨rfl, rfl⟩) (Or.inl ⟨rfl, rfl⟩)
    (fun _ hothers ↦ h.free fun j ↦ ?_) (fun hin ↦ absurd hin hk') h.goodData (h.goodOwn i)
  · rw [effects_concat, hnote, List.append_nil, h.order]
  · rcases eq_or_ne j i with rfl | hne
    · exact hk
    · exact hothers j hne

/-- A step inside, or out of it. -/
theorem Linearized.move_inside (h : Linearized C GoodData GoodOwn t₀ trace s calls t)
    (hnote : effects [(i, note)] = []) (hk : C.Inside (s.caller i))
    (hin : C.Inside k' → C.held d' = true) (hout : ¬ C.Inside k' → d' = t.1)
    (hstands : Stands C t.1 d' (t.2 i) k' pending)
    (hcalls : own i calls = completed (own i trace ++ [note]) ++ pending) :
    Linearized C GoodData GoodOwn t₀ (trace ++ [(i, note)]) (s.put d' i k') calls t := by
  have hothers := (h.held i hk).2
  refine h.move h.run ?_ ⟨pending, hstands, hcalls⟩ (fun _ _ ↦ ⟨rfl, rfl⟩) (Or.inr hothers)
    (fun hk' _ ↦ hout hk') (fun hk' ↦ ⟨hin hk', hothers⟩) h.goodData (h.goodOwn i)
  rw [effects_concat, hnote, List.append_nil, h.order]

/-- A step with which a call takes effect. -/
theorem Linearized.take (h : Linearized C GoodData GoodOwn t₀ trace s calls t) {o : σ}
    (hC : C.Lawful GoodData GoodOwn) (halone : C.alone t.1 (t.2 i) c = .ok (a, D, o))
    (hnote : effects [(i, note)] = [(i, c)])
    (hframe : (D = t.1 ∧ d' = s.shared ∧ ¬ C.Inside k' ∧ ¬ C.Inside (s.caller i)) ∨
      (C.Inside k' ∧ C.held d' = true ∧ ∀ j ≠ i, ¬ C.Inside (s.caller j)))
    (hstands : Stands C D d' o k' pending)
    (hcalls : own i calls ++ [(c, a)] = completed (own i trace ++ [note]) ++ pending) :
    Linearized C GoodData GoodOwn t₀ (trace ++ [(i, note)]) (s.put d' i k')
      (calls ++ [(i, c, a)]) (D, Function.update t.2 i o) := by
  obtain ⟨hdata, hown⟩ := hC.good_alone _ _ _ _ _ _ h.goodData (h.goodOwn i) halone
  have hself : (D, Function.update t.2 i o).2 i = o := Function.update_self ..
  refine h.move (h.run_concat halone) ?_ ⟨pending, ?_, ?_⟩ (fun j hj ↦ ⟨?_, ?_⟩) ?_ ?_ ?_ hdata ?_
  · rw [inputs_concat, effects_concat, hnote, h.order]
  · rwa [hself]
  · rwa [own_concat_self]
  · rw [own_concat_of_ne hj.symm]
  · exact Function.update_of_ne hj ..
  · exact hframe.imp (fun hout ↦ ⟨hout.1, hout.2.1⟩) fun hin ↦ hin.2.2
  · intro hk' hothers
    obtain ⟨hD, hd, -, hk⟩ | ⟨hin, -⟩ := hframe
    · rw [hd, hD]
      refine h.free fun j ↦ ?_
      rcases eq_or_ne j i with rfl | hne
      · exact hk
      · exact hothers j hne
    · exact absurd hin hk'
  · intro hk'
    obtain ⟨-, -, hout, -⟩ | ⟨-, hin⟩ := hframe
    · exact absurd hk' hout
    · exact hin
  · rwa [hself]

/-- What is in the sequence stays in it. -/
theorem completed_of_note {notes : List (Note κ α)} (hnote : completed [note] = []) :
    completed (notes ++ [note]) = completed notes := by
  rw [completed_concat, hnote, List.append_nil]

/-- **One step** keeps the run linearized. -/
theorem Linearized.step (hC : C.Lawful GoodData GoodOwn)
    (h : Linearized C GoodData GoodOwn t₀ trace s calls t) {x : ℕ × κ} {y : ℕ × Note κ α}
    (hstep : C.step s x = .ok (y, s')) :
    ∃ calls' t', Linearized C GoodData GoodOwn t₀ (trace ++ [y]) s' calls' t' := by
  obtain ⟨i, c⟩ := x
  obtain ⟨pending, hstands, hcalls⟩ := h.caller i
  have hnone : ∀ o, ¬ C.Inside ⟨o, none⟩ := C.not_inside_idle
  have hiff := C.inside_iff
  generalize hk : s.caller i = k at hstands
  simp only [Calls.step, hk] at hstep
  cases hstands with
  | idle =>
    obtain ⟨rfl, rfl⟩ := Prod.mk.inj (Except.ok.inj hstep)
    have hphase := hC.phase_enter (t.2 i) c
    refine ⟨calls, t, h.move_outside rfl (hk ▸ hnone _) ?_
      (.before hphase fun d₂ ↦ hC.rest_enter d₂ _ c) ?_⟩
    · rw [hiff, hphase]
      simp
    · rw [completed_of_note rfl, hcalls]
  | @before c p hphase hrest =>
    have hk₀ : ¬ C.Inside (s.caller i) := by
      rw [hk, hiff, hphase]
      simp
    rcases hmicro : C.micro s.shared p with e | ⟨d, p' | ⟨a, o⟩⟩
    · simp [hmicro] at hstep
    · simp only [hmicro] at hstep
      obtain ⟨rfl, rfl⟩ := Prod.mk.inj (Except.ok.inj hstep)
      obtain ⟨q, hq, hin, hfree, hheld⟩ | ⟨hout, rfl, hsame⟩ := hC.before _ _ _ _ hphase hmicro
      · -- it takes the lock
        obtain rfl := Sum.inl.inj hq
        have hothers : ∀ j, ¬ C.Inside (s.caller j) := by
          intro j hj
          rw [(h.held j hj).1] at hfree
          exact Bool.false_ne_true hfree.symm
        have hshared := h.free hothers
        obtain ⟨a, D, o, halone⟩ := hC.total _ _ c h.goodData (h.goodOwn i) (hshared ▸ hfree)
        have hleft : C.rest d p' = .ok (a, D, o) := by
          rw [← Calls.rest_of_moved hmicro, hrest, hshared, halone]
        rw [if_pos ⟨hphase, hin⟩]
        refine ⟨_, _, h.take hC halone rfl (Or.inr ⟨(hiff ..).2 hin, hheld, fun j _ ↦ hothers j⟩)
          (.inside hin hleft) ?_⟩
        rw [completed_of_note rfl, hcalls, List.append_nil]
      · have hp' := hout p' rfl
        rw [if_neg (by rw [hp']; simp)]
        refine ⟨calls, t, h.move_outside rfl hk₀ ?_ (.before hp' fun d₂ ↦ ?_) ?_⟩
        · rw [hiff, hp']
          simp
        · rw [← Calls.rest_of_moved (hsame d₂), hrest]
        · rw [completed_of_note rfl, hcalls]
    · simp only [hmicro] at hstep
      obtain ⟨rfl, rfl⟩ := Prod.mk.inj (Except.ok.inj hstep)
      obtain ⟨q, hq, -⟩ | ⟨-, rfl, hsame⟩ := hC.before _ _ _ _ hphase hmicro
      · exact absurd hq (by simp)
      · -- it returns without the lock
        have halone : C.alone t.1 (t.2 i) c = .ok (a, t.1, o) := by
          rw [← hrest, Calls.rest_of_returned (hsame t.1)]
        rw [if_pos hphase]
        refine ⟨_, _, h.take hC halone rfl (Or.inl ⟨rfl, rfl, hnone o, hk₀⟩) .idle ?_⟩
        rw [completed_concat, hcalls, List.append_nil, List.append_nil]
        rfl
  | @inside o₀ c p a hphase hrest =>
    have hk₀ : C.Inside (s.caller i) := by rwa [hk, hiff]
    have hp : C.phase p ≠ .before := by
      rw [hphase]
      simp
    rcases hmicro : C.micro s.shared p with e | ⟨d, p' | ⟨a', o⟩⟩
    · simp [hmicro] at hstep
    · simp only [hmicro] at hstep
      obtain ⟨rfl, rfl⟩ := Prod.mk.inj (Except.ok.inj hstep)
      rw [if_neg fun hboth ↦ hp hboth.1]
      rw [Calls.rest_of_moved hmicro] at hrest
      obtain ⟨hp', hheld⟩ | hp' := hC.inside _ _ _ _ hphase hmicro
      · refine ⟨calls, t, h.move_inside rfl hk₀ (fun _ ↦ ?_) (fun hout ↦ ?_) (.inside hp' hrest) ?_⟩
        · rw [hheld, (h.held i hk₀).1]
        · exact absurd ((hiff ..).2 hp') hout
        · rw [completed_of_note rfl, hcalls]
      · -- it gives the lock back
        have hout : ¬ C.Inside ⟨o₀, some (c, p')⟩ := by
          rw [hiff, hp']
          simp
        obtain ⟨a', o, hleft⟩ := hC.exists_rest d hp'
        obtain ⟨rfl, hd, rfl⟩ : a' = a ∧ d = t.1 ∧ o = t.2 i := by
          simpa [hleft] using hrest
        refine ⟨calls, t, h.move_inside rfl hk₀ (fun hin ↦ absurd hin hout) (fun _ ↦ hd)
          (.after hp' hleft) ?_⟩
        rw [completed_of_note rfl, hcalls]
    · simp only [hmicro] at hstep
      obtain ⟨rfl, rfl⟩ := Prod.mk.inj (Except.ok.inj hstep)
      rw [if_neg hp]
      obtain ⟨rfl, rfl, rfl⟩ : a' = a ∧ d = t.1 ∧ o = t.2 i := by
        simpa [Calls.rest_of_returned hmicro] using hrest
      refine ⟨calls, t, h.move_inside rfl hk₀ (fun hin ↦ absurd hin (hnone _)) (fun _ ↦ rfl)
        .idle ?_⟩
      rw [completed_concat, hcalls, List.append_nil]
      rfl
  | @after o₀ c p a hphase hrest =>
    have hk₀ : ¬ C.Inside (s.caller i) := by
      rw [hk, hiff, hphase]
      simp
    have hp : C.phase p ≠ .before := by
      rw [hphase]
      simp
    rcases hmicro : C.micro s.shared p with e | ⟨d, p' | ⟨a', o⟩⟩
    · simp [hmicro] at hstep
    · simp only [hmicro] at hstep
      obtain ⟨rfl, rfl⟩ := Prod.mk.inj (Except.ok.inj hstep)
      obtain ⟨r, hout, hsame⟩ := hC.after _ hphase
      obtain ⟨rfl, rfl⟩ := Prod.mk.inj (Except.ok.inj ((hsame _).symm.trans hmicro))
      have hp' := hout p' rfl
      have hleft : ∀ d₂, C.rest d₂ p' = .ok (a, d₂, t.2 i) := by
        intro d₂
        rw [← Calls.rest_of_moved (hsame d₂), hrest]
      rw [if_neg fun hboth ↦ hp hboth.1]
      refine ⟨calls, t, h.move_outside rfl hk₀ ?_ (.after hp' hleft) ?_⟩
      · rw [hiff, hp']
        simp
      · rw [completed_of_note rfl, hcalls]
    · simp only [hmicro] at hstep
      obtain ⟨rfl, rfl⟩ := Prod.mk.inj (Except.ok.inj hstep)
      obtain ⟨r, -, hsame⟩ := hC.after _ hphase
      obtain ⟨rfl, rfl⟩ := Prod.mk.inj (Except.ok.inj ((hsame _).symm.trans hmicro))
      obtain ⟨rfl, rfl⟩ : a' = a ∧ o = t.2 i := by
        simpa [Calls.rest_of_returned hmicro] using hrest s.shared
      rw [if_neg hp]
      refine ⟨calls, t, h.move_outside rfl hk₀ (hnone _) .idle ?_⟩
      rw [completed_concat, hcalls, List.append_nil]
      rfl

/-- A step that cannot be taken is one for which the caller waits for the lock, which is held. -/
theorem Linearized.waits_of_error (hC : C.Lawful GoodData GoodOwn)
    (h : Linearized C GoodData GoodOwn t₀ trace s calls t) {x : ℕ × κ} {e : ε}
    (hstep : C.step s x = .error e) :
    C.held s.shared = true ∧ ∃ c p, (s.caller x.1).call = some (c, p) ∧ C.phase p = .before ∧
      C.micro s.shared p = .error e := by
  obtain ⟨pending, hstands, -⟩ := h.caller x.1
  generalize hk : s.caller x.1 = k at hstands
  simp only [Calls.step, hk] at hstep
  cases hstands with
  | idle => exact absurd hstep (by simp)
  | @before c p hphase hrest =>
    rcases hmicro : C.micro s.shared p with e' | ⟨d, p' | ⟨a, o⟩⟩
    · simp only [hmicro] at hstep
      obtain rfl := Except.error.inj hstep
      refine ⟨?_, c, p, rfl, hphase, hmicro⟩
      rcases hheld : C.held s.shared with - | -
      · -- with the lock free the whole call would return
        have hshared := h.free fun j hj ↦ by simp [(h.held j hj).1] at hheld
        obtain ⟨a, D, o, halone⟩ := hC.total _ _ c h.goodData (h.goodOwn x.1) (hshared ▸ hheld)
        have herror := Calls.rest_of_error hmicro
        rw [hrest, hshared, halone] at herror
        exact absurd herror (by simp)
      · rfl
    · simp [hmicro] at hstep
    · simp [hmicro] at hstep
  | @inside o₀ c p a hphase hrest =>
    rcases hmicro : C.micro s.shared p with e' | ⟨d, p' | ⟨a', o⟩⟩
    · exact absurd ((Calls.rest_of_error hmicro).symm.trans hrest) (by simp)
    · simp [hmicro] at hstep
    · simp [hmicro] at hstep
  | @after o₀ c p a hphase hrest =>
    rcases hmicro : C.micro s.shared p with e' | ⟨d, p' | ⟨a', o⟩⟩
    · exact absurd ((Calls.rest_of_error hmicro).symm.trans (hrest _)) (by simp)
    · simp [hmicro] at hstep
    · simp [hmicro] at hstep

/-- **Every interleaving is a sequence of whole calls.** -/
theorem exists_linearization (hC : C.Lawful GoodData GoodOwn) {d₀ : δ} {own₀ : ℕ → σ}
    (hdata : GoodData d₀) (hown : ∀ i, GoodOwn (own₀ i)) {xs : List (ℕ × κ)}
    (h : run C.step (.start d₀ own₀) xs = .ok (trace, s)) :
    ∃ calls t, Linearized C GoodData GoodOwn (d₀, own₀) trace s calls t := by
  refine history_of_run (I := fun trace s ↦
    ∃ calls t, Linearized C GoodData GoodOwn (d₀, own₀) trace s calls t) ?_ ?_ h
  · rintro trace s x y s' ⟨calls, t, hI⟩ hstep
    exact hI.step hC hstep
  · exact ⟨[], (d₀, own₀), rfl, rfl, fun i ↦ ⟨[], .idle, rfl⟩, fun _ ↦ rfl,
      fun i hi ↦ absurd hi (C.not_inside_idle _), hdata, hown⟩

end Lemmas

end Linearization
