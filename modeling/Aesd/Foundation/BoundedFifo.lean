import Mathlib.Data.List.DropRight
import Mathlib.Data.List.ReduceOption

/-!
# A FIFO queue of bounded length

The abstract data type behind a ring buffer: a queue that keeps at most `N` elements and drops its
oldest one to make room. Nothing here knows how the queue is laid out in memory.

The one fact everything rests on is `push_rtake`: pushing onto the last `N` elements of a list gives
the last `N` elements of the longer list. So a run of pushes from the empty queue is
`List.rtake` of all that was pushed (`pushAll_nil`), and what it dropped is what `List.rtake`
leaves out (`reduceOption_drops_nil`).
-/

namespace BoundedFifo

variable {α : Type*} {N : ℕ}

/-- Append at the young end, keep the last `N`. -/
def push (N : ℕ) (q : List α) (a : α) : List α :=
  (q ++ [a]).rtake N

/-- What a push drops: the oldest element of a full queue, nothing of any other. -/
def dropped (N : ℕ) (q : List α) : Option α :=
  if q.length < N then none else q.head?

/-- A run of pushes. -/
def pushAll (N : ℕ) (q : List α) (l : List α) : List α :=
  l.foldl (push N) q

/-- What each push of a run drops. -/
def drops (N : ℕ) : List α → List α → List (Option α)
  | _, [] => []
  | q, a :: l => dropped N q :: drops N (push N q a) l

/-! ### One push -/

theorem push_eq_drop (hN : 0 < N) (q : List α) (a : α) :
    push N q a = q.drop (q.length + 1 - N) ++ [a] := by
  rw [push, List.rtake, List.length_append, List.length_singleton,
    List.drop_append_of_le_length (by omega)]

theorem push_of_lt {q : List α} (h : q.length < N) (a : α) : push N q a = q ++ [a] := by
  have hzero : (q ++ [a]).length - N = 0 := by
    rw [List.length_append, List.length_singleton]
    omega
  rw [push, List.rtake, hzero, List.drop_zero]

theorem push_of_full {q : List α} (hN : 0 < N) (h : q.length = N) (a : α) :
    push N q a = q.tail ++ [a] := by
  have hone : (q ++ [a]).length - N = 1 := by
    rw [List.length_append, List.length_singleton]
    omega
  rw [push, List.rtake, hone, List.drop_append_of_le_length (by omega), List.drop_one]

/-- **Pushing commutes with keeping the last `N`.** -/
theorem push_rtake (hN : 0 < N) (l : List α) (a : α) :
    push N (l.rtake N) a = (l ++ [a]).rtake N := by
  obtain ⟨n, rfl⟩ : ∃ n, N = n + 1 := ⟨N - 1, by omega⟩
  rw [push, List.rtake_concat_succ, List.rtake_concat_succ]
  congr 1
  simp only [List.rtake, List.length_drop, List.drop_drop]
  congr 1
  omega

theorem length_rtake (l : List α) : (l.rtake N).length = min N l.length := by
  rw [List.rtake, List.length_drop]
  omega

theorem rtake_append_of_le {l' : List α} (h : N ≤ l'.length) (l : List α) :
    (l ++ l').rtake N = l'.rtake N := by
  have hdrop : (l ++ l').length - N = l.length + (l'.length - N) := by
    rw [List.length_append]
    omega
  rw [List.rtake, hdrop, ← List.drop_drop, List.drop_left, List.rtake]

theorem rtake_append_of_length_le {l' : List α} (h : l'.length ≤ N) (l : List α) :
    (l ++ l').rtake N = l.rtake (N - l'.length) ++ l' := by
  have hdrop : (l ++ l').length - N = l.length - (N - l'.length) := by
    rw [List.length_append]
    omega
  rw [List.rtake, hdrop, List.drop_append_of_le_length (by omega), List.rtake]

theorem dropped_rtake (l : List α) :
    dropped N (l.rtake N) = if l.length < N then none else l[l.length - N]? := by
  rw [dropped, length_rtake]
  by_cases h : l.length < N
  · rw [if_pos (by omega), if_pos h]
  · rw [if_neg (by omega), if_neg h, List.rtake, List.head?_drop]

/-! ### Runs -/

@[simp]
theorem pushAll_empty (q : List α) : pushAll N q [] = q :=
  rfl

@[simp]
theorem pushAll_cons (q : List α) (a : α) (l : List α) :
    pushAll N q (a :: l) = pushAll N (push N q a) l :=
  rfl

theorem pushAll_rtake (hN : 0 < N) (l₀ l : List α) :
    pushAll N (l₀.rtake N) l = (l₀ ++ l).rtake N := by
  induction l generalizing l₀ with
  | nil => rw [pushAll_empty, List.append_nil]
  | cons a l ih => rw [pushAll_cons, push_rtake hN, ih, List.append_assoc, List.singleton_append]

/-- **A run from the empty queue keeps the last `N` elements pushed.** -/
theorem pushAll_nil (hN : 0 < N) (l : List α) : pushAll N [] l = l.rtake N := by
  simpa using pushAll_rtake hN [] l

theorem getElem?_drops_rtake (hN : 0 < N) (l₀ l : List α) {k : ℕ} (hk : k < l.length) :
    (drops N (l₀.rtake N) l)[k]? =
      some (if l₀.length + k < N then none else (l₀ ++ l)[l₀.length + k - N]?) := by
  induction l generalizing l₀ k with
  | nil => exact absurd hk (by simp)
  | cons a l ih =>
    cases k with
    | zero =>
      rw [drops, List.getElem?_cons_zero, dropped_rtake, Nat.add_zero]
      by_cases h : l₀.length < N
      · rw [if_pos h, if_pos h]
      · rw [if_neg h, if_neg h]
        by_cases hlt : l₀.length - N < l₀.length
        · rw [List.getElem?_append_left hlt]
        · omega
    | succ k =>
      have hk' : k < l.length := by simpa using hk
      have hlen : (l₀ ++ [a]).length + k = l₀.length + (k + 1) := by
        rw [List.length_append, List.length_singleton]
        omega
      rw [drops, List.getElem?_cons_succ, push_rtake hN, ih (l₀ ++ [a]) hk', hlen,
        List.append_assoc, List.singleton_append]

/-- **The `k`-th push of a run from the empty queue drops the element pushed `N` earlier**, and
nothing while there is room. -/
theorem getElem?_drops_nil (hN : 0 < N) (l : List α) {k : ℕ} (hk : k < l.length) :
    (drops N [] l)[k]? = some (if k < N then none else l[k - N]?) := by
  simpa using getElem?_drops_rtake hN [] l hk

theorem reduceOption_drops_rtake (hN : 0 < N) (l₀ l : List α) :
    l₀.take (l₀.length - N) ++ (drops N (l₀.rtake N) l).reduceOption =
      (l₀ ++ l).take (l₀.length + l.length - N) := by
  induction l generalizing l₀ with
  | nil => simp [drops, List.reduceOption]
  | cons a l ih =>
    have hnext := ih (l₀ ++ [a])
    rw [List.append_assoc, List.singleton_append, List.length_append, List.length_singleton]
      at hnext
    rw [drops, push_rtake hN, List.length_cons, show l₀.length + (l.length + 1) =
      l₀.length + 1 + l.length by omega, ← hnext, dropped_rtake]
    by_cases h : l₀.length < N
    · have h₀ : l₀.length - N = 0 := by omega
      have h₁ : l₀.length + 1 - N = 0 := by omega
      rw [if_pos h, h₀, h₁, List.reduceOption_cons_of_none, List.take_zero, List.take_zero]
    · have hsucc : l₀.length + 1 - N = (l₀.length - N) + 1 := by omega
      have hlt : l₀.length - N < l₀.length := by omega
      rw [if_neg h, hsucc, List.getElem?_eq_getElem hlt, List.reduceOption_cons_of_some,
        List.take_append_of_le_length (by omega), List.take_succ_eq_append_getElem hlt,
        List.append_assoc, List.singleton_append]

/-- **Nothing is dropped twice or out of order**: what a run from the empty queue drops is the
pushed list up to its last `N` elements. -/
theorem reduceOption_drops_nil (hN : 0 < N) (l : List α) :
    (drops N [] l).reduceOption = l.take (l.length - N) := by
  simpa using reduceOption_drops_rtake hN [] l

end BoundedFifo
