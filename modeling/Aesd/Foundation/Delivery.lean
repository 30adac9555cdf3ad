import Mathlib.Data.List.Basic

/-!
# A list delivered in pieces

A reader takes a list piece by piece. Each piece is what comes next, and it is empty only where the
list ends: that is all a reader can rely on, since how long a piece gets is not its choice alone.
It is enough. The pieces together are the rest of the list (`Delivers.flatten_prefix`), nothing is
missing once a piece is empty (`Delivers.eq_nil_iff`), and it takes no more pieces than there are
elements to come to that (`Delivers.flatten_eq`, `Delivers.countP_le`).
-/

namespace Delivery

variable {α : Type*} {l : List α} {p : ℕ} {piece : List α} {pieces : List (List α)}

/-- The pieces come from the list one after the other, from position `p` on. -/
inductive Delivers (l : List α) : ℕ → List (List α) → Prop
  | nil (p : ℕ) : Delivers l p []
  | cons {p : ℕ} {piece : List α} {pieces : List (List α)}
      (hpiece : piece ++ l.drop (p + piece.length) = l.drop p)
      (hend : piece = [] ↔ l.length ≤ p)
      (h : Delivers l (p + piece.length) pieces) : Delivers l p (piece :: pieces)

namespace Delivers

/-- Nothing is lost or repeated between the pieces. -/
theorem flatten_append (h : Delivers l p pieces) :
    pieces.flatten ++ l.drop (p + pieces.flatten.length) = l.drop p := by
  induction h with
  | nil p => rfl
  | cons hpiece _ _ ih =>
    rw [List.flatten_cons, List.length_append, ← Nat.add_assoc, List.append_assoc, ih, hpiece]

theorem flatten_prefix (h : Delivers l p pieces) : pieces.flatten <+: l.drop p :=
  ⟨_, h.flatten_append⟩

/-- **A piece is empty exactly when everything was delivered before it.** -/
theorem eq_nil_iff (h : Delivers l p pieces) {i : ℕ} (hi : pieces[i]? = some piece) :
    piece = [] ↔ (pieces.take i).flatten = l.drop p := by
  induction h generalizing i with
  | nil p => exact absurd hi (by simp)
  | @cons p first pieces hpiece hend h ih =>
    rcases i with - | i
    · obtain rfl := Option.some.inj hi
      rw [hend, List.take_zero, List.flatten_nil, eq_comm, List.drop_eq_nil_iff]
    · rw [List.getElem?_cons_succ] at hi
      rw [ih hi, List.take_succ_cons, List.flatten_cons, ← hpiece, List.append_cancel_left_eq]

/-- Every piece that is not empty delivers an element. -/
theorem countP_le (h : Delivers l p pieces) :
    pieces.countP (fun piece ↦ !piece.isEmpty) ≤ l.length - p := by
  induction h with
  | nil p => exact Nat.zero_le _
  | @cons p first pieces hpiece hend h ih =>
    rw [List.countP_cons]
    have hlen := congrArg List.length hpiece
    rw [List.length_append, List.length_drop, List.length_drop] at hlen
    rcases first with - | ⟨a, first⟩
    · rw [List.length_nil, Nat.add_zero] at ih
      simpa using ih
    · have hbelow : p < l.length := Nat.lt_of_not_le fun hge ↦ absurd (hend.2 hge) (by simp)
      simp only [List.length_cons, List.isEmpty_cons, Bool.not_false, if_true] at hlen ih ⊢
      omega

/-- **As many pieces as there are elements deliver everything.** -/
theorem flatten_eq (h : Delivers l p pieces) (hlen : l.length - p ≤ pieces.length) :
    pieces.flatten = l.drop p := by
  induction h with
  | nil p =>
    rw [List.length_nil] at hlen
    exact (List.drop_eq_nil_of_le (by omega)).symm
  | @cons p first pieces hpiece hend h ih =>
    rw [List.flatten_cons, ← hpiece, List.append_cancel_left_eq]
    rcases Nat.eq_zero_or_pos first.length with hzero | hpos
    · -- the end is reached: the pieces that follow are empty too
      have hge : l.length ≤ p := hend.1 (List.length_eq_zero_iff.1 hzero)
      exact ih (by omega)
    · rw [List.length_cons] at hlen
      exact ih (by omega)

end Delivers

end Delivery
