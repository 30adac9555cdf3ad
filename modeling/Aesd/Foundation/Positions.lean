import Mathlib.Algebra.BigOperators.Group.List.Basic
import Mathlib.Algebra.GroupWithZero.Nat

/-!
# Positions in a concatenation

A position in the concatenation of lists lies in one of them, at an offset; only the lengths
matter. `locate` finds both, and `locate_eq_some_iff` says what it finds: the lists before add up to
less than the position, by the offset. So a list and an offset in it are found again from the
position they name (`locate_sum_take_add`), and the rest of the concatenation from a position on
begins with the rest of the list found there (`flatten_drop_of_locate`).
-/

namespace Positions

/-- The index of the list that holds position `p`, and the offset in it, from the lengths. -/
def locate : List ℕ → ℕ → Option (ℕ × ℕ)
  | [], _ => none
  | n :: ns, p =>
    if p < n then some (0, p) else (locate ns (p - n)).map fun found ↦ (found.1 + 1, found.2)

theorem locate_cons_of_lt {n p : ℕ} (h : p < n) (ns : List ℕ) :
    locate (n :: ns) p = some (0, p) :=
  if_pos h

theorem locate_cons_of_le {n p : ℕ} (h : n ≤ p) (ns : List ℕ) :
    locate (n :: ns) p = (locate ns (p - n)).map fun found ↦ (found.1 + 1, found.2) :=
  if_neg (Nat.not_lt.2 h)

/-- **A position is found unless it is past the end.** -/
theorem locate_eq_none_iff {ns : List ℕ} {p : ℕ} : locate ns p = none ↔ ns.sum ≤ p := by
  induction ns generalizing p with
  | nil => simp [locate]
  | cons n ns ih =>
    rw [List.sum_cons]
    rcases Nat.lt_or_ge p n with hlt | hge
    · rw [locate_cons_of_lt hlt]
      refine iff_of_false (by simp) (by omega)
    · rw [locate_cons_of_le hge, Option.map_eq_none_iff, ih]
      omega

/-- **What is found**: the list at index `i` has an offset `o`, and the position is `o` past the
lists before it. -/
theorem locate_eq_some_iff {ns : List ℕ} {p i o : ℕ} :
    locate ns p = some (i, o) ↔ ∃ n, ns[i]? = some n ∧ o < n ∧ p = (ns.take i).sum + o := by
  induction ns generalizing p i with
  | nil => simp [locate]
  | cons n ns ih =>
    rcases Nat.lt_or_ge p n with hlt | hge
    · rw [locate_cons_of_lt hlt]
      rcases i with - | i
      · simp only [Option.some.injEq, Prod.mk.injEq, true_and, List.getElem?_cons_zero,
          List.take_zero, List.sum_nil, Nat.zero_add, exists_eq_left']
        exact ⟨fun h ↦ ⟨by omega, h⟩, fun h ↦ h.2⟩
      · refine iff_of_false (by simp) ?_
        rintro ⟨m, -, -, hp⟩
        rw [List.take_succ_cons, List.sum_cons] at hp
        omega
    · rw [locate_cons_of_le hge]
      rcases i with - | i
      · refine iff_of_false (by simp) ?_
        rintro ⟨m, hm, ho, hp⟩
        rw [List.take_zero, List.sum_nil] at hp
        simp only [List.getElem?_cons_zero, Option.some.injEq] at hm
        omega
      · have hshift : (locate ns (p - n)).map (fun found ↦ (found.1 + 1, found.2)) =
            some (i + 1, o) ↔ locate ns (p - n) = some (i, o) := by
          rcases locate ns (p - n) with - | ⟨i', o'⟩ <;> simp
        rw [hshift, ih, List.getElem?_cons_succ, List.take_succ_cons, List.sum_cons]
        refine exists_congr fun m ↦ and_congr_right fun _ ↦ and_congr_right fun _ ↦ ?_
        omega

/-- A list and an offset in it are found again from the position they name. -/
theorem locate_sum_take_add {ns : List ℕ} {i n o : ℕ} (hi : ns[i]? = some n) (ho : o < n) :
    locate ns ((ns.take i).sum + o) = some (i, o) :=
  locate_eq_some_iff.2 ⟨n, hi, ho, rfl⟩

/-- The elements from a position on: the rest of the list found there, then the lists behind. -/
theorem flatten_drop_of_locate {α : Type*} {ls : List (List α)} {p i o : ℕ}
    (h : locate (ls.map List.length) p = some (i, o)) :
    ∃ l, ls[i]? = some l ∧ o < l.length ∧
      ls.flatten.drop p = l.drop o ++ (ls.drop (i + 1)).flatten := by
  induction ls generalizing p i with
  | nil => exact absurd h (by simp [locate])
  | cons l ls ih =>
    rw [List.map_cons] at h
    rcases Nat.lt_or_ge p l.length with hlt | hge
    · rw [locate_cons_of_lt hlt, Option.some.injEq, Prod.mk.injEq] at h
      obtain ⟨rfl, rfl⟩ := h
      refine ⟨l, rfl, hlt, ?_⟩
      rw [List.flatten_cons, List.drop_append_of_le_length (Nat.le_of_lt hlt)]
      rfl
    · rw [locate_cons_of_le hge, Option.map_eq_some_iff] at h
      obtain ⟨⟨i', o'⟩, hfound, heq⟩ := h
      obtain ⟨rfl, rfl⟩ := Prod.mk.injEq .. ▸ heq
      obtain ⟨l', hl', ho, hdrop⟩ := ih hfound
      refine ⟨l', hl', ho, ?_⟩
      rw [List.flatten_cons, List.drop_append, List.drop_eq_nil_of_le hge, List.nil_append, hdrop]
      rfl

/-- The element at a position is the one at the offset in the list found there. -/
theorem getElem?_flatten_of_locate {α : Type*} {ls : List (List α)} {p i o : ℕ}
    (h : locate (ls.map List.length) p = some (i, o)) :
    ls.flatten[p]? = (ls[i]?).bind (·[o]?) := by
  obtain ⟨l, hl, ho, hdrop⟩ := flatten_drop_of_locate h
  have hfirst : (ls.flatten.drop p)[0]? = (l.drop o)[0]? := by
    rw [hdrop, List.getElem?_append_left (by rw [List.length_drop]; omega)]
  rw [List.getElem?_drop, List.getElem?_drop, Nat.add_zero, Nat.add_zero] at hfirst
  rw [hfirst, hl, Option.bind_some]

/-- **Only one list holds a position.** -/
theorem locate_unique {ns : List ℕ} {p i j m n : ℕ} (hi : ns[i]? = some m)
    (hle : (ns.take i).sum ≤ p) (hlt : p < (ns.take i).sum + m) (hj : ns[j]? = some n)
    (hle' : (ns.take j).sum ≤ p) (hlt' : p < (ns.take j).sum + n) : i = j := by
  have hfound := locate_eq_some_iff.2 ⟨m, hi, (by omega : p - (ns.take i).sum < m),
    (by omega : p = (ns.take i).sum + (p - (ns.take i).sum))⟩
  have hfound' := locate_eq_some_iff.2 ⟨n, hj, (by omega : p - (ns.take j).sum < n),
    (by omega : p = (ns.take j).sum + (p - (ns.take j).sum))⟩
  rw [hfound, Option.some.injEq, Prod.mk.injEq] at hfound'
  exact hfound'.1

end Positions
