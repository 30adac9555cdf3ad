import Mathlib.Data.List.Nodup

/-!
# Singly linked lists in memory

A node has a link to the next one. All that is needed of the memory is what the links are: `next a`
is the link of the node at `a`, or `none` if there is no node at `a`.

`Seg next p l q` says that the links lead from `p` past the nodes `l` to `q`; a whole list ends in
`none`. The rules say what becomes of a list when a node is put before its head, when its head is
taken off (`Seg.tail`), and when the node after another one is unlinked (`Seg.removeAfter`). A
whole list is determined by where it starts (`Seg.unique`), so it has no node twice (`Seg.nodup`).
-/

namespace LinkedList

/-! ### What comes before a node -/

section Before

variable {l l' : List ℕ} {a c : ℕ}

/-- Nothing comes before the head. -/
theorem eq_nil_of_head?_eq (hdistinct : (l ++ a :: l').Nodup) (h : (l ++ a :: l').head? = some a) :
    l = [] := by
  cases l with
  | nil => rfl
  | cons b l =>
    obtain rfl := Option.some.inj h
    exact absurd (List.mem_append_right l List.mem_cons_self) (List.nodup_cons.1 hdistinct).1

/-- What is not the head comes after it. -/
theorem exists_eq_cons_of_head?_eq (h : (l ++ a :: l').head? = some c) (hne : c ≠ a) :
    ∃ l₁, l = c :: l₁ := by
  cases l with
  | nil => exact absurd (Option.some.inj h).symm hne
  | cons b l =>
    obtain rfl := Option.some.inj h
    exact ⟨l, rfl⟩

end Before

/-! ### Segments -/

/-- The links lead from `p` past the nodes `l` to `q`. -/
inductive Seg (next : ℕ → Option (Option ℕ)) : Option ℕ → List ℕ → Option ℕ → Prop
  | nil (p : Option ℕ) : Seg next p [] p
  | cons {a : ℕ} {p q : Option ℕ} {l : List ℕ} (hlink : next a = some p) (h : Seg next p l q) :
      Seg next (some a) (a :: l) q

namespace Seg

variable {next next' : ℕ → Option (Option ℕ)} {p q : Option ℕ} {l l' : List ℕ} {a c : ℕ}

theorem cons_iff :
    Seg next p (a :: l) q ↔ p = some a ∧ ∃ r, next a = some r ∧ Seg next r l q := by
  constructor
  · rintro ⟨⟩
    exact ⟨rfl, _, ‹_›, ‹_›⟩
  · rintro ⟨rfl, r, hlink, h⟩
    exact .cons hlink h

theorem append_iff : Seg next p (l ++ l') q ↔ ∃ r, Seg next p l r ∧ Seg next r l' q := by
  induction l generalizing p with
  | nil =>
    constructor
    · exact fun h ↦ ⟨p, .nil p, h⟩
    · rintro ⟨r, ⟨⟩, h⟩
      exact h
  | cons a l ih =>
    rw [List.cons_append, cons_iff]
    constructor
    · rintro ⟨rfl, r, hlink, h⟩
      obtain ⟨r', h₁, h₂⟩ := ih.1 h
      exact ⟨r', .cons hlink h₁, h₂⟩
    · rintro ⟨r', h₁, h₂⟩
      obtain ⟨rfl, r, hlink, h₁⟩ := cons_iff.1 h₁
      exact ⟨rfl, r, hlink, ih.2 ⟨r', h₁, h₂⟩⟩

/-- Only the links of the nodes passed matter. -/
theorem congr (h : Seg next p l q) (hlinks : ∀ a ∈ l, next' a = next a) : Seg next' p l q := by
  induction h with
  | nil p => exact .nil p
  | cons hlink _ ih =>
    rw [List.forall_mem_cons] at hlinks
    exact .cons (hlinks.1.trans hlink) (ih hlinks.2)

/-! ### Whole lists -/

/-- A list starts at its first node. -/
theorem eq_head? (h : Seg next p l none) : p = l.head? := by
  cases h with
  | nil => rfl
  | cons => rfl

/-- **A list is determined by where it starts.** -/
theorem unique (h : Seg next p l none) (h' : Seg next p l' none) : l = l' := by
  induction l generalizing p l' with
  | nil =>
    obtain rfl := h.eq_head?
    cases h' with
    | nil => rfl
  | cons a l ih =>
    obtain ⟨rfl, r, hlink, hrest⟩ := cons_iff.1 h
    cases h' with
    | cons hlink' hrest' =>
      obtain rfl := Option.some.inj (hlink.symm.trans hlink')
      rw [ih hrest hrest']

/-- **No node is in a list twice**: what follows it would be longer than itself. -/
theorem nodup (h : Seg next p l none) : l.Nodup := by
  induction l generalizing p with
  | nil => exact List.nodup_nil
  | cons a l ih =>
    obtain ⟨rfl, r, hlink, hrest⟩ := cons_iff.1 h
    refine List.nodup_cons.2 ⟨fun hmem ↦ ?_, ih hrest⟩
    obtain ⟨l₁, l₂, rfl⟩ := List.append_of_mem hmem
    obtain ⟨r', -, hagain⟩ := append_iff.1 hrest
    obtain ⟨rfl, -⟩ := cons_iff.1 hagain
    have hlength := congrArg List.length (h.unique hagain)
    simp only [List.length_cons, List.length_append] at hlength
    omega

/-- The link of a node leads to the one after it. -/
theorem link_eq (h : Seg next p (l ++ a :: l') none) : next a = some l'.head? := by
  obtain ⟨r, -, h₂⟩ := append_iff.1 h
  obtain ⟨-, r', hlink, hrest⟩ := cons_iff.1 h₂
  rw [hlink, hrest.eq_head?]

/-- The list without its head. -/
theorem tail (h : Seg next p (a :: l) none) : Seg next l.head? l none := by
  obtain ⟨-, r, -, hrest⟩ := cons_iff.1 h
  rwa [← hrest.eq_head?]

/-- A node is put before the head. -/
theorem insertHead (h : Seg next p l none) (hnew : next' a = some p)
    (hlinks : ∀ c ∈ l, next' c = next c) : Seg next' (some a) (a :: l) none :=
  .cons hnew (h.congr hlinks)

/-- The node after another one is unlinked. -/
theorem removeAfter (h : Seg next p (l ++ c :: a :: l') none) (hc : next' c = next a)
    (hlinks : ∀ b ≠ c, next' b = next b) : Seg next' p (l ++ c :: l') none := by
  have hdistinct := h.nodup
  have hlink : next a = some l'.head? := by
    rw [List.append_cons] at h
    exact h.link_eq
  obtain ⟨r, h₁, h₂⟩ := append_iff.1 h
  obtain ⟨rfl, -⟩ := cons_iff.1 h₂
  have hout : c ∉ l ++ a :: l' := (List.nodup_cons.1 (List.nodup_middle.1 hdistinct)).1
  have hrest : Seg next l'.head? l' none := h₂.tail.tail
  refine append_iff.2 ⟨some c, h₁.congr fun b hb ↦ hlinks b ?_, .cons (hc.trans hlink) ?_⟩
  · rintro rfl
    exact hout (List.mem_append_left _ hb)
  · refine hrest.congr fun b hb ↦ hlinks b ?_
    rintro rfl
    exact hout (List.mem_append_right _ (List.mem_cons_of_mem a hb))

end Seg

end LinkedList
