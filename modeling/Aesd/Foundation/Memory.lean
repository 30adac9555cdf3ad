import Mathlib.Algebra.GroupWithZero.Nat
import Mathlib.Algebra.Order.BigOperators.Group.List
import Mathlib.Algebra.Order.Group.Nat
import Mathlib.Data.List.Perm.Subperm
import Mathlib.Data.List.Range

/-!
# Blocks of memory and a heap of blocks

A block is the list of its cells, over any type of cells. Fresh memory holds whatever it held
before, so an allocation takes the contents of the cells nobody has written as an argument
(`junk`).

A heap never reuses an address: it is the list of all blocks ever allocated, in order, where a
retired block leaves `none` behind. So a block that is live is different from the next one
(`Heap.block_next`) with no bookkeeping of which addresses are free, and using a block after it
was retired, or outside its bounds, is a visible failure (`none`) of `free`, `load` and `store`.
So a block that was retired stays retired (`Heap.Later`). A block with one cell is a record, which
is read and written whole (`Heap.record`). Different live blocks share no cells, so that what they
hold together is bounded by what the heap holds (`Heap.sum_length_le_cells`).
-/

namespace Memory

variable {α : Type*}

/-! ### Blocks -/

/-- Store `xs` into a block from cell `off` on. -/
def overwrite (blk : List α) (off : ℕ) (xs : List α) : List α :=
  blk.take off ++ (xs ++ blk.drop (off + xs.length))

/-- The block with `n` cells: it keeps what fits of the old contents, the rest is junk. -/
def resize (blk : List α) (n : ℕ) (junk : ℕ → α) : List α :=
  (List.range n).map fun i ↦ (blk[i]?).getD (junk i)

theorem length_overwrite {blk xs : List α} {off : ℕ} (h : off + xs.length ≤ blk.length) :
    (overwrite blk off xs).length = blk.length := by
  rw [overwrite, List.length_append, List.length_append, List.length_take, List.length_drop]
  omega

theorem take_overwrite {blk : List α} {off : ℕ} (h : off ≤ blk.length) (xs : List α) :
    (overwrite blk off xs).take (off + xs.length) = blk.take off ++ xs := by
  have hlen : (blk.take off).length = off := by
    rw [List.length_take]
    omega
  rw [overwrite, ← List.append_assoc, List.take_left' (by rw [List.length_append, hlen])]

theorem take_overwrite_of_le {blk : List α} {off n : ℕ} (h : off ≤ blk.length) (hn : n ≤ off)
    (xs : List α) : (overwrite blk off xs).take n = blk.take n := by
  rw [overwrite, List.take_append_of_le_length (by rw [List.length_take]; omega), List.take_take,
    Nat.min_eq_left hn]

@[simp]
theorem length_resize (blk : List α) (n : ℕ) (junk : ℕ → α) : (resize blk n junk).length = n := by
  rw [resize, List.length_map, List.length_range]

theorem take_resize {blk : List α} {m n : ℕ} (hm : m ≤ blk.length) (hmn : m ≤ n)
    (junk : ℕ → α) : (resize blk n junk).take m = blk.take m := by
  refine List.ext_getElem? fun i ↦ ?_
  rcases Nat.lt_or_ge i m with hi | hi
  · rw [List.getElem?_take_of_lt hi, List.getElem?_take_of_lt hi, resize, List.getElem?_map,
      List.getElem?_range (by omega), Option.map_some,
      List.getElem?_eq_getElem (show i < blk.length by omega), Option.getD_some]
  · rw [List.getElem?_eq_none (by rw [List.length_take]; omega),
      List.getElem?_eq_none (by rw [List.length_take]; omega)]

/-! ### The heap -/

/-- All blocks ever allocated, the retired ones as `none`; the address of a block is its place in
the list. -/
structure Heap (α : Type*) where
  /-- The blocks by address. -/
  blocks : List (Option (List α))
deriving DecidableEq, Repr

namespace Heap

/-- The heap with no block. -/
def empty : Heap α := ⟨[]⟩

/-- The contents of the live block at an address. -/
def block (h : Heap α) (a : ℕ) : Option (List α) :=
  (h.blocks[a]?).join

/-- The address the next allocation returns. -/
def next (h : Heap α) : ℕ :=
  h.blocks.length

/-- Allocate a block with the given contents at `next`. -/
def alloc (h : Heap α) (blk : List α) : Heap α :=
  ⟨h.blocks ++ [some blk]⟩

/-- Retire a live block. -/
def free (h : Heap α) (a : ℕ) : Option (Heap α) :=
  match h.block a with
  | some _ => some ⟨h.blocks.set a none⟩
  | none => none

/-- Read `len` cells of a live block, inside its bounds. -/
def load (h : Heap α) (a off len : ℕ) : Option (List α) :=
  match h.block a with
  | some blk => if off + len ≤ blk.length then some ((blk.drop off).take len) else none
  | none => none

/-- Write into a live block, inside its bounds. -/
def store (h : Heap α) (a off : ℕ) (xs : List α) : Option (Heap α) :=
  match h.block a with
  | some blk =>
    if off + xs.length ≤ blk.length then some ⟨h.blocks.set a (some (overwrite blk off xs))⟩
    else none
  | none => none

variable {h h' : Heap α} {a b : ℕ} {blk : List α}

@[simp] theorem block_empty (a : ℕ) : (empty : Heap α).block a = none := rfl

theorem lt_next_of_block (hb : h.block a = some blk) : a < h.next := by
  rcases Nat.lt_or_ge a h.next with hlt | hge
  · exact hlt
  · rw [block, List.getElem?_eq_none hge] at hb
    exact absurd hb (by simp)

/-- **The next address is not live.** -/
theorem block_next (h : Heap α) : h.block h.next = none := by
  rw [block, List.getElem?_eq_none (by rw [next])]
  rfl

theorem ne_next_of_block (hb : h.block a = some blk) : a ≠ h.next :=
  Nat.ne_of_lt (lt_next_of_block hb)

theorem block_alloc (h : Heap α) (blk : List α) (a : ℕ) :
    (h.alloc blk).block a = if a = h.next then some blk else h.block a := by
  rw [block, alloc, block]
  rcases Nat.lt_trichotomy a h.next with hlt | heq | hgt
  · rw [if_neg (by omega), List.getElem?_append_left hlt]
  · rw [if_pos heq, heq, next, List.getElem?_concat_length]
    rfl
  · have hlen : h.blocks.length < a := hgt
    rw [if_neg (by omega), List.getElem?_eq_none (by simp; omega),
      List.getElem?_eq_none (by omega)]

private theorem block_set (hb : h.block a = some blk) (v : Option (List α)) (c : ℕ) :
    (Heap.mk (h.blocks.set a v)).block c = if c = a then v else h.block c := by
  have hlt : a < h.blocks.length := lt_next_of_block hb
  rw [block, block]
  rcases eq_or_ne c a with rfl | hne
  · rw [if_pos rfl, List.getElem?_set_self hlt]
    rfl
  · rw [if_neg hne, List.getElem?_set_ne hne.symm]

/-- Retiring a live block succeeds and changes no other block. -/
theorem exists_free (hb : h.block a = some blk) :
    ∃ h', h.free a = some h' ∧ ∀ c, h'.block c = if c = a then none else h.block c := by
  refine ⟨⟨h.blocks.set a none⟩, ?_, block_set hb none⟩
  rw [free, hb]

/-- Writing inside a live block succeeds and changes no other block. -/
theorem exists_store (hb : h.block a = some blk) {off : ℕ} {xs : List α}
    (hle : off + xs.length ≤ blk.length) :
    ∃ h', h.store a off xs = some h' ∧
      ∀ c, h'.block c = if c = a then some (overwrite blk off xs) else h.block c := by
  refine ⟨⟨h.blocks.set a (some (overwrite blk off xs))⟩, ?_, block_set hb _⟩
  rw [store, hb]
  exact if_pos hle

theorem load_eq (hb : h.block a = some blk) {off len : ℕ} (hle : off + len ≤ blk.length) :
    h.load a off len = some ((blk.drop off).take len) := by
  rw [load, hb]
  exact if_pos hle

/-! ### Retired for good -/

/-- The heap `h'` comes later than `h`: no block that was retired is live again. -/
def Later (h h' : Heap α) : Prop :=
  h.next ≤ h'.next ∧ ∀ a < h.next, h.block a = none → h'.block a = none

theorem Later.refl (h : Heap α) : h.Later h :=
  ⟨Nat.le_refl _, fun _ _ hnone ↦ hnone⟩

theorem Later.trans {h'' : Heap α} (hl : h.Later h') (hl' : h'.Later h'') : h.Later h'' :=
  ⟨Nat.le_trans hl.1 hl'.1,
    fun a ha hnone ↦ hl'.2 a (Nat.lt_of_lt_of_le ha hl.1) (hl.2 a ha hnone)⟩

theorem later_alloc (h : Heap α) (blk : List α) : h.Later (h.alloc blk) := by
  refine ⟨by rw [next, next, alloc, List.length_append]; omega, fun a ha hnone ↦ ?_⟩
  rw [block_alloc, if_neg (Nat.ne_of_lt ha), hnone]

theorem later_of_free (hfree : h.free a = some h') : h.Later h' := by
  rcases hb : h.block a with - | blk
  · simp only [free, hb, reduceCtorEq] at hfree
  · simp only [free, hb, Option.some.injEq] at hfree
    subst hfree
    refine ⟨by rw [next, next, List.length_set], fun c _ hnone ↦ ?_⟩
    rw [block_set hb, hnone, ite_self]

theorem later_of_store {off : ℕ} {xs : List α} (hstore : h.store a off xs = some h') :
    h.Later h' := by
  rcases hb : h.block a with - | blk
  · simp only [store, hb, reduceCtorEq] at hstore
  · simp only [store, hb, Option.ite_none_right_eq_some, Option.some.injEq] at hstore
    obtain ⟨-, rfl⟩ := hstore
    refine ⟨by rw [next, next, List.length_set], fun c _ hnone ↦ ?_⟩
    rw [block_set hb, if_neg, hnone]
    rintro rfl
    rw [hb] at hnone
    exact absurd hnone (by simp)

/-! ### Records -/

/-- The contents of a live block with one cell. -/
def record (h : Heap α) (a : ℕ) : Option α :=
  (h.block a).bind List.head?

/-- Write into a live block with one cell. -/
def setRecord (h : Heap α) (a : ℕ) (v : α) : Option (Heap α) :=
  h.store a 0 [v]

theorem lt_next_of_record {v : α} (hv : h.record a = some v) : a < h.next := by
  obtain ⟨blk, hb, -⟩ := Option.bind_eq_some_iff.1 hv
  exact lt_next_of_block hb

theorem record_alloc (h : Heap α) (v : α) (a : ℕ) :
    (h.alloc [v]).record a = if a = h.next then some v else h.record a := by
  rw [record, block_alloc]
  split <;> rfl

theorem next_alloc (h : Heap α) (blk : List α) : (h.alloc blk).next = h.next + 1 := by
  rw [next, alloc, List.length_append]
  rfl

/-- The heap `h'` is `h` with another record at `a`, or none. -/
structure Updates (h h' : Heap α) (a : ℕ) (v : Option α) : Prop where
  next_eq : h'.next = h.next
  record_eq : ∀ c, h'.record c = if c = a then v else h.record c

theorem updates_of_setRecord {v : α} (h₁ : h.setRecord a v = some h') :
    h.Updates h' a (some v) := by
  rcases hb : h.block a with - | - | ⟨u, blk⟩
  · simp [setRecord, store, hb] at h₁
  · simp [setRecord, store, hb] at h₁
  · simp only [setRecord, store, hb, Option.ite_none_right_eq_some, Option.some.injEq] at h₁
    obtain ⟨-, rfl⟩ := h₁
    refine ⟨by rw [next, next, List.length_set], fun c ↦ ?_⟩
    rw [record, block_set hb]
    split <;> rfl

theorem updates_of_free (h₁ : h.free a = some h') : h.Updates h' a none := by
  rcases hb : h.block a with - | blk
  · simp [free, hb] at h₁
  · simp only [free, hb, Option.some.injEq] at h₁
    subst h₁
    refine ⟨by rw [next, next, List.length_set], fun c ↦ ?_⟩
    rw [record, block_set hb]
    split <;> rfl

/-- Writing a live record succeeds. -/
theorem exists_setRecord {v : α} (hv : h.record a = some v) (w : α) :
    ∃ h', h.setRecord a w = some h' := by
  obtain ⟨blk, hb, hhead⟩ := Option.bind_eq_some_iff.1 hv
  rcases blk with - | ⟨u, blk⟩
  · exact absurd hhead (by simp)
  · have hroom : 0 + [w].length ≤ (u :: blk).length := by simp
    obtain ⟨h', hstore, -⟩ := exists_store hb hroom
    exact ⟨h', hstore⟩

/-- Retiring a live record succeeds. -/
theorem exists_freeRecord {v : α} (hv : h.record a = some v) : ∃ h', h.free a = some h' := by
  obtain ⟨blk, hb, -⟩ := Option.bind_eq_some_iff.1 hv
  obtain ⟨h', hfree, -⟩ := exists_free hb
  exact ⟨h', hfree⟩

/-! ### The room the blocks take -/

/-- How many cells are live. -/
def cells (h : Heap α) : ℕ :=
  ((List.range h.next).map fun a ↦ ((h.block a).getD []).length).sum

/-- Different blocks share no cells. -/
theorem sum_length_le_cells {as : List ℕ} (hnodup : as.Nodup)
    (hlive : ∀ a ∈ as, ∃ blk, h.block a = some blk) :
    (as.map fun a ↦ ((h.block a).getD []).length).sum ≤ h.cells := by
  have hsubset : as ⊆ List.range h.next := fun a ha ↦ by
    obtain ⟨blk, hblk⟩ := hlive a ha
    exact List.mem_range.2 (lt_next_of_block hblk)
  obtain ⟨bs, hperm, hsublist⟩ := List.subperm_of_subset hnodup hsubset
  calc (as.map fun a ↦ ((h.block a).getD []).length).sum
      = (bs.map fun a ↦ ((h.block a).getD []).length).sum := (hperm.map _).sum_eq.symm
    _ ≤ h.cells := (hsublist.map _).sum_le_sum fun _ _ ↦ Nat.zero_le _

end Heap

end Memory
