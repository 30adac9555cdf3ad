import Mathlib.Data.List.Infix
import Aesd.Driver.ReadRuns

/-!
# A reader among writers

The ring is a window on the stream of all bytes ever committed (`Kernel.stream`), and it moves: what
is evicted leaves it at the front (`Kernel.evicted`, `Represents.drop_stream`). The position of an
open file counts from the front of the window. So a reader whose position is moved by nothing but
its own reads continues the stream where it left it, moved on by what was evicted in between
(`reader_misses_only_evicted`).

How much the ring can hold is not bounded by the driver but by the memory there is: the blocks that
are live at one time are disjoint pieces of it (`Represents.sum_le_cells`).
-/

namespace Aesd

open Memory Framing BoundedFifo Positions Execution

namespace Kernel

variable (k : Kernel)

/-- All bytes committed so far. -/
def stream : List Byte :=
  k.committed.flatten

/-- How many bytes of the stream are no longer in the ring. -/
def evicted : ℕ :=
  k.stream.length - k.commands.flatten.length

end Kernel

/-! ### The window -/

namespace Kernel.Represents

variable {k k' : Kernel} {s s' : Log Byte}

theorem stream_eq (h : k.Represents s) :
    k.stream = (s.committed.rdrop 10).flatten ++ (s.committed.rtake 10).flatten := by
  rw [← List.flatten_append, List.rdrop, List.rtake, List.take_append_drop, ← h.committed_eq]
  rfl

theorem evicted_eq (h : k.Represents s) : k.evicted = (s.committed.rdrop 10).flatten.length := by
  rw [Kernel.evicted, h.stream_eq, h.commands_eq, List.length_append, Nat.add_sub_cancel_right]

/-- **The ring holds the stream from the evicted bytes on.** -/
theorem drop_stream (h : k.Represents s) (p : ℕ) :
    k.stream.drop (k.evicted + p) = (s.committed.rtake 10).flatten.drop p := by
  rw [h.evicted_eq, h.stream_eq, List.drop_append, List.drop_eq_nil_of_le (by omega),
    List.nil_append, Nat.add_sub_cancel_left]

theorem length_stream (h : k.Represents s) :
    k.stream.length = k.evicted + (s.committed.rtake 10).flatten.length := by
  rw [h.evicted_eq, h.stream_eq, List.length_append]

/-- What is committed later only adds to the stream, and to what is evicted. -/
theorem stream_prefix (h : k.Represents s) (h' : k'.Represents s')
    (hgrows : s.committed <+: s'.committed) :
    k.stream <+: k'.stream ∧ k.evicted ≤ k'.evicted := by
  have hdrop : s.committed.rdrop 10 <+: s'.committed.rdrop 10 := by
    obtain ⟨more, hmore⟩ := id hgrows
    have hlen := hgrows.length_le
    rw [List.rdrop, List.rdrop, ← hmore, ← List.take_append_of_le_length (by omega)]
    exact List.take_prefix_take_left (by rw [hmore]; omega)
  rw [h.evicted_eq, h'.evicted_eq, Kernel.stream, Kernel.stream, h.committed_eq, h'.committed_eq]
  exact ⟨hgrows.flatten, hdrop.flatten.length_le⟩

/-- The ring holds no more than the memory does. -/
theorem sum_le_cells (h : k.Represents s) :
    ((s.committed.rtake 10).map List.length).sum ≤ k.heap.cells := by
  have hlengths : ∀ {q cmds}, List.Forall₂ (Stored k.heap) q cmds →
      (q.filterMap AesdBufferEntry.buffptr).map (fun a ↦ ((k.heap.block a).getD []).length) =
        cmds.map List.length := by
    intro q cmds hq
    induction hq with
    | nil => rfl
    | cons he _ ih =>
      obtain ⟨a, ha, hblock, -, -⟩ := he
      rw [List.filterMap_cons_some ha, List.map_cons, List.map_cons, ih, hblock, Option.getD_some]
  rw [← hlengths h.stored]
  exact Heap.sum_length_le_cells (List.nodup_append.1 h.nodup).1 fun a ha ↦ h.ring_live ha

end Kernel.Represents

/-! ### The stream grows -/

section Runs

variable {fixedSizeLlseek : ℤ → ℤ → ℤ → ℤ → ℤ × ℤ} {sys sys' : System} {s : Log Byte} {f p : ℕ}
  {ops : List Op} {answers : List Answer} {a : Answer}

theorem WriteFate.committed_prefix_log (fate : WriteFate) (s : Log Byte) (bytes : List Byte) :
    s.committed <+: (fate.log s bytes).committed := by
  cases fate with
  | committed => exact List.prefix_append _ _
  | _ => exact List.prefix_refl _

theorem Op.committed_prefix_log (op : Op) (sys : System) (s : Log Byte) :
    s.committed <+: (op.log sys s).committed := by
  cases op with
  | write g buf o =>
    rw [Op.log]
    split
    · exact List.prefix_refl _
    · exact WriteFate.committed_prefix_log _ s buf.bytes
  | _ => exact List.prefix_refl _

/-- A run only adds to what is committed. -/
theorem System.exists_committed_prefix (h : sys.Represents s)
    (hrun : run (step fixedSizeLlseek) sys ops = .ok (answers, sys')) :
    ∃ s', sys'.Represents s' ∧ s.committed <+: s'.committed := by
  refine invariant_of_run
    (I := fun sys : System ↦ ∃ s', sys.Represents s' ∧ s.committed <+: s'.committed)
    ?_ ⟨s, h, List.prefix_refl _⟩ hrun
  rintro sys op a sys' ⟨s', hs', hgrows⟩ hstep
  exact ⟨_, hs'.step hstep, hgrows.trans (op.committed_prefix_log sys s')⟩

/-! ### The reader -/

/-- What a read that returned answered. -/
theorem System.answer_of_read (h : sys.Represents s)
    (hsum : ((s.committed.rtake 10).map List.length).sum < 2 ^ 63) (hp : p < 2 ^ 63)
    (hf : sys.files f = some ⟨some .aesdDevice, p⟩) {count uncopied : ℕ}
    (hstep : step fixedSizeLlseek sys (.read f count uncopied) = .ok (a, sys')) :
    a.ret = (readReply sys.kernel (readPiece (s.committed.rtake 10) p count) uncopied p).ret ∧
      a.data =
        (readReply sys.kernel (readPiece (s.committed.rtake 10) p count) uncopied p).data := by
  obtain ⟨hnone, -⟩ | ⟨filp, reply, hf', hread, rfl, -⟩ := System.call_cases hstep
  · rw [hnone] at hf
    exact absurd hf (by simp)
  · obtain rfl := Option.some.inj (hf'.symm.trans hf)
    have hopen := h.opened f _ hf
    rw [aesdRead_eq h.kernel (System.free_of_read hopen hread) hopen
      (Nat.lt_trans hsum (by decide)) (Nat.lt_trans hp (by decide))] at hread
    obtain rfl := Except.ok.inj hread
    exact ⟨rfl, rfl⟩

/-- A read delivers all of the piece or nothing. -/
theorem readReply_data_cases (k : Kernel) (piece : List Byte) (uncopied : ℕ) (fPos : ℤ) :
    (readReply k piece uncopied fPos).data = [] ∨
      (readReply k piece uncopied fPos).data = piece := by
  rw [readReply]
  split
  · exact Or.inl rfl
  · exact Or.inr rfl

/-- A closed file is opened at the start, or stays closed. -/
theorem System.files_of_closed (hf : sys.files f = none) {op : Op}
    (hstep : step fixedSizeLlseek sys op = .ok (a, sys')) :
    sys'.files f = none ∨ sys'.files f = some ⟨some .aesdDevice, (0 : ℕ)⟩ := by
  have hcall : ∀ {g operation}, sys.call g operation = .ok (a, sys') → sys'.files f = none := by
    intro g operation h
    rcases eq_or_ne g f with rfl | hne
    · rw [call_of_closed hf] at h
      obtain ⟨-, rfl⟩ := Prod.mk.inj (Except.ok.inj h)
      exact hf
    · rw [files_of_call hne h, hf]
  cases op with
  | openFile g =>
    rcases step_openFile_cases hstep with rfl | ⟨-, rfl⟩
    · exact Or.inl hf
    · rw [setFile_files]
      split
      · exact Or.inr rfl
      · exact Or.inl hf
  | release g =>
    rcases step_release_cases hstep with rfl | rfl
    · exact Or.inl hf
    · rw [setFile_files]
      split
      · exact Or.inl rfl
      · exact Or.inl hf
  | read g => exact Or.inl (hcall hstep)
  | write g => exact Or.inl (hcall hstep)
  | llseek g => exact Or.inl (hcall hstep)
  | ioctl g => exact Or.inl (hcall hstep)

/-- The file is not open, or its position is that of a byte there can be. -/
def Positioned (f : ℕ) (sys : System) : Prop :=
  ∀ filp, sys.files f = some filp → ∃ p : ℕ, filp = ⟨some .aesdDevice, p⟩ ∧ p < 2 ^ 63

theorem Positioned.of_step (hpos : Positioned f sys) (h : sys.Represents s)
    (hsum : ((s.committed.rtake 10).map List.length).sum < 2 ^ 63) {op : Op}
    (hop : op.readsOnly f = true)
    (hstep : step fixedSizeLlseek sys op = .ok (a, sys')) : Positioned f sys' := by
  intro filp hfilp
  rcases hf : sys.files f with - | filp₀
  · rcases System.files_of_closed hf hstep with hnone | hopened
    · rw [hnone] at hfilp
      exact absurd hfilp (by simp)
    · rw [hopened] at hfilp
      exact ⟨0, (Option.some.inj hfilp).symm, by decide⟩
  · obtain ⟨p, rfl, hp⟩ := hpos filp₀ hf
    rw [System.fPos_of_step h hstep hop hf] at hfilp
    obtain rfl := Option.some.inj hfilp
    refine ⟨p + ((op.pieceOf f a).getD []).length, by rw [Nat.cast_add], ?_⟩
    rcases hpiece : op.pieceOf f a with - | piece
    · exact hp
    -- a read that delivers bytes ends inside the ring
    cases op with
    | read g count uncopied =>
      rw [Op.pieceOf, Option.ite_none_right_eq_some] at hpiece
      obtain ⟨rfl, hdata⟩ := hpiece
      obtain ⟨-, hanswer⟩ := System.answer_of_read h hsum hp hf hstep
      rw [← Option.some.inj hdata, Option.getD_some, hanswer]
      rcases readReply_data_cases sys.kernel (readPiece (s.committed.rtake 10) p count) uncopied p
        with hnil | hall
      · rw [hnil]
        exact hp
      · rw [hall]
        rcases eq_or_ne (readPiece (s.committed.rtake 10) p count) [] with hnil | hne
        · rw [hnil]
          exact hp
        · have hend := add_length_readPiece_le hne
          rw [List.length_flatten] at hend
          exact Nat.lt_of_le_of_lt hend hsum
    | _ => exact absurd hpiece (by simp [Op.pieceOf])

/-- The state before a call of a run in which `f` is only read. -/
theorem exists_represents_positioned
    (hrun : run (step fixedSizeLlseek) .init ops = .ok (answers, sys))
    (hreads : ∀ op ∈ ops, op.readsOnly f = true)
    (hspace : Along (step fixedSizeLlseek) (fun sys _ ↦ sys.kernel.heap.cells < 2 ^ 63) .init ops) :
    (∃ s, sys.Represents s) ∧ Positioned f sys := by
  refine invariant_of_along (I := fun sys ↦ (∃ s, sys.Represents s) ∧ Positioned f sys)
    (D := fun _ ↦ True) ?_
    ⟨⟨_, System.represents_init⟩, fun filp hfilp ↦ absurd hfilp (by simp [System.init])⟩ hrun
    ((along_of_forall hreads).and hspace) fun _ _ ↦ trivial
  rintro sys op a sys' ⟨⟨s, hs⟩, hpos⟩ ⟨hop, hcells⟩ - hstep
  have hsum := Nat.lt_of_le_of_lt hs.kernel.sum_le_cells hcells
  exact ⟨⟨_, hs.step hstep⟩, hpos.of_step hs hsum hop hstep⟩

/-- The `n`-th call of the run is a read of `f`, which is open at position `p` in the state before
it, and answers `a`. -/
structure ReadsAt (fixedSizeLlseek : ℤ → ℤ → ℤ → ℤ → ℤ × ℤ) (ops : List Op) (answers : List Answer)
    (f n : ℕ) (sys : System) (p : ℕ) (a : Answer) : Prop where
  before : run (step fixedSizeLlseek) .init (ops.take n) = .ok (answers.take n, sys)
  call : ∃ count uncopied, ops[n]? = some (.read f count uncopied)
  answer : answers[n]? = some a
  file : sys.files f = some ⟨some .aesdDevice, p⟩

/-- Only the first of the calls delivers something. -/
theorem flatten_pieces_of_first {ops : List Op} {answers : List Answer} {count uncopied : ℕ}
    (hop : ops[0]? = some (.read f count uncopied)) (ha : answers[0]? = some a)
    (hrest : ∀ (i : ℕ) (c : Answer) (count uncopied : ℕ), 0 < i →
      ops[i]? = some (.read f count uncopied) → answers[i]? = some c → c.data = []) :
    (pieces f ops answers).flatten = a.data := by
  rcases ops with - | ⟨op, ops⟩
  · exact absurd hop (by simp)
  rcases answers with - | ⟨a', answers⟩
  · exact absurd ha (by simp)
  obtain rfl := Option.some.inj hop
  obtain rfl := Option.some.inj ha
  have hnil : (pieces f ops answers).flatten = [] :=
    flatten_pieces_eq_nil fun i c count' uncopied' hop' hc ↦
      hrest (i + 1) c count' uncopied' (Nat.succ_pos i) hop' hc
  rw [pieces_cons, Op.pieceOf, if_pos rfl, List.flatten_append, hnil, List.append_nil]
  exact List.append_nil _

/-- From one read to a later one the position moves by what the reads in between deliver. -/
theorem ReadsAt.position_eq {m n q : ℕ} {sys₁ sys₂ : System} {b : Answer}
    (hreads : ∀ op ∈ ops, op.readsOnly f = true)
    (hm : ReadsAt fixedSizeLlseek ops answers f m sys₁ p a)
    (hn : ReadsAt fixedSizeLlseek ops answers f n sys₂ q b) (hmn : m < n)
    (hbetween : ∀ (i : ℕ) (c : Answer) (count uncopied : ℕ), m < i → i < n →
      ops[i]? = some (.read f count uncopied) → answers[i]? = some c → c.data = []) :
    ∃ ops' answers', run (step fixedSizeLlseek) sys₁ ops' = .ok (answers', sys₂) ∧
      q = p + a.data.length := by
  have hbefore := hn.before
  rw [← List.take_append_drop m (ops.take n), List.take_take, Nat.min_eq_left (Nat.le_of_lt hmn),
    run_append_eq_ok_iff] at hbefore
  obtain ⟨answers₁, sys', answers', hfirst, hrun, hsplit⟩ := hbefore
  obtain ⟨rfl, rfl⟩ := Prod.mk.inj (Except.ok.inj (hm.before.symm.trans hfirst))
  have hanswers' : answers' = (answers.take n).drop m := by
    have hlen : (answers.take m).length = m := by
      have hlt := (List.getElem?_eq_some_iff.1 hm.answer).1
      rw [List.length_take]
      omega
    rw [hsplit, List.drop_left' hlen]
  obtain ⟨s, hs⟩ := System.exists_represents ⟨_, _, hm.before⟩
  have hmove := System.fPos_of_run hs hrun
    (fun op hop ↦ hreads op (List.mem_of_mem_take (List.mem_of_mem_drop hop))) hm.file
  rw [hn.file, Option.some.injEq, File.mk.injEq] at hmove
  refine ⟨_, _, hrun, ?_⟩
  -- the first of the calls in between is the read at `m`; the others deliver nothing
  obtain ⟨count, uncopied, hcall⟩ := hm.call
  have hat : ∀ i : ℕ, ((ops.take n).drop m)[i]? = if m + i < n then ops[m + i]? else none := by
    intro i
    rw [List.getElem?_drop, List.getElem?_take]
  have hat' : ∀ i : ℕ, answers'[i]? = if m + i < n then answers[m + i]? else none := by
    intro i
    rw [hanswers', List.getElem?_drop, List.getElem?_take]
  have hdelivered : (pieces f ((ops.take n).drop m) answers').flatten = a.data := by
    have hfirstCall : ((ops.take n).drop m)[0]? = some (.read f count uncopied) := by
      rw [hat, Nat.add_zero, if_pos hmn, hcall]
    have hfirstAnswer : answers'[0]? = some a := by
      rw [hat', Nat.add_zero, if_pos hmn, hm.answer]
    refine flatten_pieces_of_first hfirstCall hfirstAnswer
      fun i c count' uncopied' hi hop hc ↦ ?_
    rw [hat, Option.ite_none_right_eq_some] at hop
    rw [hat', if_pos hop.1] at hc
    exact hbetween (m + i) c count' uncopied' (by omega) hop.1 hop.2 hc
  rw [hdelivered] at hmove
  exact Int.ofNat_inj.1 hmove.2

/-- **A reader among writers misses only what is evicted.** In every run of any calls, in which the
file `f` is opened and read but not written, moved or closed, and in which the live blocks of the
kernel always fit into an address space:

* a read of `f` at position `p` returns a piece of the stream that starts `p` bytes behind the
  evicted ones; when all could be copied it returns nothing only if the stream ends there or no byte
  was asked for;
* of two reads of `f`, between which no read of `f` delivered anything, the later one starts at the
  byte of the stream where the earlier one ended, moved on by the bytes that were evicted between
  them. -/
theorem reader_misses_only_evicted
    (hrun : run (step fixedSizeLlseek) .init ops = .ok (answers, sys))
    (hreads : ∀ op ∈ ops, op.readsOnly f = true)
    (hspace : Along (step fixedSizeLlseek) (fun sys _ ↦ sys.kernel.heap.cells < 2 ^ 63) .init ops) :
    (∀ n count uncopied, ops[n]? = some (.read f count uncopied) → ∃ sys₁ a,
      run (step fixedSizeLlseek) .init (ops.take n) = .ok (answers.take n, sys₁) ∧
      answers[n]? = some a ∧
      (sys₁.files f = none ∧ a = ⟨-EBADF, []⟩ ∨
        ∃ p, ReadsAt fixedSizeLlseek ops answers f n sys₁ p a ∧
          a.data <+: sys₁.kernel.stream.drop (sys₁.kernel.evicted + p) ∧
          (uncopied = 0 → a.ret = a.data.length ∧
            (a.data = [] ↔ sys₁.kernel.stream.length ≤ sys₁.kernel.evicted + p ∨ count = 0)))) ∧
    ∀ m n sys₁ sys₂ p q a b, ReadsAt fixedSizeLlseek ops answers f m sys₁ p a →
      ReadsAt fixedSizeLlseek ops answers f n sys₂ q b → m < n →
      (∀ (i : ℕ) (c : Answer) (count uncopied : ℕ), m < i → i < n →
        ops[i]? = some (.read f count uncopied) → answers[i]? = some c → c.data = []) →
      sys₁.kernel.stream <+: sys₂.kernel.stream ∧ sys₁.kernel.evicted ≤ sys₂.kernel.evicted ∧
      sys₂.kernel.evicted + q = sys₁.kernel.evicted + p + a.data.length +
        (sys₂.kernel.evicted - sys₁.kernel.evicted) := by
  refine ⟨fun n count uncopied hop ↦ ?_, fun m n sys₁ sys₂ p q a b hm hn hmn hbetween ↦ ?_⟩
  · obtain ⟨sys₁, a, sys₂, hbefore, hstep, ha⟩ := exists_step_of_run hrun hop
    refine ⟨sys₁, a, hbefore, ha, ?_⟩
    obtain ⟨⟨s, hs⟩, hpos⟩ := exists_represents_positioned hbefore
      (fun op hmem ↦ hreads op (List.mem_of_mem_take hmem)) (hspace.take n)
    have hsum := Nat.lt_of_le_of_lt hs.kernel.sum_le_cells (hspace.of_getElem? hop hbefore)
    rcases hf : sys₁.files f with - | filp
    · have hclosed := System.call_of_closed hf fun filp ↦
        aesdRead sys₁.kernel filp count uncopied filp.fPos
      obtain ⟨rfl, -⟩ := Prod.mk.inj (Except.ok.inj (hstep.symm.trans hclosed))
      exact Or.inl ⟨rfl, rfl⟩
    · obtain ⟨p, rfl, hp⟩ := hpos filp hf
      obtain ⟨hret, hdata⟩ := System.answer_of_read hs hsum hp hf hstep
      refine Or.inr ⟨p, ⟨hbefore, ⟨count, uncopied, hop⟩, ha, hf⟩, ?_, fun hcopied ↦ ?_⟩
      · rw [hs.kernel.drop_stream, hdata]
        rcases readReply_data_cases sys₁.kernel (readPiece (s.committed.rtake 10) p count)
          uncopied p with hnil | hall
        · rw [hnil]
          exact List.nil_prefix
        · rw [hall]
          exact ⟨_, readPiece_append _ p count⟩
      · subst hcopied
        rw [readReply_zero] at hret hdata
        rw [hret, hdata, readPiece_eq_nil_iff, hs.kernel.length_stream, Nat.add_le_add_iff_left]
        exact ⟨rfl, Iff.rfl⟩
  · obtain ⟨ops', answers', hrun', hq⟩ := hm.position_eq hreads hn hmn hbetween
    obtain ⟨s, hs⟩ := System.exists_represents ⟨_, _, hm.before⟩
    obtain ⟨s', hs', hgrows⟩ := System.exists_committed_prefix hs hrun'
    obtain ⟨hstream, hevicted⟩ := hs.kernel.stream_prefix hs'.kernel hgrows
    exact ⟨hstream, hevicted, by omega⟩

/-- Ten more commands evict the first one between two reads: the reader has read one of its bytes,
and misses the other one and the first byte of the second command. -/
theorem reader_misses_only_evicted_two_reads :
    let ops : List Op := [.openFile 0, .openFile 1, .write 0 ⟨[97, newline], by decide⟩ .granting,
      .read 1 1 0] ++ List.replicate 10 (.write 0 ⟨[98, newline], by decide⟩ .granting) ++
        [.read 1 1 0]
    ∃ answers sys, run (step stayPut) .init ops = .ok (answers, sys) ∧
      ∃ sys₁ sys₂ p q a b, ReadsAt stayPut ops answers 1 3 sys₁ p a ∧
        ReadsAt stayPut ops answers 1 14 sys₂ q b ∧ a.data = [97] ∧ b.data = [newline] ∧
        a.data <+: sys₁.kernel.stream.drop (sys₁.kernel.evicted + p) ∧
        b.data <+: sys₂.kernel.stream.drop (sys₂.kernel.evicted + q) ∧
        sys₁.kernel.stream <+: sys₂.kernel.stream ∧ sys₁.kernel.evicted + p = 0 ∧
        sys₂.kernel.evicted + q = 3 := by
  intro ops
  have heval : (run (step stayPut) .init ops).map
      (fun z ↦ (z.1[3]?.map Answer.data, z.1[14]?.map Answer.data)) =
        .ok (some [97], some [newline]) := by
    decide +kernel
  have hevicted : ∀ n ∈ [3, 14], (run (step stayPut) .init (ops.take n)).map
      (fun z ↦ (z.2.kernel.evicted, (z.2.files 1).map File.fPos)) =
        .ok (if n = 3 then (0, some 0) else (2, some 1)) := by
    decide +kernel
  have hspace : Along (step stayPut) (fun sys _ ↦ sys.kernel.heap.cells < 2 ^ 63) .init ops := by
    decide +kernel
  obtain ⟨⟨answers, sys⟩, hrun, hdata⟩ := exists_of_map_eq_ok heval
  obtain ⟨hread, hbetween⟩ := @reader_misses_only_evicted stayPut _ 1 ops _ hrun (by decide) hspace
  obtain ⟨hfirst, hlast⟩ := Prod.mk.inj hdata
  obtain ⟨sys₁, a, hbefore₁, ha, hcases₁⟩ := hread 3 1 0 rfl
  obtain ⟨sys₂, b, hbefore₂, hb, hcases₂⟩ := hread 14 1 0 rfl
  have hadata : a.data = [97] := by
    rw [ha] at hfirst
    exact Option.some.inj hfirst
  have hbdata : b.data = [newline] := by
    rw [hb] at hlast
    exact Option.some.inj hlast
  -- neither read finds the file closed: both have delivered a byte
  obtain ⟨-, rfl⟩ | ⟨p, hat₁, hpiece₁, -⟩ := hcases₁
  · exact absurd hadata (by decide)
  obtain ⟨-, rfl⟩ | ⟨q, hat₂, hpiece₂, -⟩ := hcases₂
  · exact absurd hbdata (by decide)
  have hwrites : ∀ i < 14, 3 < i →
      ops[i]? = some (.write 0 ⟨[98, newline], by decide⟩ .granting) := by
    intro i hi hi'
    rw [List.getElem?_append_left (by simpa using hi),
      List.getElem?_append_right (by simpa using Nat.succ_le_of_lt hi'), List.getElem?_replicate,
      if_pos (by simp; omega)]
  have hquiet : ∀ (i : ℕ) (c : Answer) (count uncopied : ℕ), 3 < i → i < 14 →
      ops[i]? = some (.read 1 count uncopied) → answers[i]? = some c → c.data = [] := by
    intro i c count uncopied hi hi' hop
    rw [hwrites i (by omega) hi] at hop
    exact nomatch hop
  obtain ⟨hstream, -, hmoved⟩ :=
    hbetween 3 14 sys₁ sys₂ p q a b hat₁ hat₂ (by decide) hquiet
  have hev₁ := hevicted 3 (by decide)
  have hev₂ := hevicted 14 (by decide)
  rw [hbefore₁] at hev₁
  rw [hbefore₂] at hev₂
  obtain ⟨hev₁, hpos₁⟩ := Prod.mk.inj (Except.ok.inj hev₁)
  obtain ⟨hev₂, -⟩ := Prod.mk.inj (Except.ok.inj hev₂)
  rw [hat₁.file] at hpos₁
  obtain rfl := Int.ofNat_inj.1 (Option.some.inj hpos₁)
  rw [hev₁, hev₂, hadata] at hmoved
  refine ⟨answers, sys, hrun, sys₁, sys₂, 0, q, a, b, hat₁, hat₂, hadata, hbdata, hpiece₁, hpiece₂,
    hstream, ?_, ?_⟩
  · exact hev₁
  · rw [hev₂, hmoved]
    rfl

end Runs

end Aesd
