import Aesd.Service.Sections

/-!
# The server and the device are a store of lines

What the server on the device is for: a `Store` that keeps the lines of its clients, in the order
in which they came, and answers with the last ten of them. A client that sends a line visits the
store twice, first to leave its line and then for the reply; one that sends a command for the
device visits it once (`Store.visit`).

The store is visited when a thread leaves a critical section, and every run of the server follows
it (`Follows`): between two critical sections the device is idle, with the lines of the store
committed, and a thread outside has sent the reply that the store has given. One call keeps that
(`Follows.step`).
-/

namespace Aesd

open Execution MutualExclusion

/-- The clients whose lines are stored, in order, and the replies given. -/
structure Store where
  first : List ℕ
  reply : ℕ → Option (List Byte)

namespace Store

/-- Nothing stored. -/
def empty : Store :=
  ⟨[], fun _ ↦ none⟩

variable (req : ℕ → Request)

/-- The lines, in order. -/
def lines (s : Store) : List (List Byte) :=
  s.first.map fun i ↦ (req i).bytes

/-- The lines that can still be read. -/
def kept (s : Store) : List (List Byte) :=
  (s.lines req).rtake 10

/-- The client `i` visits the store: it leaves its line, or gets its reply. -/
def visit (s : Store) (i : ℕ) : Store :=
  if (req i).isLine = true ∧ i ∉ s.first then { s with first := s.first ++ [i] }
  else { s with reply := Function.update s.reply i (some ((req i).reply (s.kept req))) }

/-- The store after visits. -/
def after (visits : List ℕ) : Store :=
  visits.foldl (visit req) empty

end Store

/-- The threads that have left a critical section, in order. -/
def sections (trace : List (ℕ × Event)) : List ℕ :=
  trace.filterMap fun y ↦ if y.2.role = .unlock then some y.1 else none

/-- A call in a run that goes well: nothing is refused, everything is copied, and a command for the
device names a byte of the ring. -/
structure GoesWell (w : World) (x : ℕ × Choice) : Prop where
  grants : x.2.Grants
  valid : ∀ l fd seekto, (w.proc x.1).code = .ioctl l fd seekto →
    (seekTarget w.env.kernel.commands seekto).isSome

/-- The pair that the next call passes to the device. -/
def Code.seeksTo : Code → Option AesdSeekto
  | .ioctl _ _ seekto => some seekto
  | _ => none

theorem Code.exists_eq_ioctl {code : Code} {seekto : AesdSeekto}
    (h : code.seeksTo = some seekto) : ∃ l fd, code = .ioctl l fd seekto := by
  cases code with
  | ioctl l fd seekto' => exact ⟨l, fd, by rw [Option.some.inj h]⟩
  | _ => exact absurd h (by simp [Code.seeksTo])

instance (w : World) (x : ℕ × Choice) : Decidable (GoesWell w x) :=
  decidable_of_iff
    (x.2.Grants ∧ ∀ seekto ∈ (w.proc x.1).code.seeksTo,
      (seekTarget w.env.kernel.commands seekto).isSome)
    ⟨fun ⟨hgrants, hvalid⟩ ↦ ⟨hgrants, fun l fd seekto hcode ↦ hvalid seekto (by rw [hcode]; rfl)⟩,
      fun h ↦ ⟨h.grants, fun seekto hseeks ↦ by
        obtain ⟨l, fd, hcode⟩ := Code.exists_eq_ioctl hseeks
        exact h.valid l fd seekto hcode⟩⟩

section Follows

variable (req : ℕ → Request) (inboxes : ℕ → List (List Byte)) (trace : List (ℕ × Event)) (w : World)
  (s : Store)

/-- Thread `i` is outside the critical sections, and has called no more than it may. -/
def IsOutside (i : ℕ) : Prop :=
  ∃ left, Outside (req i) (inboxes i) (decide (i ∈ s.first)) (s.reply i) (w.proc i).code
    (w.proc i).inbox (sentBytes (own i trace)) left ∧ (own i trace).length + left ≤ (req i).steps

/-- Thread `i` is inside a critical section. -/
def IsInside (i : ℕ) : Prop :=
  ∃ left, Inside (req i) (s.lines req) (decide (i ∈ s.first)) w.env (w.proc i).code
    (w.proc i).inbox (sentBytes (own i trace)) left ∧ (own i trace).length + left ≤ (req i).steps

/-- The run follows the store. -/
structure Follows : Prop where
  outside : ∀ i, w.owner ≠ some i → IsOutside req inboxes trace w s i
  inside : ∀ i, w.owner = some i → s.reply i = none ∧ IsInside req trace w s i
  idle : w.owner = none → Idle w.env (s.lines req)
  /-- A section has left the line of its thread, or got the reply. -/
  count : ∀ i, (sections trace).count i =
    (decide (i ∈ s.first)).toNat + (s.reply i).isSome.toNat

end Follows

section Step

variable {req : ℕ → Request} {inboxes : ℕ → List (List Byte)} {trace : List (ℕ × Event)}
  {w w' : World} {s s' : Store} {i : ℕ} {c : Choice} {e : Event} {conn : Conn} {left left' : ℕ}

theorem sections_concat_unlock (h : e.role = .unlock) :
    sections (trace ++ [(i, e)]) = sections trace ++ [i] := by
  rw [sections, List.filterMap_append]
  simp [sections, h]

theorem sections_concat_of_ne (h : e.role ≠ .unlock) :
    sections (trace ++ [(i, e)]) = sections trace := by
  rw [sections, List.filterMap_append]
  simp [sections, h]

namespace Store

theorem after_concat (visits : List ℕ) (i : ℕ) :
    Store.after req (visits ++ [i]) = (Store.after req visits).visit req i := by
  rw [Store.after, List.foldl_append]
  rfl

theorem visit_of_line (hr : (req i).isLine = true) (hi : i ∉ s.first) :
    s.visit req i = { s with first := s.first ++ [i] } :=
  if_pos ⟨hr, hi⟩

theorem visit_of_reply (h : decide (i ∈ s.first) = (req i).isLine) :
    s.visit req i =
      { s with reply := Function.update s.reply i (some ((req i).reply (s.kept req))) } := by
  refine if_neg ?_
  rintro ⟨hr, hi⟩
  rw [hr, decide_eq_true_iff] at h
  exact hi h

/-- The lines are those of the clients that visit, each once, in the order of their first visits. -/
theorem first_after (req : ℕ → Request) (visits : List ℕ) :
    (Store.after req visits).first = (visits.filter fun i ↦ (req i).isLine).eraseDups := by
  induction visits using List.reverseRecOn with
  | nil => rfl
  | append_singleton visits i ih =>
    rw [after_concat, List.filter_append, List.eraseDups_append, ← ih, visit]
    rcases hr : (req i).isLine with - | -
    · simp [hr]
    · have hmem : i ∈ (Store.after req visits).first ↔ i ∈ visits := by
        rw [ih, List.mem_eraseDups, List.mem_filter, and_iff_left hr]
      by_cases hi : i ∈ visits <;> simp [hr, hmem, hi, List.removeAll, List.eraseDups_cons]

theorem mem_first_after (req : ℕ → Request) (visits : List ℕ) (i : ℕ) :
    i ∈ (Store.after req visits).first ↔ i ∈ visits ∧ (req i).isLine = true := by
  rw [first_after, List.mem_eraseDups, List.mem_filter]

theorem nodup_first_after (req : ℕ → Request) (visits : List ℕ) :
    (Store.after req visits).first.Nodup := by
  induction visits using List.reverseRecOn with
  | nil => exact List.nodup_nil
  | append_singleton visits i ih =>
    rw [after_concat, visit]
    split
    · rename_i hnew
      exact List.nodup_append_comm.1 (List.nodup_cons.2 ⟨hnew.2, ih⟩)
    · exact ih

/-- The lines come in the order of the visits. -/
theorem first_after_sublist (req : ℕ → Request) (visits : List ℕ) :
    (Store.after req visits).first.Sublist visits := by
  induction visits using List.reverseRecOn with
  | nil => exact List.Sublist.refl []
  | append_singleton visits i ih =>
    rw [after_concat, visit]
    split
    · exact ih.append (List.Sublist.refl [i])
    · exact ih.trans (List.sublist_append_left visits [i])

/-- A reply is made of the lines that are kept when the client visits for it. -/
theorem exists_visit_of_reply {visits : List ℕ} {bytes : List Byte}
    (h : (Store.after req visits).reply i = some bytes) :
    ∃ before rest, visits = before ++ i :: rest ∧
      decide (i ∈ (Store.after req before).first) = (req i).isLine ∧
      bytes = (req i).reply ((Store.after req before).kept req) := by
  induction visits using List.reverseRecOn with
  | nil => exact absurd h (by simp [after, empty])
  | append_singleton visits j ih =>
    rw [after_concat, visit] at h
    split at h
    · obtain ⟨before, rest, rfl, hkind, hreply⟩ := ih h
      exact ⟨before, rest ++ [j], by simp, hkind, hreply⟩
    · rename_i hvisit
      rcases eq_or_ne j i with rfl | hne
      · have hmem := mem_first_after req visits j
        refine ⟨visits, [], rfl, ?_, ?_⟩
        · rcases hr : (req j).isLine with - | -
          · simp [hmem, hr]
          · simpa [hr] using hvisit
        · simp only [Function.update_self] at h
          exact (Option.some.inj h).symm
      · simp only [Function.update_of_ne hne.symm] at h
        obtain ⟨before, rest, rfl, hkind, hreply⟩ := ih h
        exact ⟨before, rest ++ [j], by simp, hkind, hreply⟩

theorem lines_concat (s : Store) (i : ℕ) :
    ({ s with first := s.first ++ [i] } : Store).lines req = s.lines req ++ [(req i).bytes] := by
  rw [lines, List.map_append]
  rfl

end Store

/-- Nothing has happened. -/
theorem Follows.start (req : ℕ → Request) (inboxes : ℕ → List (List Byte)) :
    Follows req inboxes [] (start inboxes) Store.empty where
  outside i _ := ⟨_, .accepted, by simp [own]⟩
  inside i h := absurd h (by simp [Aesd.start])
  idle _ := Idle.init
  count _ := rfl

namespace Follows

/-- A call of one thread leaves the others where they are. -/
theorem other (h : Follows req inboxes trace w s) (hproc : w'.proc = Function.update w.proc i conn)
    {j : ℕ} (hj : j ≠ i) (howner : w.owner ≠ some j) (hreply : s'.reply j = s.reply j)
    (hfirst : j ∈ s'.first ↔ j ∈ s.first) :
    IsOutside req inboxes (trace ++ [(i, e)]) w' s' j := by
  rw [IsOutside, hproc, Function.update_of_ne hj, own_concat_of_ne hj.symm, hreply,
    decide_eq_decide.2 hfirst]
  exact h.outside j howner

/-- The calling thread is outside. -/
theorem isOutside_self (hproc : w'.proc = Function.update w.proc i conn)
    (hlength : (own i trace).length + left ≤ (req i).steps) (hleft : left' < left)
    (h : Outside (req i) (inboxes i) (decide (i ∈ s'.first)) (s'.reply i) conn.code conn.inbox
      (sentBytes (own i trace) ++ e.sent.getD []) left') :
    IsOutside req inboxes (trace ++ [(i, e)]) w' s' i := by
  refine ⟨left', ?_, ?_⟩
  · rw [hproc, Function.update_self, own_concat_self, sentBytes_concat]
    exact h
  · rw [own_concat_self, List.length_append, List.length_singleton]
    omega

/-- The calling thread is inside. -/
theorem isInside_self (hproc : w'.proc = Function.update w.proc i conn)
    (hlength : (own i trace).length + left ≤ (req i).steps) (hleft : left' < left)
    (h : Inside (req i) (s.lines req) (decide (i ∈ s.first)) w'.env conn.code conn.inbox
      (sentBytes (own i trace) ++ e.sent.getD []) left') :
    IsInside req (trace ++ [(i, e)]) w' s i := by
  refine ⟨left', ?_, ?_⟩
  · rw [hproc, Function.update_self, own_concat_self, sentBytes_concat]
    exact h
  · rw [own_concat_self, List.length_append, List.length_singleton]
    omega

/-- The thread stays outside. -/
theorem stays (h : Follows req inboxes trace w s) (hproc : w'.proc = Function.update w.proc i conn)
    (hsections : sections (trace ++ [(i, e)]) = sections trace)
    (henv : w'.env = w.env) (howner : w'.owner = w.owner) (hi : w.owner ≠ some i)
    (hself : IsOutside req inboxes (trace ++ [(i, e)]) w' s i) :
    Follows req inboxes (trace ++ [(i, e)]) w' s where
  outside j hj := by
    rcases eq_or_ne j i with rfl | hne
    · exact hself
    · exact h.other hproc hne (howner ▸ hj) rfl Iff.rfl
  inside j hj := by
    rw [howner] at hj
    have hne : j ≠ i := by
      rintro rfl
      exact hi hj
    rw [IsInside, hproc, Function.update_of_ne hne, own_concat_of_ne hne.symm, henv]
    exact h.inside j hj
  idle hfree := by
    rw [henv]
    exact h.idle (howner ▸ hfree)
  count j := by
    rw [hsections]
    exact h.count j

/-- The thread is inside: it has entered, or it stays. -/
theorem holds (h : Follows req inboxes trace w s) (hproc : w'.proc = Function.update w.proc i conn)
    (hsections : sections (trace ++ [(i, e)]) = sections trace)
    (howner : w'.owner = some i) (hbefore : ∀ j ≠ i, w.owner ≠ some j) (hreply : s.reply i = none)
    (hself : IsInside req (trace ++ [(i, e)]) w' s i) :
    Follows req inboxes (trace ++ [(i, e)]) w' s where
  outside j hj := by
    have hne : j ≠ i := by
      rintro rfl
      exact hj howner
    exact h.other hproc hne (hbefore j hne) rfl Iff.rfl
  inside j hj := by
    obtain rfl := Option.some.inj (howner.symm.trans hj)
    exact ⟨hreply, hself⟩
  idle hfree := absurd (howner.symm.trans hfree) (Option.some_ne_none i)
  count j := by
    rw [hsections]
    exact h.count j

/-- The thread leaves: it visits the store. -/
theorem leaves (h : Follows req inboxes trace w s) (hproc : w'.proc = Function.update w.proc i conn)
    (hsections : sections (trace ++ [(i, e)]) = sections trace ++ [i])
    (howner : w'.owner = none) (hbefore : w.owner = some i) (hreply : s.reply i = none)
    (hlength : (own i trace).length + left ≤ (req i).steps) (hleft : left' < left)
    (hself : Leaves (req i) (inboxes i) (s.lines req) (decide (i ∈ s.first)) w'.env conn.code
      conn.inbox (sentBytes (own i trace) ++ e.sent.getD []) left') :
    Follows req inboxes (trace ++ [(i, e)]) w' (s.visit req i) := by
  have hothers : ∀ j ≠ i, w.owner ≠ some j := by
    rintro j hne hj
    exact hne (Option.some.inj (hj.symm.trans hbefore))
  have hnobody : ∀ j, w'.owner ≠ some j := by
    rintro j hj
    exact absurd (howner.symm.trans hj) (by simp)
  generalize hstored : decide (i ∈ s.first) = stored at hself
  cases hself with
  | stored hr hsys hout =>
    have hi : i ∉ s.first := of_decide_eq_false hstored
    rw [Store.visit_of_line hr hi]
    refine ⟨fun j _ ↦ ?_, fun j hj ↦ absurd hj (hnobody j), fun _ ↦ ?_, fun j ↦ ?_⟩
    · rcases eq_or_ne j i with rfl | hne
      · refine isOutside_self hproc hlength hleft ?_
        rw [decide_eq_true (List.mem_append_right _ List.mem_cons_self)]
        exact hreply ▸ hout
      · refine h.other hproc hne (hothers j hne) rfl ?_
        rw [List.mem_append, List.mem_singleton, or_iff_left hne]
    · rw [Store.lines_concat]
      exact hsys
    · rw [hsections, List.count_append, h.count j]
      rcases eq_or_ne j i with rfl | hne
      · simp [hi, hreply]
      · simp [hne, hne.symm]
  | replied hsys hout =>
    rw [Store.visit_of_reply hstored]
    refine ⟨fun j _ ↦ ?_, fun j hj ↦ absurd hj (hnobody j), fun _ ↦ hsys, fun j ↦ ?_⟩
    · rcases eq_or_ne j i with rfl | hne
      · refine isOutside_self hproc hlength hleft ?_
        rw [hstored]
        simp only [Function.update_self]
        exact hout
      · exact h.other hproc hne (hothers j hne) (Function.update_of_ne hne _ _) Iff.rfl
    · rw [hsections, List.count_append, h.count j]
      rcases eq_or_ne j i with rfl | hne
      · simp [hreply]
      · simp [hne, hne.symm]

/-- **One call** of a run that goes well. The thread that calls goes from one place to the next, and
visits the store if it leaves a critical section. -/
theorem step (hsends : ∀ i, (req i).Sends (inboxes i)) (h : Follows req inboxes trace w s)
    {x : ℕ × Choice} {y : ℕ × Event} (hgood : GoesWell w x) (hserve : serve w x = .ok (y, w')) :
    Follows req inboxes (trace ++ [y]) w' (if y.2.role = .unlock then s.visit req y.1 else s) := by
  obtain ⟨i, c⟩ := x
  obtain ⟨e, env, conn, hact, rfl, rfl, hproc, howner⟩ := step_cases hserve
  rcases eq_or_ne w.owner (some i) with hholds | hnot
  · obtain ⟨hreply, left, hinside, hlength⟩ := h.inside i hholds
    obtain ⟨e', env', conn', hact', left', hleft, ⟨hrole, hnext⟩ | ⟨hrole, hnext⟩⟩ :=
      hinside.act (hsends i) hgood.grants hgood.valid
    all_goals
      obtain ⟨rfl, henv, rfl⟩ : e = e' ∧ w'.env = env' ∧ conn = conn' := by
        simpa using hact.symm.trans hact'
      rw [← henv] at hnext
      simp only [hrole, reduceCtorEq, false_and, true_and, or_false, false_or] at howner
    · rw [if_neg (by rw [hrole]; decide)]
      have hsections : sections (trace ++ [(i, e)]) = sections trace :=
        sections_concat_of_ne (by rw [hrole]; decide)
      refine h.holds hproc hsections (howner.trans hholds) (fun j hne hj ↦ ?_) hreply
        (isInside_self hproc hlength hleft hnext)
      exact hne (Option.some.inj (hj.symm.trans hholds))
    · rw [if_pos hrole]
      exact h.leaves hproc (sections_concat_unlock hrole) howner hholds hreply hlength hleft hnext
  · obtain ⟨left, houtside, hlength⟩ := h.outside i hnot
    rcases houtside.act (hsends i) hgood.grants w.env with
      hret | ⟨e', code', hact', hsent, left', hleft, ⟨hrole, hnext⟩ | ⟨hrole, hnone, hnext⟩⟩
    · -- a thread that has returned calls nothing
      obtain ⟨a, code, -, hstep, -⟩ := act_cases hact
      rw [hret] at hstep
      exact absurd hstep (by simp [Code.step])
    all_goals
      obtain ⟨rfl, henv, rfl⟩ :
          e = e' ∧ w'.env = w.env ∧ conn = ⟨code', (w.proc i).inbox⟩ := by
        simpa using hact.symm.trans hact'
      simp only [hrole, reduceCtorEq, false_and, true_and, or_false, false_or] at howner
      rw [if_neg (by rw [hrole]; decide)]
      have hsections : sections (trace ++ [(i, e)]) = sections trace :=
        sections_concat_of_ne (by rw [hrole]; decide)
    · refine h.stays hproc hsections henv howner hnot (isOutside_self hproc hlength hleft ?_)
      rwa [hsent, Option.getD_none, List.append_nil]
    · obtain ⟨hfree, howner⟩ := howner
      refine h.holds hproc hsections howner (fun j _ ↦ by simp [hfree]) hnone
        (isInside_self hproc hlength hleft ?_)
      rw [hsent, Option.getD_none, List.append_nil, henv]
      exact hnext _ (h.idle hfree)

end Follows

/-- **A run that goes well follows the store.** -/
theorem follows_of_run {xs : List (ℕ × Choice)} (hsends : ∀ i, (req i).Sends (inboxes i))
    (hrun : run serve (start inboxes) xs = .ok (trace, w))
    (hgood : Along serve GoesWell (start inboxes) xs) :
    Follows req inboxes trace w (Store.after req (sections trace)) := by
  refine history_of_along
    (I := fun trace w ↦ Follows req inboxes trace w (Store.after req (sections trace)))
    ?_ (Follows.start req inboxes) hrun hgood
  rintro xs trace w x ⟨i, e⟩ w' - hfollows hgood hserve
  have hnext := hfollows.step hsends hgood hserve
  split at hnext
  · rename_i hrole
    rwa [sections_concat_unlock hrole, Store.after_concat]
  · rename_i hrole
    rwa [sections_concat_of_ne hrole]

end Step

end Aesd
