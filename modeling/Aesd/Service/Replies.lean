import Aesd.Service.BackEnds

/-!
# The replies of the two builds

Connections are handled one after the other (`HandledInTurn`), each with a line.

In the build on the regular file a thread that has opened `FILE_PATH` writes to the file, so the
device stays as it was at the start and nothing is read from it (`Unread`). What is read is all
that is sent, so no reply has a byte (`HandledInTurn.sent_eq_nil`).

In the build on the device the server follows a store of lines. The critical sections come in the
order of the connections, so the lines stored when the reply is made are those up to the
connection's own (`HandledInTurn.sent_eq_firstLines`).

So the builds agree only if there is no connection (`backEnds_agree_iff`).
-/

namespace Aesd

open Framing Execution MutualExclusion

/-! ### The build on the regular file -/

/-- Nothing is about to be sent, and only a file that was just opened is written to. -/
def Code.Mute : Code → Prop
  | .call (.send _) _ | .call _ (.write _ _) => False
  | .call _ next => next.Mute
  | _ => True

namespace Code

variable {code code' : Code} {e : Event} {o : Outcome}

/-- The next call of a mute thread sends nothing and leads to no `write`, and the thread stays mute
behind it. -/
theorem Mute.of_call {a : Action} {next : Code} (h : (call a next).Mute) :
    next.Mute ∧ (∀ l fd, next ≠ write l fd) ∧ ∀ data, a ≠ .send data := by
  cases next with
  | write => cases a <;> exact absurd h id
  | _ =>
    cases a with
    | send => exact absurd h id
    | _ => exact ⟨h, by simp, by simp⟩

/-- Whichever way a thread goes on after the reception, nothing is about to be sent. -/
theorem mute_handle (l : Locals) : (handle l).Mute := by
  rcases handle_cases l with ⟨seekto, h⟩ | h | h | h <;> rw [h] <;> exact trivial

/-- Nor is it after a scan. -/
theorem mute_scan (l : Locals) : (scan l).Mute := by
  rcases scan_cases l with h | h <;> rw [h]
  · exact mute_handle l
  · exact trivial

/-- Only what was read is sent. -/
theorem Mute.step (h : code.Mute) (hstep : Step code e code')
    (hread : ∀ fd asked data, e = .read fd asked data → data = []) : code'.Mute := by
  cases hstep with
  | call a next => exact h.of_call.1
  | recvNothing l => exact mute_handle l
  | recv l data =>
    rcases received_cases l data with ⟨l', h⟩ | ⟨l', h⟩ <;> rw [h]
    · exact trivial
    · exact mute_scan l'
  | reallocFails l => exact mute_handle l
  | realloc l => exact mute_scan _
  | readIoctl l fd data hne => exact absurd (hread _ _ _ rfl) hne
  | readBack l fd data hne => exact absurd (hread _ _ _ rfl) hne
  | _ => exact trivial

/-- A mute thread sends nothing. -/
theorem Mute.sent_eq_none (h : code.Mute) (hstep : Step code e code') : e.sent = none := by
  cases hstep with
  | call a next =>
    cases a with
    | send data => exact absurd rfl (h.of_call.2.2 data)
    | _ => rfl
  | _ => rfl

/-- What is read is what the device has for the thread. -/
theorem read_eq_take {fd asked : ℕ} {data : List Byte}
    (hstep : code.step o = .ok (.read fd asked data, code')) :
    (∀ c, ∃ count, code.op c = some (.read fd count c.uncopied)) ∧ ∃ n, data = o.read.take n := by
  cases code with
  | readIoctl l fd | readBack l fd =>
    simp only [step] at hstep
    split at hstep
    · rename_i hnil
      cases hstep
      exact ⟨fun c ↦ ⟨_, rfl⟩, _, hnil.symm⟩
    · cases hstep
      exact ⟨fun c ↦ ⟨_, rfl⟩, _, rfl⟩
  | _ => cases step_cases hstep

/-- Only `FILE_PATH` is written to. -/
theorem Mute.opens_of_write (h : code.Mute) {l : Locals} {fd : ℕ}
    (hstep : code.step o = .ok (e, .write l fd)) : code = .openWrite l ∧ o.fd = some fd := by
  have hhandle : ∀ l', handle l' ≠ write l fd := by
    intro l'
    rcases handle_cases l' with ⟨seekto, h⟩ | h | h | h <;> rw [h] <;> exact Code.noConfusion
  have hscan : ∀ l', scan l' ≠ write l fd := by
    intro l'
    rcases scan_cases l' with h | h <;> rw [h]
    · exact hhandle l'
    · exact Code.noConfusion
  cases code with
  | openWrite l =>
    rw [Code.step] at hstep
    split at hstep
    · cases hstep
    · rename_i hfd
      cases hstep
      exact ⟨rfl, hfd⟩
  | call a next =>
    obtain ⟨-, hnext⟩ := Prod.mk.inj (Except.ok.inj hstep)
    exact absurd hnext (h.of_call.2.1 l fd)
  | recv l' =>
    obtain ⟨-, hnext⟩ := Prod.mk.inj (Except.ok.inj hstep)
    split at hnext
    · exact absurd hnext (hhandle l')
    · rcases received_cases l' (o.recv.take (asked l')) with ⟨l₁, h⟩ | ⟨l₁, h⟩ <;> rw [h] at hnext
      · cases hnext
      · exact absurd hnext (hscan l₁)
  | realloc l' =>
    rw [Code.step] at hstep
    split at hstep
    · split at hstep
      · exact absurd (Prod.mk.inj (Except.ok.inj hstep)).2 (hscan _)
      · exact absurd (Prod.mk.inj (Except.ok.inj hstep)).2 (hhandle l')
    · exact absurd (Prod.mk.inj (Except.ok.inj hstep)).2 (hhandle l')
  | _ => cases step_cases hstep

end Code

/-- What a `write` adds to a regular file. -/
def Event.appended : Event → Option (List Byte)
  | .write _ bytes => some (userBuf bytes).bytes
  | _ => none

/-- All that was added. -/
def appendedBytes (trace : List (ℕ × Event)) : List Byte :=
  (trace.filterMap fun y ↦ y.2.appended).flatten

/-- Only a `write` to the file appends. -/
theorem appendedBytes_concat (trace : List (ℕ × Event)) (y : ℕ × Event) :
    appendedBytes (trace ++ [y]) = appendedBytes trace ++ y.2.appended.getD [] := by
  rw [appendedBytes, List.filterMap_append, List.flatten_append]
  rcases hbytes : y.2.appended with - | bytes <;> simp [hbytes, appendedBytes]

/-- A thread writes to the device at one place only. -/
theorem Code.exists_eq_write_of_op {code : Code} {c : Choice} {fd : ℕ} {buf : UserBuf}
    {o : WriteOutcome} (hop : code.op c = some (.write fd buf o)) : ∃ l, code = .write l fd := by
  cases code with
  | write l fd =>
    cases hop
    exact ⟨l, rfl⟩
  | call a next => cases a <;> cases hop
  | openIoctl | openWrite | openRead =>
    obtain ⟨fd', -, hopen⟩ := Option.map_eq_some_iff.1 hop
    cases hopen
  | _ => cases hop

/-- What a call writes to the device it appends to the file, and the other way round. -/
theorem Code.written_eq_appended {code code' : Code} {o : Outcome} {e : Event}
    (hstep : code.step o = .ok (e, code')) (c : Choice) :
    (code.op c).bind Op.written = e.appended := by
  cases step_cases hstep with
  | call a next => cases a <;> rfl
  | openIoctl | openIoctlFails | openWrite | openWriteFails | openRead | openReadFails =>
    rcases hfd : c.fd with - | fd <;> simp [op, hfd, Op.written, Event.appended]
  | _ => rfl

section Storage

variable {st st' : Storage} {code : Code} {c : Choice} {a : Answer} {op : Op}

/-- A device nobody has written to has nothing to read. -/
theorem System.data_of_read_empty {sys sys' : System} (h : sys.Represents Log.empty)
    {fd count uncopied : ℕ}
    (hstep : Aesd.step stayPut sys (.read fd count uncopied) = .ok (a, sys')) : a.data = [] := by
  obtain ⟨-, rfl, -⟩ | ⟨filp, reply, hfile, hread, rfl, -⟩ := call_cases hstep
  · rfl
  · have hopen := h.opened fd filp hfile
    have hempty := aesdRead_of_empty h.kernel rfl (free_of_read hopen hread) hopen count uncopied
      filp.fPos
    obtain rfl := Except.ok.inj (hread.symm.trans hempty)
    rw [readReply]
    split <;> rfl

/-- What a call does if nothing is written to the device. -/
theorem Storage.step_unread (h : st.device.Represents Log.empty)
    (hwrite : ∀ fd buf o, op = .write fd buf o → st.opened fd = true)
    (hstep : st.step op = .ok (a, st')) :
    st'.device.Represents Log.empty ∧ st'.file = st.file ++ op.written.getD [] ∧
      ∀ fd count uncopied, op = .read fd count uncopied → a.data = [] := by
  have hdevice : (∀ fd buf o, op ≠ .write fd buf o) → st.onDevice op = .ok (a, st') →
      st'.device.Represents Log.empty ∧ st'.file = st.file ++ op.written.getD [] ∧
        ∀ fd count uncopied, op = .read fd count uncopied → a.data = [] := by
    intro hne hop
    obtain ⟨device, hdevice, rfl⟩ := onDeviceOf_cases hop
    have hlog := h.step hdevice
    refine ⟨?_, ?_, ?_⟩
    · cases op with
      | write fd buf o => exact absurd rfl (hne fd buf o)
      | _ => exact hlog
    · cases op with
      | write fd buf o => exact absurd rfl (hne fd buf o)
      | _ => exact (List.append_nil _).symm
    · rintro fd count uncopied rfl
      exact System.data_of_read_empty h hdevice
  cases op with
  | write fd buf o =>
    rw [step, if_pos (hwrite fd buf o rfl)] at hstep
    obtain ⟨rfl, rfl⟩ := Prod.mk.inj (Except.ok.inj hstep)
    exact ⟨h, rfl, by simp⟩
  | openFile fd =>
    rw [step] at hstep
    split at hstep
    · obtain ⟨rfl, rfl⟩ := Prod.mk.inj (Except.ok.inj hstep)
      exact ⟨h, (List.append_nil _).symm, by simp⟩
    · exact hdevice (by simp) hstep
  | release fd =>
    rw [step] at hstep
    split at hstep
    · obtain ⟨rfl, rfl⟩ := Prod.mk.inj (Except.ok.inj hstep)
      exact ⟨h, (List.append_nil _).symm, by simp⟩
    · exact hdevice (by simp) hstep
  | _ => exact hdevice (by simp) hstep

/-- What a call of a thread does in the build on the regular file. -/
theorem Code.storage_unread (h : st.device.Represents Log.empty)
    (hwrite : ∀ l fd, code = .write l fd → st.opened fd = true)
    (hstorage : code.storage .regularFile st c = .ok (a, st')) :
    st'.device.Represents Log.empty ∧ st'.file = st.file ++ ((code.op c).bind Op.written).getD [] ∧
      (∀ fd count uncopied, code.op c = some (.read fd count uncopied) → a.data = []) ∧
      ∀ l fd, code = .openWrite l → c.fd = some fd → a.ret = 0 → st'.opened fd = true := by
  by_cases hopen : ∃ l fd, code = .openWrite l ∧ c.fd = some fd
  · obtain ⟨l, fd, rfl, hfd⟩ := hopen
    have hnone : ((Code.openWrite l).op c).bind Op.written = none := by simp [op, hfd, Op.written]
    have hread : ∀ fd count uncopied,
        (Code.openWrite l).op c ≠ some (.read fd count uncopied) := by simp [op, hfd]
    rw [hnone]
    simp only [storage, hfd, Storage.openFile] at hstorage
    split at hstorage
    · obtain ⟨rfl, rfl⟩ := Prod.mk.inj (Except.ok.inj hstorage)
      exact ⟨h, (List.append_nil _).symm, fun _ _ _ hop ↦ absurd hop (hread _ _ _),
        fun _ _ _ _ hret ↦ absurd hret (by decide)⟩
    · obtain ⟨rfl, rfl⟩ := Prod.mk.inj (Except.ok.inj hstorage)
      refine ⟨h, (List.append_nil _).symm, fun _ _ _ hop ↦ absurd hop (hread _ _ _),
        fun _ fd' _ hfd' _ ↦ ?_⟩
      obtain rfl := Option.some.inj (hfd.symm.trans hfd')
      exact Function.update_self ..
  · have hopen : ∀ l fd, code = .openWrite l → c.fd ≠ some fd := fun l fd hcode hfd ↦
      hopen ⟨l, fd, hcode, hfd⟩
    rw [storage] at hstorage
    · rcases hop : code.op c with - | op
      · simp only [hop] at hstorage
        obtain ⟨rfl, rfl⟩ := Prod.mk.inj (Except.ok.inj hstorage)
        exact ⟨h, (List.append_nil _).symm, by simp,
          fun l fd hcode hfd ↦ absurd hfd (hopen l fd hcode)⟩
      · simp only [hop] at hstorage
        have hwrites : ∀ fd buf o, op = .write fd buf o → st.opened fd = true := by
          rintro fd buf o rfl
          obtain ⟨l, hcode⟩ := exists_eq_write_of_op hop
          exact hwrite l fd hcode
        obtain ⟨hdevice, hfile, hread⟩ := Storage.step_unread h hwrites hstorage
        exact ⟨hdevice, hfile, fun fd count uncopied heq ↦ hread fd count uncopied
          (Option.some.inj heq), fun l fd hcode hfd ↦ absurd hfd (hopen l fd hcode)⟩
    · exact fun l fd _ hcode hfd ↦ hopen l fd hcode hfd

end Storage

/-! ### One connection after the other -/

/-- The connection has not begun, or it is through. -/
def Conn.AtRest (conn : Conn) : Prop :=
  conn.code = .threadfunc ∨ conn.code = .ret

/-- The connections `0`, …, `n - 1` were handled one after the other, and nothing was refused. -/
structure HandledInTurn (b : Build) (inboxes : ℕ → List (List Byte)) (n : ℕ)
    (xs : List (ℕ × Choice)) (trace : List (ℕ × Event)) (w : Shared Storage Conn) : Prop where
  run : run (serveOn b) (startOn inboxes) xs = .ok (trace, w)
  sorted : xs.Pairwise fun x y ↦ x.1 ≤ y.1
  lt : ∀ x ∈ xs, x.1 < n
  returned : ∀ i < n, (w.proc i).code = .ret
  grants : ∀ x ∈ xs, x.2.Grants

/-- Nothing was written to the device, and nothing is sent. -/
structure Unread (w : Shared Storage Conn) : Prop where
  device : w.env.device.Represents Log.empty
  mute : ∀ i, (w.proc i).code.Mute
  opened : ∀ i l fd, (w.proc i).code = .write l fd → w.env.opened fd = true

section InTurn

variable {b : Build} {inboxes : ℕ → List (List Byte)} {n : ℕ} {xs : List (ℕ × Choice)}
  {trace : List (ℕ × Event)} {w w' : Shared Storage Conn} {x : ℕ × Choice} {y : ℕ × Event}

/-- While one connection is handled, the others are at rest. -/
theorem HandledInTurn.along_atRest (h : HandledInTurn b inboxes n xs trace w) :
    Along (serveOn b) (fun w x ↦ ∀ i ≠ x.1, (w.proc i).AtRest) (startOn inboxes) xs := by
  refine along_of_sorted h.sorted h.run (fun i ↦ Or.inl rfl) fun i ↦ ?_
  rcases Nat.lt_or_ge i n with hlt | hge
  · exact Or.inr (h.returned i hlt)
  · rw [proc_eq_of_run h.run fun x hx heq ↦ ?_]
    · exact Or.inl rfl
    · have := h.lt x hx
      omega

namespace Unread

/-- At the start the device is empty, and every thread is at the beginning of `threadfunc`. -/
theorem start (inboxes : ℕ → List (List Byte)) : Unread (startOn inboxes) where
  device := System.represents_init
  mute _ := trivial
  opened _ _ _ := nofun

/-- **One call** in the build on the regular file. -/
theorem step (h : Unread w) (hrest : ∀ i ≠ x.1, (w.proc i).AtRest)
    (hserve : serveOn .regularFile w x = .ok (y, w')) :
    Unread w' ∧ y.2.sent = none ∧ w'.env.file = w.env.file ++ y.2.appended.getD [] := by
  obtain ⟨k, c⟩ := x
  obtain ⟨e, env, conn, hact, rfl, henv, hproc, -⟩ := step_cases hserve
  obtain ⟨a, code, hstorage, hstep, rfl⟩ := actIn_cases hact
  obtain ⟨hdevice, hfile, hread, hopen⟩ :=
    Code.storage_unread h.device (h.opened k) hstorage
  have hnext : code.Mute := by
    refine (h.mute k).step (Code.step_cases hstep) ?_
    rintro fd asked data rfl
    obtain ⟨hop, n, rfl⟩ := Code.read_eq_take hstep
    obtain ⟨count, hop⟩ := hop c
    rw [Conn.outcome, hread fd count c.uncopied hop, List.take_nil]
  rw [Code.written_eq_appended hstep c] at hfile
  refine ⟨⟨henv ▸ hdevice, fun i ↦ ?_, fun i l fd hcode ↦ ?_⟩,
    (h.mute k).sent_eq_none (Code.step_cases hstep), henv ▸ hfile⟩
  · rw [hproc]
    rcases eq_or_ne i k with rfl | hne
    · rw [Function.update_self]
      exact hnext
    · rw [Function.update_of_ne hne]
      exact h.mute i
  · rw [hproc] at hcode
    rcases eq_or_ne i k with rfl | hne
    · rw [Function.update_self] at hcode
      have hcode : code = .write l fd := hcode
      rw [hcode] at hstep
      obtain ⟨hpath, hfd⟩ := (h.mute i).opens_of_write hstep
      rw [Conn.outcome] at hfd
      dsimp only at hfd
      split at hfd
      · rename_i hret
        rw [henv]
        exact hopen l fd hpath hfd hret
      · cases hfd
    · -- nobody else is writing
      rw [Function.update_of_ne hne] at hcode
      rcases hrest i hne with hbegin | hdone
      · rw [hcode] at hbegin
        cases hbegin
      · rw [hcode] at hdone
        cases hdone

end Unread

/-- **The build on the regular file sends nothing.** What was written is in the file. -/
theorem HandledInTurn.sent_eq_nil (h : HandledInTurn .regularFile inboxes n xs trace w) :
    (∀ i, sentBytes (own i trace) = []) ∧ w.env.file = appendedBytes trace := by
  have hall : Unread w ∧ (∀ i, sentBytes (own i trace) = []) ∧
      w.env.file = appendedBytes trace := by
    refine history_of_along (I := fun trace w ↦ Unread w ∧ (∀ i, sentBytes (own i trace) = []) ∧
      w.env.file = appendedBytes trace) ?_ ⟨Unread.start inboxes, fun _ ↦ rfl, rfl⟩ h.run
      h.along_atRest
    rintro xs trace w x ⟨j, e⟩ w' - ⟨hunread, hsent, hfile⟩ hrest hserve
    obtain ⟨hunread', hnone, hfile'⟩ := hunread.step hrest hserve
    refine ⟨hunread', fun i ↦ ?_, ?_⟩
    · rcases eq_or_ne j i with rfl | hne
      · rw [own_concat_self, sentBytes_concat, hsent, hnone]
        rfl
      · rw [own_concat_of_ne hne]
        exact hsent i
    · rw [appendedBytes_concat, ← hfile, hfile']
  exact hall.2

/-! ### The build on the device -/

/-- The first `k` lines. -/
def firstLines (line : ℕ → List Byte) (k : ℕ) : List Byte :=
  ((List.range k).map line).flatten

/-- The critical sections are those of the connections, in their order. -/
theorem HandledInTurn.sections_sorted (h : HandledInTurn b inboxes n xs trace w) :
    (sections trace).Pairwise (· ≤ ·) := by
  have hsteps : (trace.map Prod.fst).Pairwise (· ≤ ·) := by
    rw [map_fst_of_run h.run, List.pairwise_map]
    exact h.sorted
  rw [sections, List.pairwise_filterMap]
  refine (List.pairwise_map.1 hsteps).imp fun {y z} hle i hi j hj ↦ ?_
  rw [Option.ite_none_right_eq_some] at hi hj
  rw [← Option.some.inj hi.2, ← Option.some.inj hj.2]
  exact hle

/-- **The build on the device** sends the lines up to the connection's own. -/
theorem HandledInTurn.sent_eq_firstLines {line : ℕ → List Byte}
    (h : HandledInTurn .charDevice inboxes n xs trace w)
    (hsends : ∀ i, (Request.line (line i)).Sends (inboxes i)) (hn : n ≤ 10) {i : ℕ} (hi : i < n) :
    sentBytes (own i trace) = firstLines line (i + 1) := by
  have hrun := run_of_charDevice h.run
  have hgood := along_goesWell_of_lines hsends (fun _ ↦ rfl) h.grants
  have hfollows := follows_of_run hsends hrun hgood
  obtain ⟨before, rest, hsections, hkind, hreply⟩ :=
    Store.exists_visit_of_reply (hfollows.returned (h.returned i hi)).1
  have hsorted := h.sections_sorted
  rw [hsections, List.pairwise_append, List.pairwise_cons] at hsorted
  obtain ⟨hbefore, ⟨hrest, -⟩, hle⟩ := hsorted
  -- the lines that are kept when the reply is made
  have hmem : ∀ j, j ∈ (Store.after (fun i ↦ Request.line (line i)) before).first ↔
      j ∈ List.range (i + 1) := by
    intro j
    rw [List.mem_range, Nat.lt_succ_iff]
    refine ⟨fun hj ↦ ?_, fun hj ↦ ?_⟩
    · rw [Store.mem_first_after] at hj
      exact hle j hj.1 i List.mem_cons_self
    · rcases Nat.eq_or_lt_of_le hj with rfl | hlt
      · exact of_decide_eq_true hkind
      · have hcount := count_sections_of_ret hfollows (h.returned j (hlt.trans hi))
        have hmem : j ∈ sections trace := List.count_pos_iff.1 (hcount ▸ Nat.succ_pos _)
        rw [hsections, List.mem_append, List.mem_cons] at hmem
        refine (Store.mem_first_after _ _ _).2 ⟨?_, rfl⟩
        rcases hmem with hj | rfl | hj
        · exact hj
        · exact absurd hlt (lt_irrefl _)
        · exact absurd (hrest j hj) (Nat.not_le.2 hlt)
  have hfirst :
      (Store.after (fun i ↦ Request.line (line i)) before).first = List.range (i + 1) := by
    have hperm := (List.perm_ext_iff_of_nodup (Store.nodup_first_after _ before)
      List.nodup_range).2 hmem
    exact hperm.eq_of_pairwise (fun _ _ _ _ ↦ Nat.le_antisymm)
      (hbefore.sublist (Store.first_after_sublist _ before)) List.pairwise_le_range
  have hfew : ((List.range (i + 1)).map line).length ≤ 10 := by
    rw [List.length_map, List.length_range]
    omega
  have hkept := BoundedFifo.rtake_append_of_length_le hfew []
  rw [List.nil_append, List.rtake_nil, List.nil_append] at hkept
  rw [hreply, Request.reply, Store.kept, Store.lines, hfirst]
  exact congrArg List.flatten hkept

end InTurn

/-! ### Both builds -/

/-- The client sends the line in these chunks, cut in any way. -/
structure SendsLine (m : List Byte) (chunks : List (List Byte)) : Prop where
  line : IsLine m
  other : ¬ ioctlCmdStr <+: m
  cut : chunks.flatten = m
  ne_nil : [] ∉ chunks

/-- The lines that the device takes as requests are those that fit into one `write`. -/
theorem sends_line_iff {m : List Byte} {chunks : List (List Byte)} :
    (Request.line m).Sends chunks ↔ SendsLine m chunks ∧ m.length ≤ maxRwCount := by
  constructor
  · rintro ⟨hline, hother, hlen, hcut, hne⟩
    exact ⟨⟨hline, hother, hcut, hne⟩, hlen⟩
  · rintro ⟨⟨hline, hother, hcut, hne⟩, hlen⟩
    exact .line hline hother hlen hcut hne

/-- The two builds send the same replies: to each of the connections `0`, …, `n - 1`, the lines up
to its own. -/
def BackEndsAgree (line : ℕ → List Byte) (n : ℕ) (trace : Build → List (ℕ × Event)) : Prop :=
  ∀ i < n, sentBytes (own i (trace .regularFile)) = sentBytes (own i (trace .charDevice)) ∧
    sentBytes (own i (trace .charDevice)) = firstLines line (i + 1)

/-- **The back ends agree only if no connection is handled.** At most ten connections, each with a
line in chunks cut in any way, are handled one after the other, in each build, and nothing is
refused. The build on the device sends the lines up to the connection's own, if one write can take
each. The build on the regular file has what was written in the file, and sends nothing. -/
theorem backEnds_agree_iff {line : ℕ → List Byte} {inboxes : Build → ℕ → List (List Byte)} {n : ℕ}
    {xs : Build → List (ℕ × Choice)} {trace : Build → List (ℕ × Event)}
    {w : Build → Shared Storage Conn} (hsends : ∀ b i, SendsLine (line i) (inboxes b i))
    (hn : n ≤ 10) (h : ∀ b, HandledInTurn b (inboxes b) n (xs b) (trace b) (w b)) :
    (BackEndsAgree line n trace ↔ n = 0) ∧
    ((∀ i, (line i).length ≤ maxRwCount) → ∀ i < n,
      sentBytes (own i (trace .charDevice)) = firstLines line (i + 1)) ∧
    (w .regularFile).env.file = appendedBytes (trace .regularFile) ∧
    ∀ i, sentBytes (own i (trace .regularFile)) = [] := by
  obtain ⟨hnothing, hfile⟩ := (h .regularFile).sent_eq_nil
  refine ⟨⟨fun hagree ↦ ?_, ?_⟩, fun hlen i hi ↦ ?_, hfile, hnothing⟩
  · rcases Nat.eq_zero_or_pos n with hzero | hpos
    · exact hzero
    · -- the first connection sent a line and got nothing
      obtain ⟨hsame, hreply⟩ := hagree 0 hpos
      rw [← hsame, hnothing, firstLines, List.range_one, List.map_singleton,
        List.flatten_singleton] at hreply
      exact absurd hreply.symm (hsends .charDevice 0).line.ne_nil
  · rintro rfl i hi
    exact absurd hi (Nat.not_lt_zero i)
  · exact (h .charDevice).sent_eq_firstLines (fun i ↦ sends_line_iff.2 ⟨hsends _ i, hlen i⟩) hn hi

/-- Two connections, each with a line in one chunk. -/
theorem backEnds_agree_iff_two_lines :
    let line : ℕ → List Byte := fun i ↦ if i = 0 then [97, newline] else [98, newline]
    let xs : Build → List (ℕ × Choice) := fun b ↦
      let calls := if b = .charDevice then (20, 22) else (18, 18)
      List.replicate calls.1 (0, Choice.granting 3) ++ List.replicate calls.2 (1, Choice.granting 3)
    ∃ (trace : Build → List (ℕ × Event)) (w : Build → Shared Storage Conn),
      (∀ b, HandledInTurn b (fun i ↦ [line i]) 2 (xs b) (trace b) (w b)) ∧
      ¬ BackEndsAgree line 2 trace ∧ sentBytes (own 1 (trace .regularFile)) = [] ∧
      sentBytes (own 1 (trace .charDevice)) = [97, newline, 98, newline] := by
  intro line xs
  have hsends : ∀ i, SendsLine (line i) [line i] ∧ (line i).length ≤ maxRwCount :=
    fun i ↦ sends_line_iff.1 (sends_letters i)
  have heval : ∀ b, (run (serveOn b) (startOn fun i ↦ [line i]) (xs b)).map (fun z ↦
      ((z.2.proc 0).code, (z.2.proc 1).code)) = .ok (.ret, .ret) := by
    rintro (- | -) <;> decide +kernel
  choose z hrun hend using fun b ↦ exists_of_map_eq_ok (heval b)
  have h : ∀ b, HandledInTurn b (fun i ↦ [line i]) 2 (xs b) (z b).1 (z b).2 := by
    intro b
    have hret := Prod.mk.inj (hend b)
    refine ⟨hrun b, ?_, ?_, ?_, ?_⟩
    · cases b <;> decide
    · cases b <;> decide
    · rintro (- | - | i) hi
      · exact hret.1
      · exact hret.2
      · omega
    · cases b <;> decide +kernel
  obtain ⟨hagree, hdevice, -, hnothing⟩ :=
    backEnds_agree_iff (fun _ i ↦ (hsends i).1) (by decide : 2 ≤ 10) h
  refine ⟨fun b ↦ (z b).1, fun b ↦ (z b).2, h, fun hboth ↦ ?_, hnothing 1, ?_⟩
  · exact absurd (hagree.1 hboth) (by decide)
  · exact hdevice (fun i ↦ (hsends i).2) 1 (by decide)

/-- One connection, and the build on the regular file does not send its line. -/
theorem line_not_sent_of_regularFile :
    let line : ℕ → List Byte := fun _ ↦ [97, newline]
    let xs : Build → List (ℕ × Choice) := fun b ↦
      List.replicate (if b = .charDevice then 20 else 18) (0, Choice.granting 3)
    (∀ i, SendsLine (line i) [line i]) ∧
      ∃ (trace : Build → List (ℕ × Event)) (w : Build → Shared Storage Conn),
        (∀ b, HandledInTurn b (fun i ↦ [line i]) 1 (xs b) (trace b) (w b)) ∧
        sentBytes (own 0 (trace .regularFile)) = [] ∧
        sentBytes (own 0 (trace .charDevice)) = [97, newline] ∧
        (w .regularFile).env.file = [97, newline] ∧ ¬ BackEndsAgree line 1 trace := by
  intro line xs
  have heval : ∀ b, (run (serveOn b) (startOn fun i ↦ [line i]) (xs b)).map (fun z ↦
      ((z.2.proc 0).code, sentBytes (own 0 z.1), z.2.env.file)) =
      .ok (.ret, if b = .charDevice then ([97, newline], []) else ([], [97, newline])) := by
    rintro (- | -) <;> decide +kernel
  choose z hrun hend using fun b ↦ exists_of_map_eq_ok (heval b)
  have h : ∀ b, HandledInTurn b (fun i ↦ [line i]) 1 (xs b) (z b).1 (z b).2 := by
    intro b
    refine ⟨hrun b, ?_, ?_, ?_, ?_⟩
    · cases b <;> decide
    · cases b <;> decide
    · rintro (- | i) hi
      · exact (Prod.mk.inj (hend b)).1
      · omega
    · cases b <;> decide +kernel
  obtain ⟨hnothing, hfile⟩ := Prod.mk.inj (Prod.mk.inj (hend .regularFile)).2
  obtain ⟨hreply, -⟩ := Prod.mk.inj (Prod.mk.inj (hend .charDevice)).2
  refine ⟨fun _ ↦ ⟨⟨by decide, [97], rfl, by decide⟩, by decide, rfl, by decide⟩,
    fun b ↦ (z b).1, fun b ↦ (z b).2, h, hnothing, hreply, hfile, fun hagree ↦ ?_⟩
  have hsame := (hagree 0 Nat.zero_lt_one).1
  rw [hnothing, hreply] at hsame
  cases hsame

end Aesd
