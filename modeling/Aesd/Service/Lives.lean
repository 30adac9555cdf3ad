import Aesd.Service.Host

/-!
# The lives of the server

The server is launched, serves its clients, ends, and is launched again; the files stay. `Site` is
the process and its files, from the accept loop of the first life on.

A signal makes a thread run `handle_signal`, which removes `FILE_PATH` and ends the process. The
comment there says that this is for the build on the regular file, but the lines that would see to
it are commented out. The other threads go on in the meantime, further signals can come, and `main`
can find `stop` set and leave its loop; its end removes `FILE_PATH` as well. So more than one of
these endings can be under way at a time (`Site.endings`). The process can also just die.

Up to the first `remove` the threads are those of `serve` (`serve_of_run`). Nobody looks at what
`remove` returns: where the server may not take a name out of `/dev`, it fails, and the device keeps
its name (`named_of_run`). Where it succeeds, the device is cut off from the end of the process on
(`Severed`): the server that is launched next makes a regular file with the name of the device, if
it may, and nothing that its clients send gets to the device any more (`device_lost_after_exit`).

Left out: what `main` does before its loop, where it has no threads; the accept loop; that a
destroyed mutex is used, which is undefined: here it keeps nobody out. A `send` that ends the
process by `SIGPIPE`, or a store outside a block, is at most a `die`. Nobody but the server uses the
name, and nobody gives it back to the device.
-/

namespace Aesd

open Execution MutualExclusion

/-- A call of `handle_signal` or of the end of `main`. -/
inductive EndCall
  | logCaught
  /-- `stop = 1`. -/
  | setStop
  /-- `remove(FILE_PATH)`. -/
  | remove
  | closeSockfd
  | destroyMutex
  | closelog
  | exit
deriving DecidableEq

/-- `handle_signal`; `sockfd` is not -1 in the accept loop. -/
def handleSignal : List EndCall :=
  [.logCaught, .setStop, .remove, .closeSockfd, .destroyMutex, .closelog, .exit]

/-- `main` from the end of the accept loop on. -/
def mainEnd : List EndCall :=
  [.closeSockfd, .remove, .closelog, .exit]

/-- The process and its files. -/
structure Site where
  world : Shared Host Conn
  /-- How often the server has been launched again. -/
  life : ℕ
  running : Bool
  stop : Bool
  /-- `main` has left the accept loop. -/
  mainLeft : Bool
  /-- `aesdsocket_mutex` is destroyed. -/
  destroyed : Bool
  /-- What is left to do of each ending that has begun. -/
  endings : List (List EndCall)

/-- What happens next. -/
inductive SiteTurn
  /-- A call of a thread. -/
  | call (i : ℕ) (c : Choice)
  /-- `SIGINT` or `SIGTERM`. -/
  | signal
  /-- `main` finds `stop` set. -/
  | leaveLoop
  /-- The next call of an ending; `ok` is whether a `remove` is allowed. -/
  | ending (k : ℕ) (ok : Bool)
  /-- The process is killed. -/
  | die
  | launch (inboxes : ℕ → List (List Byte))

/-- What has happened. -/
inductive SiteEvent
  | call (life i : ℕ) (e : Event)
  | signal
  | leaveLoop
  /-- `false` for a `remove` that has failed. -/
  | ending (a : EndCall) (done : Bool)
  | die
  | launch
deriving DecidableEq

namespace Site

/-- A process with a thread for each connection. -/
def launched (host : Host) (life : ℕ) (inboxes : ℕ → List (List Byte)) : Site :=
  ⟨⟨host, none, fun i ↦ ⟨.threadfunc, inboxes i⟩⟩, life, true, false, false, false, []⟩

/-- The first life, on the fresh device. -/
def start (inboxes : ℕ → List (List Byte)) : Site :=
  launched .init 0 inboxes

/-- The process has ended. -/
def down (s : Site) : Site :=
  { s with world := { s.world with env := s.world.env.closeAll }, running := false, endings := [] }

/-- Whether a call of an ending does what it is for. -/
def does (s : Site) (ok : Bool) : EndCall → Bool
  | .remove => ok && s.world.env.filePath.isSome
  | _ => true

/-- `FILE_PATH` is removed. -/
def unnamed (s : Site) : Site :=
  { s with world := { s.world with env := { s.world.env with filePath := none } } }

/-- What a call of an ending does. -/
def after (s : Site) (done : Bool) : EndCall → Site
  | .setStop => { s with stop := true }
  -- nobody looks at what `remove` returns
  | .remove => if done then s.unnamed else s
  | .destroyMutex => { s with destroyed := true }
  | .exit => s.down
  | .logCaught | .closeSockfd | .closelog => s

/-- A call of a thread. -/
def callTurn (s : Site) (i : ℕ) (c : Choice) : Except Stop (SiteEvent × Site) :=
  if s.destroyed then
    match actAt s.world.env (s.world.proc i) c with
    | .error stop => .error stop
    | .ok (e, env, conn) =>
      .ok (.call s.life i e,
        { s with world := ⟨env, s.world.owner, Function.update s.world.proc i conn⟩ })
  else
    match MutualExclusion.step actAt Event.role .blocked s.world (i, c) with
    | .error stop => .error stop
    | .ok (y, world) => .ok (.call s.life i y.2, { s with world })

/-- One step. -/
def step (s : Site) : SiteTurn → Except Stop (SiteEvent × Site)
  | .call i c => if s.running then s.callTurn i c else .error .blocked
  | .signal =>
    if s.running then .ok (.signal, { s with endings := handleSignal :: s.endings })
    else .error .blocked
  | .leaveLoop =>
    if s.running && s.stop && !s.mainLeft then
      .ok (.leaveLoop, { s with mainLeft := true, endings := mainEnd :: s.endings })
    else .error .blocked
  | .ending k ok =>
    match s.endings[k]? with
    | some (a :: rest) =>
      let done := s.does ok a
      .ok (.ending a done, { s with endings := s.endings.set k rest }.after done a)
    | _ => .error .blocked
  | .die => if s.running then .ok (.die, s.down) else .error .blocked
  | .launch inboxes =>
    if s.running then .error .blocked
    else .ok (.launch, launched s.world.env (s.life + 1) inboxes)

/-! ### What a step does -/

/-- What a step can be. -/
inductive Step (s : Site) : SiteEvent → Site → Prop
  | call {i : ℕ} {c : Choice} {e : Event} {env : Host} {conn : Conn} {owner : Option ℕ}
      (hrunning : s.running = true)
      (hact : actAt s.world.env (s.world.proc i) c = .ok (e, env, conn))
      (hmutex : s.destroyed = false →
        MutualExclusion.step actAt Event.role .blocked s.world (i, c) =
          .ok ((i, e), ⟨env, owner, Function.update s.world.proc i conn⟩)) :
      Step s (.call s.life i e)
        { s with world := ⟨env, owner, Function.update s.world.proc i conn⟩ }
  | signal (hrunning : s.running = true) :
      Step s .signal { s with endings := handleSignal :: s.endings }
  | leaveLoop (hrunning : s.running = true) :
      Step s .leaveLoop { s with mainLeft := true, endings := mainEnd :: s.endings }
  | ending {k : ℕ} {ok : Bool} {a : EndCall} {rest : List EndCall}
      (hk : s.endings[k]? = some (a :: rest)) :
      Step s (.ending a (s.does ok a))
        ({ s with endings := s.endings.set k rest }.after (s.does ok a) a)
  | die : Step s .die s.down
  | launch {inboxes : ℕ → List (List Byte)} (hdown : s.running = false) :
      Step s .launch (launched s.world.env (s.life + 1) inboxes)

variable {s s' : Site} {y : SiteEvent} {turn : SiteTurn}

/-- A call of thread `i` is one on the host, and one under the mutex until this is destroyed. -/
theorem callTurn_cases {i : ℕ} {c : Choice} (h : s.callTurn i c = .ok (y, s')) :
    ∃ e env conn owner, y = .call s.life i e ∧
      s' = { s with world := ⟨env, owner, Function.update s.world.proc i conn⟩ } ∧
      actAt s.world.env (s.world.proc i) c = .ok (e, env, conn) ∧
      (s.destroyed = false → MutualExclusion.step actAt Event.role .blocked s.world (i, c) =
        .ok ((i, e), ⟨env, owner, Function.update s.world.proc i conn⟩)) := by
  rw [callTurn] at h
  split at h
  · rename_i hdestroyed
    split at h
    · cases h
    · rename_i e env conn hact
      obtain ⟨rfl, rfl⟩ := Prod.mk.inj (Except.ok.inj h)
      exact ⟨e, env, conn, s.world.owner, rfl, rfl, hact, fun hnot ↦
        absurd (hnot.symm.trans hdestroyed) Bool.false_ne_true⟩
  · split at h
    · cases h
    · rename_i y world hserve
      obtain ⟨rfl, rfl⟩ := Prod.mk.inj (Except.ok.inj h)
      obtain ⟨e, env, conn, hact, rfl, rfl, hproc, -⟩ := MutualExclusion.step_cases hserve
      refine ⟨e, world.env, conn, world.owner, rfl, ?_, hact, fun _ ↦ ?_⟩
      · rw [← hproc]
      · rw [← hproc]
        exact hserve

/-- **What a step does.** -/
theorem step_cases (h : s.step turn = .ok (y, s')) : s.Step y s' := by
  cases turn with
  | call i c =>
    rw [step] at h
    split at h
    · obtain ⟨e, env, conn, owner, rfl, rfl, hact, hmutex⟩ := callTurn_cases h
      exact .call ‹_› hact hmutex
    · cases h
  | signal =>
    rw [step] at h
    split at h
    · obtain ⟨rfl, rfl⟩ := Prod.mk.inj (Except.ok.inj h)
      exact .signal ‹_›
    · cases h
  | leaveLoop =>
    rw [step] at h
    split at h
    · rename_i hcond
      obtain ⟨rfl, rfl⟩ := Prod.mk.inj (Except.ok.inj h)
      rw [Bool.and_eq_true, Bool.and_eq_true] at hcond
      exact .leaveLoop hcond.1.1
    · cases h
  | ending k ok =>
    rw [step] at h
    split at h
    · obtain ⟨rfl, rfl⟩ := Prod.mk.inj (Except.ok.inj h)
      exact .ending ‹_›
    · cases h
  | die =>
    rw [step] at h
    split at h
    · obtain ⟨rfl, rfl⟩ := Prod.mk.inj (Except.ok.inj h)
      exact .die
    · cases h
  | launch inboxes =>
    rw [step] at h
    split at h
    · cases h
    · rename_i hdown
      obtain ⟨rfl, rfl⟩ := Prod.mk.inj (Except.ok.inj h)
      exact .launch (Bool.not_eq_true _ ▸ hdown)

/-! ### The removal of the name -/

/-- What can be left to do of an ending. -/
def endCalls : List (List EndCall) :=
  handleSignal.tails ++ mainEnd.tails

/-- Every ending that is under way is one of `handle_signal` or of `main`. -/
def Ends (s : Site) : Prop :=
  ∀ l ∈ s.endings, l ∈ endCalls

theorem ends_launched (host : Host) (life : ℕ) (inboxes : ℕ → List (List Byte)) :
    (launched host life inboxes).Ends :=
  List.forall_mem_nil _

/-- The removal comes before the mutex is destroyed, and before the `exit`. -/
theorem Ends.notMem (h : s.Ends) {l : List EndCall} (hl : l ∈ s.endings)
    (hhead : l.head? = some .exit ∨ l.head? = some .destroyMutex) : .remove ∉ l := by
  have hlast : ∀ l ∈ endCalls, l.head? = some .exit ∨ l.head? = some .destroyMutex →
      .remove ∉ l := by
    decide
  exact hlast l (h l hl) hhead

theorem Ends.step (h : s.Ends) (hstep : s.Step y s') : s'.Ends := by
  have htails : ∀ l ∈ endCalls, l.tail ∈ endCalls := by decide
  cases hstep with
  | call => exact h
  | signal | leaveLoop => exact List.forall_mem_cons.2 ⟨by decide, h⟩
  | @ending k ok a rest hk =>
    have hrest : rest ∈ endCalls := htails _ (h _ (List.mem_of_getElem? hk))
    have hset : ∀ l ∈ s.endings.set k rest, l ∈ endCalls := fun l hl ↦
      (List.mem_or_eq_of_mem_set hl).elim (h l) fun heq ↦ heq ▸ hrest
    cases a with
    | exit => exact List.forall_mem_nil _
    | remove =>
      rw [after]
      split <;> exact hset
    | _ => exact hset
  | die => exact List.forall_mem_nil _
  | launch => exact ends_launched _ _ _

/-- The device has its name until a `remove` succeeds, and never again. -/
def Named (trace : List SiteEvent) (s : Site) : Prop :=
  s.world.env.filePath = some .device ↔ .ending .remove true ∉ trace

theorem Named.step {trace : List SiteEvent} (h : Named trace s) (hstep : s.Step y s') :
    Named (trace ++ [y]) s' := by
  have hkeep : (s'.world.env.filePath = some .device ↔ s.world.env.filePath = some .device) →
      y ≠ .ending .remove true → Named (trace ++ [y]) s' := by
    intro hsame hy
    rw [Named, hsame, List.mem_append, List.mem_singleton, not_or]
    exact h.trans (iff_self_and.2 fun _ ↦ hy.symm)
  cases hstep with
  | call hrunning hact =>
    obtain ⟨a, code, hcall, -⟩ := actIn_cases hact
    exact hkeep (Code.filePath_eq_iff_of_onHost hcall) (by simp)
  | @ending k ok a rest hk =>
    cases a with
    | remove =>
      rcases hdone : s.does ok .remove with - | -
      · rw [hdone] at hkeep
        exact hkeep Iff.rfl (by simp)
      · exact iff_of_false (by simp [after, unnamed]) (by simp)
    | _ => exact hkeep Iff.rfl (by simp)
  | signal | leaveLoop | die | launch => exact hkeep Iff.rfl (by simp)

end Site

/-! ### What is read and written in a life -/

/-- The descriptor that a thread reads from. -/
def Code.readsFrom : Code → Option ℕ
  | .readIoctl _ fd | .readBack _ fd => some fd
  | .call _ next => next.readsFrom
  | _ => none

/-- The thread has not begun to read. -/
def Code.Unread : Code → Prop
  | .readIoctl .. | .readBack .. | .ret => False
  | .call _ next => next.Unread
  | _ => True

/-- What a thread has read is the beginning of a regular file: of the one it reads, up to its
position. -/
structure Reads (h : Host) (code : Code) (got : List Byte) : Prop where
  unread : code.Unread → got = []
  upTo : ∀ fd, code.readsFrom = some fd → ∃ f, h.opened fd = some f ∧
    f.pos ≤ (h.contents f.inode).length ∧ got = (h.contents f.inode).take f.pos

section Reading

variable {h h' : Host} {o : WriteOutcome} {code code' : Code} {e : Event} {got : List Byte}
  {fd : ℕ}

theorem Code.mem_descriptors_of_readsFrom (hreads : code.readsFrom = some fd) :
    fd ∈ code.descriptors := by
  induction code with
  | call act next ih =>
    cases act with
    | closeFile fd' => exact List.mem_cons_of_mem fd' (ih hreads)
    | _ => exact ih hreads
  | readIoctl | readBack =>
    obtain rfl := Option.some.inj hreads
    exact List.mem_cons_self
  | _ => exact absurd hreads (by simp [readsFrom])

theorem Code.readsFrom_eq_none (hnil : code.descriptors = []) : code.readsFrom = none := by
  rcases hreads : code.readsFrom with - | fd
  · rfl
  · exact absurd (mem_descriptors_of_readsFrom hreads) (by simp [hnil])

/-- Nothing is read yet, or the thread is through with it. -/
theorem Reads.of_descriptors_eq_nil (hnil : code.descriptors = [])
    (hunread : code.Unread → got = []) : Reads h code got :=
  ⟨hunread, fun fd hfd ↦ absurd ((Code.readsFrom_eq_none hnil).symm.trans hfd) (by simp)⟩

/-- A call of another thread. -/
theorem Reads.frame (hreads : Reads h code got)
    (hopened : ∀ fd ∈ code.descriptors, h'.opened fd = h.opened fd)
    (hcontents : ∀ inode, h.contents inode <+: h'.contents inode) : Reads h' code got where
  unread := hreads.unread
  upTo fd hfd := by
    obtain ⟨f, hf, hpos, hgot⟩ := hreads.upTo fd hfd
    obtain ⟨more, hmore⟩ := hcontents f.inode
    refine ⟨f, by rw [hopened fd (Code.mem_descriptors_of_readsFrom hfd), hf], ?_, ?_⟩
    · rw [← hmore, List.length_append]
      omega
    · rw [← hmore, List.take_append_of_le_length hpos, hgot]

/-- What is read next goes on where the position is. -/
theorem Reads.append (hreads : Reads h code got) (hfd : code.readsFrom = some fd)
    {f : RegularFile} (hf : h.opened fd = some f) {data : List Byte}
    (hdata : data <+: (h.contents f.inode).drop f.pos) :
    f.pos + data.length ≤ (h.contents f.inode).length ∧
      got ++ data = (h.contents f.inode).take (f.pos + data.length) := by
  obtain ⟨f', hf', hpos, rfl⟩ := hreads.upTo fd hfd
  obtain rfl := Option.some.inj (hf.symm.trans hf')
  have hle := hdata.length_le
  rw [List.length_drop] at hle
  refine ⟨by omega, ?_⟩
  rw [List.take_add, ← List.prefix_iff_eq_take.1 hdata]

/-- **A call of the thread.** -/
theorem Reads.step (hreads : Reads h code got) (hcall : h.Call o e h')
    (hstep : Code.Step code e code') (hone : code.descriptors.length ≤ 1) :
    Reads h' code' (got ++ e.readData.getD []) := by
  -- what most calls come to
  have hquiet : code.Unread → e.readData = none → code'.readsFrom = none →
      Reads h' code' (got ++ e.readData.getD []) := by
    intro hunread hnone hfrom
    rw [hreads.unread hunread, hnone]
    exact ⟨fun _ ↦ rfl, fun fd hfd ↦ absurd (hfrom.symm.trans hfd) (by simp)⟩
  cases hstep with
  | call a next =>
    have hnext : Reads h code' got := ⟨hreads.unread, hreads.upTo⟩
    rw [show (Event.call a).readData.getD [] = [] from rfl, List.append_nil]
    refine hnext.frame (fun g hg ↦ ?_) hcall.contents_isPrefix
    cases hcall with
    | stays => rfl
    | opens _ hopened => exact absurd hopened (by simp [Event.opened])
    | closes =>
      -- the file it closes is the only one
      rw [Code.descriptors, List.length_cons] at hone
      have hnil : code'.descriptors = [] := List.eq_nil_of_length_eq_zero (by omega)
      exact absurd hg (by simp [hnil])
  | ioctl l fd seekto => exact absurd rfl (hcall.ne_ioctl fd seekto)
  | openRead l fd =>
    obtain rfl : got = [] := hreads.unread trivial
    cases hcall with
    | stays hnone => exact absurd hnone (by simp [Event.opened])
    | opens _ hopened =>
      obtain rfl := Option.some.inj hopened
      refine ⟨fun h ↦ absurd h id, fun g hg ↦ ?_⟩
      obtain rfl := Option.some.inj hg
      exact ⟨_, by rw [Host.openRegular, Host.setOpened_opened, if_pos rfl], Nat.zero_le _, rfl⟩
  | readIoctl l fd data hne | readBack l fd data hne =>
    refine ⟨fun h ↦ absurd h id, fun g hg ↦ ?_⟩
    obtain rfl := Option.some.inj hg
    cases hcall with
    | stays _ _ hread => exact absurd (hread data rfl) hne
    | opens _ hopened => exact absurd hopened (by simp [Event.opened])
    | @reads _ _ f _ hf hdata =>
      have hgot := hreads.append rfl hf hdata
      exact ⟨{ f with pos := f.pos + data.length }, by rw [Host.setOpened_opened, if_pos rfl], hgot⟩
  | readIoctlEnd | readBackEnd =>
    exact ⟨fun h ↦ absurd h id, fun g hg ↦ absurd hg (show none ≠ some g by simp)⟩
  | recvNothing l => exact hquiet trivial rfl (Code.readsFrom_eq_none (Code.descriptors_handle l))
  | recv l data =>
    exact hquiet trivial rfl (Code.readsFrom_eq_none (Code.descriptors_received l data))
  | reallocFails l => exact hquiet trivial rfl (Code.readsFrom_eq_none (Code.descriptors_handle l))
  | realloc l junk => exact hquiet trivial rfl (Code.readsFrom_eq_none (Code.descriptors_scan _))
  | _ => exact hquiet trivial rfl rfl

/-- What a thread has just read something of, it has read from the beginning. -/
theorem Reads.isPrefix (hreads : Reads h code' got) (hstep : Code.Step code e code')
    (hne : e.readData.getD [] ≠ []) : ∃ inode, got <+: h.contents inode := by
  have hfrom : ∀ fd, code'.readsFrom = some fd → ∃ inode, got <+: h.contents inode := by
    intro fd hfd
    obtain ⟨f, -, -, hgot⟩ := hreads.upTo fd hfd
    exact ⟨f.inode, hgot ▸ List.take_prefix ..⟩
  cases hstep with
  | readIoctl | readBack => exact hfrom _ rfl
  | _ => exact absurd rfl hne

end Reading

/-- What thread `i` of a life reads in a step. -/
def SiteEvent.readBy (life i : ℕ) : SiteEvent → List Byte
  | .call life' i' e => if life' = life ∧ i' = i then e.readData.getD [] else []
  | _ => []

/-- What thread `i` of a life has read. -/
def readBy (life i : ℕ) (trace : List SiteEvent) : List Byte :=
  trace.flatMap (SiteEvent.readBy life i)

/-- The device is cut off since `trace` began; `k` is its kernel. -/
structure Severed (k : Kernel) (trace : List SiteEvent) (s : Site) : Prop where
  cut : s.world.env.Cut k
  closed : s.running = false → ∀ fd, s.world.env.opened fd = none
  own : s.running = true →
    OwnFiles (fun fd ↦ (s.world.env.opened fd).isSome) fun i ↦ (s.world.proc i).code
  reads : s.running = true →
    ∀ i, Reads s.world.env (s.world.proc i).code (readBy s.life i trace)
  /-- What a thread has read, in any life, is the beginning of a regular file. -/
  kept : ∀ life i, ∃ inode, readBy life i trace <+: s.world.env.contents inode
  refused : ∀ life i fd seekto, .call life i (.ioctl fd seekto true) ∉ trace
  life_le : ∀ life i e, .call life i e ∈ trace → life ≤ s.life

section Severed

variable {k : Kernel} {trace : List SiteEvent} {s s' : Site} {y : SiteEvent}

theorem readBy_concat (life i : ℕ) (trace : List SiteEvent) (y : SiteEvent) :
    readBy life i (trace ++ [y]) = readBy life i trace ++ y.readBy life i := by
  simp [readBy]

theorem readBy_eq_nil {life : ℕ} (h : ∀ life' i e, .call life' i e ∈ trace → life' ≠ life) (i : ℕ) :
    readBy life i trace = [] := by
  rw [readBy, List.flatMap_eq_nil_iff]
  rintro (⟨life', i', e⟩ | _ | _ | _ | _ | _) hmem
  · exact if_neg fun heq ↦ h life' i' e hmem heq.1
  all_goals rfl

namespace Severed

/-- A step that is no call of a thread. -/
theorem of_quiet (h : Severed k trace s) (hy : ∀ life i e, y ≠ .call life i e)
    (hcut : s'.world.env.Cut k) (hcontents : s'.world.env.contents = s.world.env.contents)
    (hlife : s.life ≤ s'.life) (hclosed : s'.running = false → ∀ fd, s'.world.env.opened fd = none)
    (hown : s'.running = true →
      OwnFiles (fun fd ↦ (s'.world.env.opened fd).isSome) fun i ↦ (s'.world.proc i).code)
    (hreads : s'.running = true →
      ∀ i, Reads s'.world.env (s'.world.proc i).code (readBy s'.life i trace)) :
    Severed k (trace ++ [y]) s' := by
  have hread : ∀ life i, readBy life i (trace ++ [y]) = readBy life i trace := by
    intro life i
    rw [readBy_concat]
    cases y with
    | call life' i' e => exact absurd rfl (hy life' i' e)
    | _ => exact List.append_nil _
  have hmem : ∀ life i e, .call life i e ∈ trace ++ [y] → .call life i e ∈ trace := by
    intro life i e hmem
    rcases List.mem_append.1 hmem with hmem | hmem
    · exact hmem
    · exact absurd (List.mem_singleton.1 hmem).symm (hy life i e)
  refine ⟨hcut, hclosed, hown, fun hrunning i ↦ ?_, fun life i ↦ ?_,
    fun life i fd seekto hioctl ↦ ?_, fun life i e he ↦ ?_⟩
  · rw [hread]
    exact hreads hrunning i
  · rw [hread, hcontents]
    exact h.kept life i
  · exact h.refused life i fd seekto (hmem _ _ _ hioctl)
  · exact (h.life_le life i e (hmem _ _ _ he)).trans hlife

/-- The write of a thread is on a file that it has open, and at the end of it. -/
theorem written_of_call {h h' : Host} {o : WriteOutcome} {code code' : Code} {fd : ℕ}
    {bytes : List Byte} (hcall : h.Call o (.write fd bytes) h')
    (hstep : Code.Step code (.write fd bytes) code')
    (hopen : ∀ g ∈ code.descriptors, (h.opened g).isSome = true) :
    ∃ inode, o.taken (userBuf bytes) <:+: h'.contents inode := by
  cases hcall with
  | stays _ _ _ hwrite =>
    have hmem : fd ∈ code.descriptors := by
      cases hstep
      exact List.mem_cons_self
    have hsome := hopen fd hmem
    rw [hwrite fd bytes rfl] at hsome
    exact absurd hsome Bool.false_ne_true
  | opens _ hopened => exact absurd hopened (by simp [Event.opened])
  | @writes _ f _ hf =>
    refine ⟨f.inode, ?_⟩
    rw [Host.append_contents, if_pos rfl]
    exact (List.suffix_append ..).isInfix

/-- What the threads have read after a call of one of them. -/
theorem reads_call (h : Severed k trace s) (hrunning : s.running = true) {i : ℕ} {e : Event}
    {o : WriteOutcome} {env : Host} {code : Code} (hcall : s.world.env.Call o e env)
    (hcode : Code.Step (s.world.proc i).code e code) (j : ℕ) :
    Reads env (if j = i then code else (s.world.proc j).code)
      (readBy s.life j (trace ++ [.call s.life i e])) := by
  have hown := h.own hrunning
  rw [readBy_concat]
  rcases eq_or_ne j i with rfl | hne
  · rw [if_pos rfl, SiteEvent.readBy, if_pos ⟨rfl, rfl⟩]
    exact (h.reads hrunning j).step hcall hcode (hown.atMostOne j)
  · rw [if_neg hne, SiteEvent.readBy, if_neg fun heq ↦ hne heq.2.symm, List.append_nil]
    refine (h.reads hrunning j).frame (fun fd hfd ↦ hcall.opened_eq hcode ?_ ?_)
      hcall.contents_isPrefix
    · exact fun hi ↦ hne (hown.unshared j i fd hfd hi)
    · intro hopened
      have hfresh := hcall.opened_eq_none_of_opened hopened
      exact hown.notMem_of_fresh (by rw [hfresh, Option.isSome_none]) j hfd

/-- **A call of a thread.** -/
theorem call (h : Severed k trace s) (hrunning : s.running = true) {i : ℕ} {c : Choice} {e : Event}
    {env : Host} {conn : Conn} (hact : actAt s.world.env (s.world.proc i) c = .ok (e, env, conn))
    (owner : Option ℕ) :
    Severed k (trace ++ [.call s.life i e])
      { s with world := ⟨env, owner, Function.update s.world.proc i conn⟩ } := by
  obtain ⟨a, code, hhost, hstep, rfl⟩ := actIn_cases hact
  have hcall := h.cut.call hhost hstep
  have hcode := Code.step_cases hstep
  have hown := h.own hrunning
  have hgrows := hcall.contents_isPrefix
  have hproc : ∀ j, (Function.update s.world.proc i ((s.world.proc i).after e code) j).code =
      if j = i then code else (s.world.proc j).code := by
    intro j
    rw [Function.update_apply]
    split <;> rfl
  have hreads := h.reads_call hrunning hcall hcode
  refine ⟨hcall.cut h.cut, fun hdown ↦ ?_, fun _ ↦ ?_, fun _ j ↦ hproc j ▸ hreads j,
    fun life j ↦ ?_, fun life j fd seekto hioctl ↦ ?_, fun life j e' he ↦ ?_⟩
  · exact absurd (hdown.symm.trans hrunning) Bool.false_ne_true
  · show OwnFiles (fun fd ↦ (env.opened fd).isSome) fun j ↦
      (Function.update s.world.proc i ((s.world.proc i).after e code) j).code
    rw [funext hproc]
    refine hown.step (k := i) ?_ (fun j hj ↦ if_neg hj) hcall.isSome_opened fun g hg ↦ ?_
    · rw [if_pos rfl]
      exact hcode
    · rw [hcall.opened_eq_none_of_opened hg, Option.isSome_none]
  · obtain ⟨inode, hkept⟩ := h.kept life j
    by_cases hread : SiteEvent.readBy life j (.call s.life i e) = []
    · rw [readBy_concat, hread, List.append_nil]
      exact ⟨inode, hkept.trans (hgrows inode)⟩
    · -- it is the thread of the call that has read something
      rw [SiteEvent.readBy, ite_eq_right_iff, Classical.not_imp] at hread
      obtain ⟨⟨rfl, rfl⟩, hread⟩ := hread
      have hself := hreads i
      rw [if_pos rfl] at hself
      exact hself.isPrefix hcode hread
  · rcases List.mem_append.1 hioctl with hioctl | hioctl
    · exact h.refused life j fd seekto hioctl
    · obtain ⟨-, -, he⟩ := SiteEvent.call.inj (List.mem_singleton.1 hioctl)
      exact hcall.ne_ioctl fd seekto he.symm
  · rcases List.mem_append.1 he with he | he
    · exact h.life_le life j e' he
    · obtain ⟨rfl, -⟩ := SiteEvent.call.inj (List.mem_singleton.1 he)
      exact Nat.le_refl _

/-- **One step.** -/
theorem step (h : Severed k trace s) (hstep : s.Step y s') : Severed k (trace ++ [y]) s' := by
  have hdown : ∀ y : SiteEvent, (∀ life i e, y ≠ .call life i e) →
      Severed k (trace ++ [y]) s.down := fun y hy ↦
    h.of_quiet hy ⟨by simp [Site.down, Host.closeAll, h.cut.device_eq], h.cut.filePath_ne⟩ rfl
      (Nat.le_refl _) (fun _ _ ↦ rfl) (fun hrunning ↦ absurd hrunning Bool.false_ne_true)
      fun hrunning ↦ absurd hrunning Bool.false_ne_true
  cases hstep with
  | call hrunning hact => exact h.call hrunning hact _
  | signal | leaveLoop =>
    exact h.of_quiet (by simp) h.cut rfl (Nat.le_refl _) h.closed h.own h.reads
  | @ending _ ok a rest hk =>
    cases a with
    | exit => exact hdown (.ending .exit _) (by simp)
    | remove =>
      rw [Site.after]
      split
      · refine h.of_quiet (by simp) ⟨h.cut.device_eq, by simp [Site.unnamed]⟩ rfl (Nat.le_refl _)
          h.closed h.own fun hrunning i ↦ ?_
        have hreads := h.reads hrunning i
        exact ⟨hreads.unread, hreads.upTo⟩
      · exact h.of_quiet (by simp) h.cut rfl (Nat.le_refl _) h.closed h.own h.reads
    | _ => exact h.of_quiet (by simp) h.cut rfl (Nat.le_refl _) h.closed h.own h.reads
  | die => exact hdown .die (by simp)
  | launch hnot =>
    refine h.of_quiet (by simp) h.cut rfl (Nat.le_succ _) (fun hrunning ↦ Bool.noConfusion hrunning)
      (fun _ ↦ .blank (fun fd ↦ ?_) fun _ ↦ rfl) fun _ i ↦ ?_
    · show (s.world.env.opened fd).isSome = false
      rw [h.closed hnot fd, Option.isSome_none]
    · refine .of_descriptors_eq_nil rfl fun _ ↦ readBy_eq_nil (fun life i e hmem ↦ ?_) i
      have hle := h.life_le life i e hmem
      exact Nat.ne_of_lt (Nat.lt_succ_of_le hle)

/-- What is in a regular file stays there. -/
theorem contents_isPrefix (h : Severed k trace s) (hstep : s.Step y s') (inode : ℕ) :
    s.world.env.contents inode <+: s'.world.env.contents inode := by
  cases hstep with
  | call hrunning hact =>
    obtain ⟨a, code, hhost, hstep, -⟩ := actIn_cases hact
    exact (h.cut.call hhost hstep).contents_isPrefix inode
  | @ending _ ok a rest hk =>
    cases a with
    | remove =>
      rw [Site.after]
      split <;> exact List.prefix_refl _
    | _ => exact List.prefix_refl _
  | signal | leaveLoop | die | launch => exact List.prefix_refl _

/-- **A run** from where the device is cut off. -/
theorem of_run (h : Severed k trace s) {turns : List SiteTurn} {more : List SiteEvent}
    (hrun : run Site.step s turns = .ok (more, s')) : Severed k (trace ++ more) s' ∧
      ∀ inode, s.world.env.contents inode <+: s'.world.env.contents inode := by
  refine history_of_run (I := fun more s' ↦ Severed k (trace ++ more) s' ∧
    ∀ inode, s.world.env.contents inode <+: s'.world.env.contents inode) ?_
    ⟨(List.append_nil trace).symm ▸ h, fun _ ↦ List.prefix_refl _⟩ hrun
  rintro more s₁ turn y s₂ ⟨h₁, hgrows⟩ hstep
  have hcases := Site.step_cases hstep
  rw [← List.append_assoc]
  exact ⟨h₁.step hcases, fun inode ↦ (hgrows inode).trans (h₁.contents_isPrefix hcases inode)⟩

/-- What the file takes of a write of a thread is in it afterwards. -/
theorem exists_written (h : Severed k trace s) {i life j fd : ℕ} {c : Choice} {bytes : List Byte}
    (hstep : s.step (.call i c) = .ok (.call life j (.write fd bytes), s')) :
    ∃ inode, c.outcome.taken (userBuf bytes) <:+: s'.world.env.contents inode := by
  rw [Site.step] at hstep
  split at hstep
  · rename_i hrunning
    obtain ⟨e, env, conn, owner, heq, rfl, hact, -⟩ := Site.callTurn_cases hstep
    obtain ⟨-, -, rfl⟩ := SiteEvent.call.inj heq
    obtain ⟨a, code, hhost, hcode, -⟩ := actIn_cases hact
    exact written_of_call (h.cut.call hhost hcode) (Code.step_cases hcode) fun g hg ↦
      ((h.own hrunning).opened g).2 ⟨i, hg⟩
  · cases hstep

/-- The device is cut off when the process ends, once it has lost its name. -/
theorem of_down (hname : s.world.env.filePath ≠ some .device) :
    Severed s.world.env.device.kernel [] s.down where
  cut := ⟨rfl, hname⟩
  closed _ _ := rfl
  own hrunning := absurd hrunning Bool.false_ne_true
  reads hrunning := absurd hrunning Bool.false_ne_true
  kept _ _ := ⟨0, List.nil_prefix⟩
  refused _ _ _ _ := List.not_mem_nil
  life_le _ _ _ hmem := absurd hmem List.not_mem_nil

end Severed

end Severed

/-! ### Runs -/

section Runs

variable {inboxes : ℕ → List (List Byte)} {turns : List SiteTurn}
  {trace trace₁ trace₂ : List SiteEvent} {s : Site}

/-- **The name of the device.** It stays, through all lives, as long as no `remove` succeeds. -/
theorem named_of_run (hrun : run Site.step (Site.start inboxes) turns = .ok (trace, s)) :
    s.world.env.filePath = some .device ↔ .ending .remove true ∉ trace :=
  history_of_run (I := Site.Named) (fun _ _ _ _ _ h hstep ↦ h.step (Site.step_cases hstep))
    (iff_of_true rfl List.not_mem_nil) hrun

/-- The calls of the threads. -/
def callsIn (trace : List SiteEvent) : List (ℕ × Event) :=
  trace.filterMap fun
    | .call _ i e => some (i, e)
    | _ => none

/-- No ending has come to its `remove`, and nobody has been killed. -/
structure Undiminished (inboxes : ℕ → List (List Byte)) (trace : List SiteEvent) (s : Site) :
    Prop where
  running : s.running = true
  destroyed : s.destroyed = false
  named : s.world.env.filePath = some .device
  unopened : ∀ fd, s.world.env.opened fd = none
  removes : ∀ l ∈ s.endings, .remove ∈ l
  exists_run : ∃ xs, run serve (start inboxes) xs =
    .ok (callsIn trace, ⟨s.world.env.device, s.world.owner, s.world.proc⟩)

theorem Undiminished.step {y : SiteEvent} {s' : Site} (h : Undiminished inboxes trace s)
    (hends : s.Ends) (hstep : s.Step y s') (hremove : ∀ done, y ≠ .ending .remove done)
    (hdie : y ≠ .die) : Undiminished inboxes (trace ++ [y]) s' := by
  have hquiet : callsIn [y] = [] → callsIn (trace ++ [y]) = callsIn trace := by
    intro hnil
    rw [callsIn, List.filterMap_append, ← callsIn, ← callsIn, hnil, List.append_nil]
  cases hstep with
  | @call i c e env conn owner hrunning hact hmutex =>
    obtain ⟨-, henv⟩ := actAt_of_named h.named h.unopened hact
    have hserve : serve ⟨s.world.env.device, s.world.owner, s.world.proc⟩ (i, c) = _ :=
      step_of_act (g := Host.device)
        (fun _ _ _ hact ↦ (actAt_of_named h.named h.unopened hact).1) (hmutex h.destroyed)
    obtain ⟨xs, hrun⟩ := h.exists_run
    refine ⟨h.running, h.destroyed, ?_, fun fd ↦ ?_, h.removes, xs ++ [(i, c)], ?_⟩
    · rw [henv]
      exact h.named
    · rw [henv]
      exact h.unopened fd
    · rw [callsIn, List.filterMap_append]
      exact run_append_eq_ok_iff.2 ⟨_, _, _, hrun, run_cons_of_ok hserve (run_nil _), rfl⟩
  | signal | leaveLoop =>
    exact ⟨h.running, h.destroyed, h.named, h.unopened,
      List.forall_mem_cons.2 ⟨by decide, h.removes⟩, (hquiet rfl) ▸ h.exists_run⟩
  | @ending k ok a rest hk =>
    have hmem := List.mem_of_getElem? hk
    have hrest : ∀ l ∈ s.endings.set k rest, .remove ∈ l := by
      intro l hl
      rcases List.mem_or_eq_of_mem_set hl with hl | rfl
      · exact h.removes l hl
      · exact (List.mem_cons.1 (h.removes _ hmem)).resolve_left fun ha ↦
          hremove _ (by rw [ha])
    cases a with
    | remove => exact absurd rfl (hremove _)
    | exit => exact absurd (h.removes _ hmem) (hends.notMem hmem (Or.inl rfl))
    | destroyMutex => exact absurd (h.removes _ hmem) (hends.notMem hmem (Or.inr rfl))
    | _ =>
      exact ⟨h.running, h.destroyed, h.named, h.unopened, hrest, (hquiet rfl) ▸ h.exists_run⟩
  | die => exact absurd rfl hdie
  | launch hdown => exact absurd (hdown.symm.trans h.running) Bool.false_ne_true

/-- **Up to the first `remove`** the threads are those of the server on the device. -/
theorem serve_of_run (hrun : run Site.step (Site.start inboxes) turns = .ok (trace, s))
    (hremove : ∀ done, .ending .remove done ∉ trace) (hdie : .die ∉ trace) :
    ∃ xs, run serve (start inboxes) xs =
      .ok (callsIn trace, ⟨s.world.env.device, s.world.owner, s.world.proc⟩) := by
  have hall : s.Ends ∧ ((∀ done, .ending .remove done ∉ trace) → .die ∉ trace →
      Undiminished inboxes trace s) := by
    refine history_of_run (I := fun trace s ↦ Site.Ends s ∧
      ((∀ done, .ending .remove done ∉ trace) → .die ∉ trace → Undiminished inboxes trace s)) ?_
      ⟨Site.ends_launched _ _ _, fun _ _ ↦ ?_⟩ hrun
    · rintro trace s turn y s' ⟨hends, h⟩ hstep
      have hcases := Site.step_cases hstep
      refine ⟨hends.step hcases, fun hremove hdie ↦ ?_⟩
      simp only [List.mem_append, not_or, List.mem_singleton, forall_and] at hremove hdie
      exact (h hremove.1 hdie.1).step hends hcases (fun done ↦ Ne.symm (hremove.2 done))
        (Ne.symm hdie.2)
    · exact ⟨rfl, rfl, rfl, fun _ ↦ rfl, List.forall_mem_nil _, [], rfl⟩
  exact (hall.2 hremove hdie).exists_run

/-- **A `remove` that succeeds loses the device, for ever.** Once a `remove` of `handle_signal`, or
of the end of `main`, has succeeded, in any life, and the process has ended after it, by its `exit`
or killed, with any calls of the other threads in between, and however often the server is launched
again, signalled or killed after that:

* the kernel of the device is as the end of the process left it, no file of the device is open, and
  `FILE_PATH` is not its name;
* no command has succeeded since;
* what has been written since is in a regular file, as far as the file has taken it, whatever has
  become of its name;
* what a thread has read, in any life since, is the beginning of a regular file. -/
theorem device_lost_after_exit {y : SiteEvent}
    (hrun : run Site.step (Site.start inboxes) turns = .ok (trace₁ ++ y :: trace₂, s))
    (hremoved : .ending .remove true ∈ trace₁) (hended : y = .ending .exit true ∨ y = .die) :
    ∃ turns₁ turn turns₂ s₁, turns = turns₁ ++ turn :: turns₂ ∧
      run Site.step (Site.start inboxes) turns₁ = .ok (trace₁, s₁) ∧
      s.world.env.device = ⟨s₁.world.env.device.kernel, fun _ ↦ none⟩ ∧
      s.world.env.filePath ≠ some .device ∧
      (∀ life i fd seekto, .call life i (.ioctl fd seekto true) ∉ trace₂) ∧
      (∀ (n i : ℕ) (c : Choice) (life j fd : ℕ) (bytes : List Byte),
        turns₂[n]? = some (.call i c) → trace₂[n]? = some (.call life j (.write fd bytes)) →
          ∃ inode, c.outcome.taken (userBuf bytes) <:+: s.world.env.contents inode) ∧
      ∀ life i, ∃ inode, readBy life i trace₂ <+: s.world.env.contents inode := by
  obtain ⟨turns₁, turn, turns₂, s₁, s₂, rfl, hrun₁, hend, hrun₂⟩ := exists_step_of_answers hrun
  have hname : s₁.world.env.filePath ≠ some .device := fun hdevice ↦
    (named_of_run hrun₁).1 hdevice hremoved
  have hcut : Severed s₁.world.env.device.kernel [] s₂ := by
    rcases hended with rfl | rfl
    · cases Site.step_cases hend with
      | ending => exact .of_down hname
    · cases Site.step_cases hend with
      | die => exact .of_down hname
  obtain ⟨hsevered, -⟩ := hcut.of_run hrun₂
  refine ⟨turns₁, turn, turns₂, s₁, rfl, hrun₁, hsevered.cut.device_eq, hsevered.cut.filePath_ne,
    hsevered.refused, fun n i c life j fd bytes hturn hwrite ↦ ?_, hsevered.kept⟩
  -- what a write has left in a file stays there to the end of the run
  obtain ⟨before, after, rfl, hlen⟩ : ∃ before after,
      trace₂ = before ++ .call life j (.write fd bytes) :: after ∧ before.length = n := by
    obtain ⟨hlt, hget⟩ := List.getElem?_eq_some_iff.1 hwrite
    refine ⟨trace₂.take n, trace₂.drop (n + 1), ?_, List.length_take_of_le (Nat.le_of_lt hlt)⟩
    rw [← hget, List.getElem_cons_drop, List.take_append_drop]
  obtain ⟨turns₃, turn₃, turns₄, s₃, s₄, rfl, hrun₃, hstep, hrun₄⟩ := exists_step_of_answers hrun₂
  have hcall : turn₃ = .call i c := by
    rw [← hlen, length_of_run hrun₃, List.getElem?_append_right (Nat.le_refl _), Nat.sub_self]
      at hturn
    exact Option.some.inj hturn
  subst hcall
  obtain ⟨hsevered₃, -⟩ := hcut.of_run hrun₃
  obtain ⟨inode, hwritten⟩ := hsevered₃.exists_written hstep
  obtain ⟨-, hgrows⟩ := (hsevered₃.step (Site.step_cases hstep)).of_run hrun₄
  exact ⟨inode, hwritten.trans (hgrows inode).isInfix⟩

/-- A line is stored on the device, and the process that a `SIGTERM` ends may not remove the name:
the next one gets what is on the device, and stores a second line there. That one may remove it:
after a third launch a client sends a line and gets back what is in the regular file, and another
one sends a command, which fails. -/
theorem device_lost_after_exit_sigterm :
    let command := ioctlCmdStr ++ [48, 44, 48, newline]
    let turns := List.replicate 20 (SiteTurn.call 0 (.granting 3)) ++ .signal ::
      List.replicate 7 (.ending 0 false) ++ .launch (fun _ ↦ [[98, newline]]) ::
        List.replicate 21 (.call 0 (.granting 3)) ++ .signal ::
          List.replicate 7 (.ending 0 true) ++
            .launch (fun i ↦ if i = 0 then [[99, newline]] else [command]) ::
              (List.replicate 20 (.call 0 (.granting 3)) ++
                List.replicate 6 (.call 1 (.granting 3)))
    ∃ trace₁ trace₂ s, run Site.step (Site.start fun _ ↦ [[97, newline]]) turns =
        .ok (trace₁ ++ .ending .exit true :: trace₂, s) ∧
      readBy 1 0 trace₁ = [97, newline, 98, newline] ∧
      readBy 2 0 trace₂ = [99, newline] ∧
      .call 2 1 (.ioctl 3 ⟨0, 0⟩ false) ∈ trace₂ ∧
      s.world.env.device.kernel.commands = [[97, newline], [98, newline]] ∧
      s.world.env.filePath ≠ some .device := by
  intro command turns
  have heval : (run Site.step (Site.start fun _ ↦ [[97, newline]]) turns).map (fun z ↦
      (decide (z.1 = z.1.take 57 ++ .ending .exit true :: z.1.drop 58 ∧
          .ending .remove true ∈ z.1.take 57 ∧ .call 2 1 (.ioctl 3 ⟨0, 0⟩ false) ∈ z.1.drop 58),
        readBy 1 0 (z.1.take 57), readBy 2 0 (z.1.drop 58),
        z.2.world.env.device.kernel.commands)) =
      .ok (true, [97, newline, 98, newline], [99, newline], [[97, newline], [98, newline]]) := by
    decide +kernel
  obtain ⟨⟨trace, s⟩, hrun, hend⟩ := exists_of_map_eq_ok heval
  simp only [Prod.mk.injEq, decide_eq_true_eq] at hend
  obtain ⟨⟨htrace, hremoved, hioctl⟩, hread, hread', hcommands⟩ := hend
  rw [htrace] at hrun
  obtain ⟨-, -, -, -, -, -, -, hname, -⟩ := device_lost_after_exit hrun hremoved (Or.inl rfl)
  exact ⟨_, _, s, hrun, hread, hread', hioctl, hcommands, hname⟩

end Runs

end Aesd
