import Aesd.Service.Descriptors

/-!
# After a command out of range

A seek to a byte the ring does not have returns from the driver with the mutex of the device
locked. As long as copies to and from user memory succeed, the mutex is held after a run exactly if
a command has failed (`device_held_iff_command_failed`).

From then on no call gets to the data of the device (`Event.Reaches`). A thread takes the calls it
can take without it and then waits for good, in the driver or for `aesdsocket_mutex`, which a thread
that waits in the driver holds. `Code.left` bounds the calls of a thread that receives nothing, and
each byte received brings two more at most (`Code.Step.left_lt`). So every continuation of the run
is short, stores nothing and sends what was read before (`server_stands_still`).
-/

namespace Aesd

open Memory Framing Execution MutualExclusion

/-- The call has got to the data of the device. -/
def Event.Reaches : Event → Prop
  | .write _ _ | .read _ _ _ | .ioctl _ _ true => True
  | _ => False

/-- The command of a client has failed. -/
def Event.commandFailed : Event → Bool
  | .ioctl _ _ ok => !ok
  | _ => false

/-- The bytes that the thread has read and is about to send. -/
def Code.toSend : Code → List Byte
  | .call (.send data) next => data ++ next.toSend
  | .call _ next => next.toSend
  | _ => []

/-- The calls left to a thread that receives nothing and does not get to the data of the device. -/
def Code.left : Code → ℕ
  | .call _ next => next.left + 1
  | .malloc => 10
  | .realloc _ => 9
  | .recv _ => 8
  | .openIoctl _ _ => 7
  | .ioctl _ _ _ => 6
  | .openRead _ => 6
  | .openWrite _ => 4
  | .write _ _ | .readIoctl _ _ | .readBack _ _ | .ret => 0

/-- The same, with what is still to be received. -/
def Conn.left (conn : Conn) : ℕ :=
  conn.code.left + 2 * conn.inbox.flatten.length

/-- The commands that have failed. -/
def commandFailures (trace : List (ℕ × Event)) : List (ℕ × Event) :=
  trace.filter fun y ↦ y.2.commandFailed

namespace Code

variable {code code' : Code} {e : Event}

theorem left_handle_le (l : Locals) : (handle l).left ≤ 7 := by
  obtain ⟨seekto, h⟩ | h | h | h := handle_cases l <;>
    simp [h, left, finish, finishIoctl, calls]

theorem left_scan_le (l : Locals) : (scan l).left ≤ 8 := by
  have hhandle := left_handle_le l
  rcases scan_cases l with h | h
  · rw [h]
    omega
  · rw [h]
    exact le_rfl

theorem left_received_le (l : Locals) (data : List Byte) : (received l data).left ≤ 9 := by
  obtain ⟨l', h⟩ | ⟨l', h⟩ := received_cases l data
  · rw [h]
    exact le_rfl
  · have hscan := left_scan_le l'
    rw [h]
    omega

/-- **A call that does not get to the data of the device leaves fewer.** -/
theorem Step.left_lt (h : Step code e code') (hreaches : ¬ e.Reaches) :
    code'.left < code.left + 2 * (e.delivered.getD []).length := by
  cases h with
  | call a next =>
    rw [left]
    omega
  | recvNothing l =>
    have hhandle := left_handle_le l
    rw [left]
    omega
  | recv l data hne =>
    have hreceived := left_received_le l data
    have hpos := List.length_pos_of_ne_nil hne
    show (received l data).left < 8 + 2 * data.length
    omega
  | reallocFails l =>
    have hhandle := left_handle_le l
    rw [left]
    omega
  | realloc l junk =>
    have hscan := left_scan_le { l with buffer := resize l.buffer l.bufferSize junk }
    rw [left]
    omega
  | ioctl | readIoctlEnd | readIoctl | write | readBackEnd | readBack =>
    exact absurd trivial hreaches
  | _ => simp [left, finish, finishIoctl, calls, Event.delivered]

/-- A call that does not get to the data of the device sends what was to be sent. -/
theorem Step.toSend_eq (h : Step code e code') (hreaches : ¬ e.Reaches) :
    code.toSend = e.sent.getD [] ++ code'.toSend := by
  have hhandle : ∀ l, (handle l).toSend = [] := by
    intro l
    obtain ⟨seekto, h⟩ | h | h | h := handle_cases l <;> rw [h] <;> rfl
  have hscan : ∀ l, (scan l).toSend = [] := by
    intro l
    rcases scan_cases l with h | h
    · rw [h, hhandle]
    · rw [h]
      rfl
  cases h with
  | call a next => cases a <;> rfl
  | recvNothing l => exact (hhandle l).symm
  | recv l data =>
    obtain ⟨l', h⟩ | ⟨l', h⟩ := received_cases l data
    · rw [h]
      rfl
    · rw [h, hscan]
      rfl
  | reallocFails l => exact (hhandle l).symm
  | realloc l junk => exact (hscan _).symm
  | ioctl | readIoctlEnd | readIoctl | write | readBackEnd | readBack =>
    exact absurd trivial hreaches
  | _ => rfl

/-- Whether `ioctl` returned -1 is what the thread sees. -/
theorem ioctl_of_step {o : Outcome} {fd : ℕ} {seekto : AesdSeekto} {ok : Bool}
    (h : code.step o = .ok (.ioctl fd seekto ok, code')) :
    (∃ l, code = ioctl l fd seekto) ∧ o.ioctl = ok := by
  have hcode : ∃ l, code = ioctl l fd seekto := by
    cases step_cases h with
    | ioctlFails l | ioctl l => exact ⟨l, rfl⟩
  refine ⟨hcode, ?_⟩
  obtain ⟨l, rfl⟩ := hcode
  rw [step] at h
  split at h
  · rename_i ho
    rw [ho, (Event.ioctl.inj (Prod.mk.inj (Except.ok.inj h)).1).2.2]
  · rename_i ho
    rw [Bool.not_eq_true] at ho
    rw [ho, (Event.ioctl.inj (Prod.mk.inj (Except.ok.inj h)).1).2.2]

end Code

/-! ### The calls of the device while its mutex is held -/

section Held

variable {sys sys' : System} {s : Log Byte} {op : Op} {a : Answer}

/-- A call that returns while the mutex is held has found its file closed, or it is one of those
that do not take the mutex. -/
theorem System.Represents.returns_of_held (h : sys.Represents s)
    (hheld : sys.kernel.mutex.held = true) (hopen : (sys.files op.file).isSome)
    (hstep : Aesd.step stayPut sys op = .ok (a, sys')) :
    (∃ f, op = .openFile f) ∨ (∃ f, op = .release f) ∨
      ∃ f cmd seekto uncopied, op = .ioctl f cmd seekto uncopied ∧ a.ret < 0 ∧
        (cmd = aesdcharIocseekto → min uncopied 8 ≠ 0) := by
  have hlock := Kernel.mutexLock_of_held hheld
  have hblocked : ∀ {operation}, (∀ filp, sys.files op.file = some filp →
      operation filp = .error .blocked) → sys.call op.file operation ≠ .ok (a, sys') := by
    intro operation hblocked hcall
    rw [(call_of_blocked hblocked hcall).1] at hopen
    exact Bool.false_ne_true hopen
  cases op with
  | openFile f => exact Or.inl ⟨f, rfl⟩
  | release f => exact Or.inr (Or.inl ⟨f, rfl⟩)
  | read f count uncopied =>
    refine absurd hstep (hblocked fun filp hf ↦ ?_)
    rw [aesdRead, File.dev_of_open (h.opened f filp hf), ok_bind, hlock]
    rfl
  | write f buf o =>
    refine absurd hstep (hblocked fun filp hf ↦ ?_)
    rw [aesdWrite, File.dev_of_open (h.opened f filp hf), ok_bind, hlock]
    rfl
  | llseek f offset whence =>
    refine absurd hstep (hblocked fun filp hf ↦ ?_)
    rw [aesdLlseek, File.dev_of_open (h.opened f filp hf), ok_bind, hlock]
    rfl
  | ioctl f cmd seekto uncopied =>
    refine Or.inr (Or.inr ⟨f, cmd, seekto, uncopied, rfl, ?_⟩)
    obtain ⟨hf, -⟩ | ⟨filp, reply, hf, hioctl, rfl, -⟩ := call_cases hstep
    · rw [Op.file, hf] at hopen
      exact absurd hopen Bool.false_ne_true
    · have hdev := h.opened f filp hf
      by_cases hcmd : cmd = aesdcharIocseekto
      · subst hcmd
        by_cases hcopy : min uncopied 8 = 0
        · rw [aesdUnlockedIoctl, File.dev_of_open hdev, ok_bind, if_pos rfl, if_neg (by omega),
            hlock] at hioctl
          exact absurd hioctl (by simp [bind, Except.bind])
        · rw [aesdUnlockedIoctl_of_uncopied hdev hcopy] at hioctl
          obtain rfl := Except.ok.inj hioctl
          exact ⟨Int.negSucc_lt_zero 13, fun _ ↦ hcopy⟩
      · rw [aesdUnlockedIoctl_of_ne hdev hcmd] at hioctl
        obtain rfl := Except.ok.inj hioctl
        exact ⟨Int.negSucc_lt_zero 24, fun heq ↦ absurd heq hcmd⟩

/-- What a thread with its file open can still do: nothing that gets to the data. -/
theorem not_reaches_of_held (h : sys.Represents s) (hheld : sys.kernel.mutex.held = true)
    {conn : Conn} {c : Choice} {e : Event} {code : Code}
    (hopen : ∀ op, conn.code.op c = some op → (∀ fd, op ≠ .openFile fd) →
      (sys.files op.file).isSome)
    (hdevice : conn.code.device sys c = .ok (a, sys'))
    (hstep : conn.code.step (conn.outcome c a) = .ok (e, code)) : ¬ e.Reaches := by
  intro hreaches
  have hreturns : ∀ op, conn.code.op c = some op → (∀ f, op ≠ .openFile f) →
      (∃ f, op = .release f) ∨ ∃ f cmd seekto uncopied,
        op = .ioctl f cmd seekto uncopied ∧ a.ret < 0 ∧
          (cmd = aesdcharIocseekto → min uncopied 8 ≠ 0) := by
    intro op hop hne
    simp only [Code.device, hop] at hdevice
    rcases h.returns_of_held hheld (hopen op hop hne) hdevice with ⟨f, hf⟩ | hrest
    · exact absurd hf (hne f)
    · exact hrest
  cases e with
  | ioctl fd seekto ok =>
    cases ok with
    | false => exact hreaches
    | true =>
      obtain ⟨⟨l, hcode⟩, hret⟩ := Code.ioctl_of_step hstep
      rcases hreturns _ (by rw [hcode]; rfl) (by simp) with ⟨f, hf⟩ | ⟨_, _, _, _, -, hneg, -⟩
      · exact absurd hf (by simp)
      · have hnonneg : 0 ≤ a.ret := of_decide_eq_true hret
        omega
  | write fd bytes =>
    obtain ⟨l, hcode⟩ : ∃ l, conn.code = .write l fd := by
      generalize conn.code = code₀ at hstep
      cases Code.step_cases hstep with
      | write l => exact ⟨l, rfl⟩
    rcases hreturns _ (by rw [hcode]; rfl) (by simp) with ⟨f, hf⟩ | ⟨_, _, _, _, hf, -⟩ <;>
      exact absurd hf (by simp)
  | read fd asked data =>
    obtain ⟨l, hcode⟩ : ∃ l, conn.code = .readIoctl l fd ∨ conn.code = .readBack l fd := by
      generalize conn.code = code₀ at hstep
      cases Code.step_cases hstep with
      | readIoctl l | readIoctlEnd l => exact ⟨l, Or.inl rfl⟩
      | readBack l | readBackEnd l => exact ⟨l, Or.inr rfl⟩
    have hop : conn.code.op c = some (.read fd (min l.bufferSize maxRwCount) c.uncopied) := by
      rcases hcode with hcode | hcode <;> rw [hcode] <;> rfl
    rcases hreturns _ hop (by simp) with ⟨f, hf⟩ | ⟨_, _, _, _, hf, -⟩ <;>
      exact absurd hf (by simp)
  | _ => exact hreaches

/-- A command that reaches the device with its argument copied returns -1 if it names no byte of the
ring, and then the mutex stays held. -/
theorem held_of_ioctl (h : sys.Represents s) {f : ℕ} {seekto : AesdSeekto} {uncopied : ℕ}
    (hcopy : uncopied = 0) (hopen : (sys.files f).isSome)
    (hstep : Aesd.step stayPut sys (.ioctl f aesdcharIocseekto seekto uncopied) = .ok (a, sys')) :
    sys.kernel.mutex.held = false ∧ sys'.kernel.mutex.held = !decide (0 ≤ a.ret) := by
  subst hcopy
  rcases hmutex : sys.kernel.mutex.held with - | -
  · obtain ⟨hf, -⟩ | ⟨filp, reply, hf, hioctl, rfl, rfl⟩ := System.call_cases hstep
    · rw [hf] at hopen
      exact absurd hopen Bool.false_ne_true
    · obtain ⟨reply', hioctl', hreply⟩ :=
        exists_ioctlReply h.kernel hmutex (h.opened f filp hf) aesdcharIocseekto seekto 0
      obtain rfl := Except.ok.inj (hioctl.symm.trans hioctl')
      refine ⟨rfl, ?_⟩
      cases hreply with
      | unknown hcmd => exact absurd rfl hcmd
      | uncopied _ hcopy => exact absurd (Nat.zero_min 8) hcopy
      | found => rfl
      | notFound => rfl
  · have hfile : (sys.files (Op.ioctl f aesdcharIocseekto seekto 0).file).isSome := hopen
    rcases h.returns_of_held hmutex hfile hstep with ⟨g, hg⟩ | ⟨g, hg⟩ |
      ⟨_, _, _, _, hop, -, hcopy⟩
    · exact absurd hg (by simp)
    · exact absurd hg (by simp)
    · obtain ⟨rfl, rfl, rfl, rfl⟩ := Op.ioctl.inj hop
      exact absurd (Nat.zero_min 8) (hcopy rfl)

/-- A call that is no command leaves the mutex as it was. -/
theorem held_of_not_ioctl (h : sys.Represents s)
    (hop : ∀ f cmd seekto uncopied, op ≠ .ioctl f cmd seekto uncopied)
    (hstep : Aesd.step stayPut sys op = .ok (a, sys')) :
    sys'.kernel.mutex.held = sys.kernel.mutex.held := by
  rcases hmutex : sys.kernel.mutex.held with - | -
  · obtain ⟨a', sys₁, hstep', -, hafter, -⟩ := h.exists_step hmutex stayPut op
    obtain ⟨rfl, rfl⟩ := Prod.mk.inj (Except.ok.inj (hstep.symm.trans hstep'))
    refine (hafter ?_).1
    cases op with
    | ioctl f cmd seekto uncopied => exact absurd rfl (hop f cmd seekto uncopied)
    | _ => rfl
  · rw [(h.step_of_held hmutex hstep).2, hmutex]

/-- **What a call of a thread does to the mutex of the device.** -/
theorem held_of_device (h : sys.Represents s) {conn : Conn} {c : Choice} {e : Event} {code : Code}
    (hopen : ∀ op, conn.code.op c = some op → (∀ fd, op ≠ .openFile fd) →
      (sys.files op.file).isSome)
    (hcopy : c.uncopied = 0) (hdevice : conn.code.device sys c = .ok (a, sys'))
    (hstep : conn.code.step (conn.outcome c a) = .ok (e, code)) :
    sys'.kernel.mutex.held.toNat = sys.kernel.mutex.held.toNat + e.commandFailed.toNat := by
  by_cases hcommand : ∃ fd seekto ok, e = .ioctl fd seekto ok
  · obtain ⟨fd, seekto, ok, rfl⟩ := hcommand
    obtain ⟨⟨l, hcode⟩, hret⟩ := Code.ioctl_of_step hstep
    have hop : conn.code.op c = some (.ioctl fd aesdcharIocseekto seekto c.uncopied) := by
      rw [hcode]
      rfl
    simp only [Code.device, hop] at hdevice
    obtain ⟨hfree, hheld⟩ := held_of_ioctl h hcopy (hopen _ hop (by simp)) hdevice
    rw [hfree, hheld, show decide (0 ≤ a.ret) = ok from hret]
    cases ok <;> rfl
  · have hnone : e.commandFailed = false := by
      cases e with
      | ioctl fd seekto ok => exact absurd ⟨fd, seekto, ok, rfl⟩ hcommand
      | _ => rfl
    rw [hnone]
    refine congrArg Bool.toNat ?_
    rw [Code.device] at hdevice
    rcases hop : conn.code.op c with - | op
    · simp only [hop] at hdevice
      rw [(Prod.mk.inj (Except.ok.inj hdevice)).2]
    · simp only [hop] at hdevice
      refine held_of_not_ioctl h (fun f cmd seekto uncopied heq ↦ hcommand ?_) hdevice
      subst heq
      generalize conn.code = code₀ at hstep hop
      cases Code.step_cases hstep with
      | ioctl l fd seekto' => exact ⟨_, _, _, rfl⟩
      | ioctlFails l fd seekto' => exact ⟨_, _, _, rfl⟩
      | call b next => cases b <;> exact absurd hop (by simp [Code.op])
      | _ => exact absurd hop (by simp [Code.op])

end Held

/-! ### Runs -/

section Runs

variable {inboxes : ℕ → List (List Byte)} {xs xs' : List (ℕ × Choice)}
  {trace trace' : List (ℕ × Event)} {w w' w₀ : World} {x : ℕ × Choice} {y : ℕ × Event}
  {s : Log Byte}

/-- The server at a standstill, `trace` after the state `w₀`. -/
structure StandsStill (w₀ : World) (trace : List (ℕ × Event)) (w : World) : Prop where
  kernel : w.env.kernel = w₀.env.kernel
  unreached : ∀ y ∈ trace, ¬ y.2.Reaches
  sent : ∀ i, (w₀.proc i).code.toSend = sentBytes (own i trace) ++ (w.proc i).code.toSend
  left : ∀ i, (own i trace).length + (w.proc i).left ≤ (w₀.proc i).left

theorem StandsStill.refl (w : World) : StandsStill w [] w where
  kernel := rfl
  unreached := by simp
  sent := fun _ ↦ rfl
  left := fun _ ↦ (Nat.zero_add _).le

/-- **A call while the mutex of the device is held.** -/
theorem StandsStill.serve (h : StandsStill w₀ trace w) (hs : w.env.Represents s)
    (hheld : w.env.kernel.mutex.held = true) (hw : FilesPrivate w)
    (hserve : Aesd.serve w x = .ok (y, w')) : StandsStill w₀ (trace ++ [y]) w' := by
  obtain ⟨i, e⟩ := y
  obtain ⟨a, code, hdevice, hstep, hi, hproc, -⟩ := serve_cases hserve
  obtain rfl : i = x.1 := hi
  have hreaches := not_reaches_of_held hs hheld
    (fun op hop hopen ↦ (hw.opened _).2 ⟨x.1, Code.file_mem_descriptors hop hopen⟩) hdevice hstep
  have hcases := Code.step_cases hstep
  refine ⟨?_, ?_, fun j ↦ ?_, fun j ↦ ?_⟩
  · rw [← h.kernel]
    rw [Code.device] at hdevice
    rcases hop : (w.proc x.1).code.op x.2 with - | op
    · simp only [hop] at hdevice
      rw [(Prod.mk.inj (Except.ok.inj hdevice)).2]
    · simp only [hop] at hdevice
      exact (hs.step_of_held hheld hdevice).2
  · simpa [or_imp, forall_and, hreaches] using h.unreached
  · rcases eq_or_ne x.1 j with rfl | hne
    · rw [own_concat_self, sentBytes_concat, hproc, Function.update_self, List.append_assoc,
        h.sent x.1, hcases.toSend_eq hreaches]
      rfl
    · rw [own_concat_of_ne hne, hproc, Function.update_of_ne hne.symm]
      exact h.sent j
  · rcases eq_or_ne x.1 j with rfl | hne
    · have hleft := hcases.left_lt hreaches
      have hinbox := congrArg List.length (Conn.delivered_append_after (w.proc x.1) hstep)
      have hbefore := h.left x.1
      rw [List.length_append] at hinbox
      rw [own_concat_self, hproc, Function.update_self, List.length_append, List.length_singleton]
      rw [Conn.left] at hbefore ⊢
      show _ + 1 + (code.left + 2 * _) ≤ _
      omega
    · rw [own_concat_of_ne hne, hproc, Function.update_of_ne hne.symm]
      exact h.left j

theorem standsStill_of_run (hrun : run serve (start inboxes) xs = .ok (trace, w))
    (hheld : w.env.kernel.mutex.held = true) (hrest : run serve w xs' = .ok (trace', w')) :
    StandsStill w trace' w' := by
  refine history_of_along (C := fun _ _ ↦ True) (I := StandsStill w) ?_ (StandsStill.refl w) hrest
    (along_of_forall fun _ _ ↦ trivial)
  rintro is trace₁ w₁ x y w₂ hrun₁ hI - hserve
  have hreach := run_append_eq_ok_iff.2 ⟨trace, w, trace₁, hrun, hrun₁, rfl⟩
  obtain ⟨s, hs⟩ := exists_represents_of_run hreach
  exact hI.serve hs (hI.kernel ▸ hheld) (filesPrivate_of_run hreach) hserve

theorem commandFailures_concat (trace : List (ℕ × Event)) (y : ℕ × Event) :
    (commandFailures (trace ++ [y])).length =
      (commandFailures trace).length + y.2.commandFailed.toNat := by
  rw [commandFailures, List.filter_append, List.length_append]
  rcases hfailed : y.2.commandFailed with - | - <;> simp [commandFailures, hfailed]

/-- The mutex of the device counts the commands that have failed. -/
theorem toNat_held_of_run (hrun : run serve (start inboxes) xs = .ok (trace, w))
    (hcopy : Along serve (fun _ x ↦ x.2.uncopied = 0) (start inboxes) xs) :
    w.env.kernel.mutex.held.toNat = (commandFailures trace).length := by
  refine history_of_along (I := fun trace (w : World) ↦
    w.env.kernel.mutex.held.toNat = (commandFailures trace).length) ?_ rfl hrun hcopy
  intro xs trace w x y w' hbefore hI hcopy hserve
  obtain ⟨s, hs⟩ := exists_represents_of_run hbefore
  have hw := filesPrivate_of_run hbefore
  obtain ⟨a, code, hdevice, hstep, -⟩ := serve_cases hserve
  rw [commandFailures_concat, ← hI]
  exact held_of_device hs
    (fun op hop hopen ↦ (hw.opened _).2 ⟨x.1, Code.file_mem_descriptors hop hopen⟩) hcopy
    hdevice hstep

/-- **Only a failed command keeps the mutex of the device.** In every run of the server on the
device in which every copy to and from user memory succeeds, and whatever else fails: at most one
command fails, and the mutex of the device is held at the end exactly if one has failed. -/
theorem device_held_iff_command_failed (inboxes : ℕ → List (List Byte)) {xs : List (ℕ × Choice)}
    {trace : List (ℕ × Event)} {w : World}
    (hrun : run serve (start inboxes) xs = .ok (trace, w)) (hcopy : ∀ x ∈ xs, x.2.uncopied = 0) :
    (commandFailures trace).length ≤ 1 ∧
      (w.env.kernel.mutex.held = true ↔
        ∃ i fd seekto, (i, .ioctl fd seekto false) ∈ trace) := by
  have hcount := toNat_held_of_run hrun (along_of_forall hcopy)
  have hone := Bool.toNat_le w.env.kernel.mutex.held
  refine ⟨by omega, ?_⟩
  have hsome : (∃ i fd seekto, ((i, .ioctl fd seekto false) : ℕ × Event) ∈ trace) ↔
      commandFailures trace ≠ [] := by
    rw [commandFailures, Ne, List.filter_eq_nil_iff, not_forall]
    constructor
    · rintro ⟨i, fd, seekto, hmem⟩
      exact ⟨_, fun h ↦ h hmem rfl⟩
    · rintro ⟨⟨i, e⟩, h⟩
      rw [not_forall] at h
      obtain ⟨hmem, hfailed⟩ := h
      cases e with
      | ioctl fd seekto ok =>
        cases ok with
        | false => exact ⟨i, fd, seekto, hmem⟩
        | true => exact absurd Bool.false_ne_true hfailed
      | _ => exact absurd Bool.false_ne_true hfailed
  rw [hsome, ← List.length_pos_iff, ← hcount]
  cases w.env.kernel.mutex.held <;> decide

/-- **The server stands still** once the mutex of the device is held for good. In every
continuation of such a run, with any clients and whatever else fails:

* the data of the device stays as it is;
* no call writes to it, reads from it or seeks in it;
* no thread sends anything but what it had read before;
* and every thread takes only so many calls more: a number that depends on where it is, and two
  for each byte that its client has sent and it has not received. -/
theorem server_stands_still (inboxes : ℕ → List (List Byte)) {xs xs' : List (ℕ × Choice)}
    {trace trace' : List (ℕ × Event)} {w w' : World}
    (hrun : run serve (start inboxes) xs = .ok (trace, w))
    (hheld : w.env.kernel.mutex.held = true) (hrest : run serve w xs' = .ok (trace', w')) :
    w'.env.kernel = w.env.kernel ∧ (∀ y ∈ trace', ¬ y.2.Reaches) ∧
      ∀ i, sentBytes (own i trace') <+: (w.proc i).code.toSend ∧
        (own i trace').length ≤ (w.proc i).code.left + 2 * (w.proc i).inbox.flatten.length := by
  have hstill := standsStill_of_run hrun hheld hrest
  refine ⟨hstill.kernel, hstill.unreached, fun i ↦ ⟨?_, ?_⟩⟩
  · rw [hstill.sent i]
    exact List.prefix_append _ _
  · exact (Nat.le_add_right _ _).trans (hstill.left i)

/-- A client's `open` is refused; then a command names a byte of the empty ring. -/
theorem device_held_iff_command_failed_empty :
    let inboxes : ℕ → List (List Byte) := fun i ↦
      if i = 0 then [ioctlCmdStr ++ [48, 44, 48, newline]] else [[97, newline]]
    let xs := List.replicate 8 (1, { Choice.granting 3 with fd := none }) ++
      List.replicate 6 (0, Choice.granting 3)
    ∃ trace w, run serve (start inboxes) xs = .ok (trace, w) ∧
      (1, .openFilePath none) ∈ trace ∧ (commandFailures trace).length ≤ 1 ∧
      (w.env.kernel.mutex.held = true ↔
        ∃ i fd seekto, (i, .ioctl fd seekto false) ∈ trace) := by
  intro inboxes xs
  have heval : (run serve (start inboxes) xs).map (fun z ↦
      (decide ((1, .openFilePath none) ∈ z.1), z.2.env.kernel.mutex.held)) = .ok (true, true) := by
    decide +kernel
  obtain ⟨⟨trace, w⟩, hrun, hend⟩ := exists_of_map_eq_ok heval
  obtain ⟨hrefused, -⟩ := Prod.mk.inj hend
  have hcopy : ∀ x ∈ xs, x.2.uncopied = 0 := by
    decide
  obtain ⟨hone, hheld⟩ := device_held_iff_command_failed inboxes hrun hcopy
  exact ⟨trace, w, hrun, of_decide_eq_true hrefused, hone, hheld⟩

/-- After it two other clients send a line: the `open` of one is refused, and the thread of the
other gets to its `write`. -/
theorem server_stands_still_line :
    let inboxes : ℕ → List (List Byte) := fun i ↦
      if i = 0 then [ioctlCmdStr ++ [48, 44, 48, newline]] else [[97, newline]]
    let xs := List.replicate 8 (2, { Choice.granting 4 with fd := none }) ++
      List.replicate 5 (1, Choice.granting 4)
    ∃ trace w trace' w',
      run serve (start inboxes) (List.replicate 8 (0, Choice.granting 3)) = .ok (trace, w) ∧
      run serve w xs = .ok (trace', w') ∧
      w.env.kernel.mutex.held = true ∧ w'.env.kernel = w.env.kernel := by
  intro inboxes xs
  have heval : (run serve (start inboxes) (List.replicate 8 (0, Choice.granting 3))).map
      (fun z ↦ (z.2.env.kernel.mutex.held, (run serve z.2 xs).isOk)) = .ok (true, true) := by
    decide +kernel
  obtain ⟨⟨trace, w⟩, hrun, hafter⟩ := exists_of_map_eq_ok heval
  obtain ⟨hheld, hok⟩ := Prod.mk.inj hafter
  rcases hrest : run serve w xs with stop | ⟨trace', w'⟩
  · simp only [hrest] at hok
    exact absurd hok Bool.false_ne_true
  · exact ⟨trace, w, trace', w', hrun, hrest, hheld,
      (server_stands_still inboxes hrun hheld hrest).1⟩

end Runs

end Aesd
