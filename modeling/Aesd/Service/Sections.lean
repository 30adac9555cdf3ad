import Aesd.Service.Access
import Aesd.Service.Requests

/-!
# Critical sections

Where the thread of a well-behaved client can be, when every service grants what it is asked for:
outside the critical sections (`Outside`), with its request stored or its reply given or not; or
inside one (`Inside`), with the device in a state that goes with it. Every call leads from one
such place to another (`Outside.act`, `Inside.act`). The first section of a line adds it to what
is committed (`Leaves.stored`); the second one, and the only one of a command for the device,
sends the reply (`Leaves.replied`).

Each place comes with a bound on the calls that are left, and every call makes it smaller.
-/

namespace Aesd

open Memory MutualExclusion Code

/-- Nothing the thread asks for is refused, and everything is copied. -/
structure Choice.Grants (c : Choice) : Prop where
  alloc : c.alloc.isSome
  fd : c.fd.isSome
  uncopied : c.uncopied = 0
  outcome : c.outcome.Grants

instance (c : Choice) : Decidable c.Grants :=
  decidable_of_iff (c.alloc.isSome ∧ c.fd.isSome ∧ c.uncopied = 0 ∧ c.outcome.Grants)
    ⟨fun ⟨halloc, hfd, hcopied, houtcome⟩ ↦ ⟨halloc, hfd, hcopied, houtcome⟩,
      fun h ↦ ⟨h.alloc, h.fd, h.uncopied, h.outcome⟩⟩

/-- An `open` that is granted is one on the device. -/
theorem Choice.Grants.exists_fd {c : Choice} (h : c.Grants) :
    ∃ fd, c.fd = some fd ∧ c.fd.map Op.openFile = some (.openFile fd) := by
  obtain ⟨fd, hfd⟩ := Option.isSome_iff_exists.1 h.fd
  exact ⟨fd, hfd, by rw [hfd, Option.map_some]⟩

namespace Request

/-- The request is stored. -/
def isLine : Request → Bool
  | line _ => true
  | seek .. => false

/-- The reply to the request, when these commands are retained: all of them, or what begins at the
offset of a command. -/
def reply (kept : List (List Byte)) : Request → List Byte
  | line _ => kept.flatten
  | seek cs os => (kept.drop (decimal cs)).flatten.drop (decimal os)

/-- Where in the retained commands the reply begins. -/
def Begins (r : Request) (kept : List (List Byte)) (b : ℕ) : Prop :=
  match r with
  | line _ => b = 0
  | seek cs os => seekTarget kept (seekto cs os) = some b

/-- The loop that reads the reply. -/
def readLoop (l : Locals) (fd : ℕ) : Request → Code
  | line _ => readBack l fd
  | seek .. => readIoctl l fd

/-- The calls after the loop that reads the reply, and after the file is closed. -/
def lastCalls : Request → List Action
  | line _ => [.unlock, .logClosed, .closeSocket, .free, .setStatus]
  | seek .. => [.logClosed, .closeSocket, .free, .setStatus, .unlock]

/-- The most calls the thread makes. -/
def steps (r : Request) : ℕ :=
  2 * r.bytes.length + 2 * ringLimit + 17

end Request

/-- The buffer is as long as `buffer_size` says, and not empty. -/
structure Locals.Sized (l : Locals) : Prop where
  size_eq : l.bufferSize = l.buffer.length
  pos : 0 < l.bufferSize

/-- The thread is outside the critical sections; its line has been stored or not, and its reply, if
it was given, is what has been sent. The last argument bounds the calls it has left. -/
inductive Outside (r : Request) (chunks : List (List Byte)) :
    Bool → Option (List Byte) → Code → List (List Byte) → List Byte → ℕ → Prop
  | accepted : Outside r chunks false none threadfunc chunks [] r.steps
  | allocating : Outside r chunks false none malloc chunks []
      (2 * r.bytes.length + 2 * ringLimit + 16)
  | entering (junk : Junk) : Outside r chunks false none
      (call .lock (recv ⟨resize [] 1024 junk, 1024, 0⟩)) chunks []
      (2 * r.bytes.length + 2 * ringLimit + 15)
  | between {l : Locals} {inbox : List (List Byte)} (hr : r.isLine = true) (hl : l.Sized) :
      Outside r chunks true none (sendBack l) inbox [] (2 * ringLimit + 9)
  | ending {acts : List Action} {inbox : List (List Byte)} {sent : List Byte}
      (hacts : acts <:+ r.lastCalls) (hunlock : .unlock ∉ acts) :
      Outside r chunks r.isLine (some sent) (calls acts ret) inbox sent acts.length

/-- The thread is inside a critical section, and the commands `cmds` had been committed when it
entered. -/
inductive Inside (r : Request) (cmds : List (List Byte)) :
    Bool → System → Code → List (List Byte) → List Byte → ℕ → Prop
  | receiving {sys : System} {l : Locals} {got : List Byte} {inbox : List (List Byte)}
      (hsys : Idle sys cmds) (h : r.Awaits l got inbox) :
      Inside r cmds false sys (recv l) inbox []
        (2 * (r.bytes.length - got.length) + 2 * ringLimit + 14)
  | growing {sys : System} {l : Locals} {got : List Byte} {inbox : List (List Byte)}
      (hsys : Idle sys cmds) (h : l.Full got) (hgot : got = r.bytes ∨ r.Part got inbox) :
      Inside r cmds false sys (realloc l) inbox []
        (2 * (r.bytes.length - got.length) + 2 * ringLimit + 15)
  | entry {sys : System} {l : Locals} {inbox : List (List Byte)}
      (hsys : Idle sys cmds) (h : l.Ready r.bytes) :
      Inside r cmds false sys (r.entry l) inbox [] (2 * ringLimit + 14)
  | writing {sys : System} {l : Locals} {fd : ℕ} {inbox : List (List Byte)}
      (hr : r.isLine = true) (hsys : Using sys cmds fd 0) (h : l.Ready r.bytes) :
      Inside r cmds false sys (write l fd) inbox [] (2 * ringLimit + 13)
  | syncing {sys : System} {l : Locals} {fd p : ℕ} {inbox : List (List Byte)}
      (hr : r.isLine = true) (hsys : Using sys (cmds ++ [r.bytes]) fd p) (hl : l.Sized) :
      Inside r cmds false sys (calls [.fsync fd, .closeFile fd, .unlock] (sendBack l)) inbox []
        (2 * ringLimit + 12)
  | closing {sys : System} {l : Locals} {fd p : ℕ} {inbox : List (List Byte)}
      (hr : r.isLine = true) (hsys : Using sys (cmds ++ [r.bytes]) fd p) (hl : l.Sized) :
      Inside r cmds false sys (calls [.closeFile fd, .unlock] (sendBack l)) inbox []
        (2 * ringLimit + 11)
  | leaving {sys : System} {l : Locals} {inbox : List (List Byte)}
      (hr : r.isLine = true) (hsys : Idle sys (cmds ++ [r.bytes])) (hl : l.Sized) :
      Inside r cmds false sys (calls [.unlock] (sendBack l)) inbox [] (2 * ringLimit + 10)
  | opening {sys : System} {l : Locals} {inbox : List (List Byte)}
      (hr : r.isLine = true) (hsys : Idle sys cmds) (hl : l.Sized) :
      Inside r cmds true sys (openRead l) inbox [] (2 * ringLimit + 8)
  | seeking {sys : System} {l : Locals} {fd : ℕ} {inbox : List (List Byte)} {cs os : List Byte}
      (hr : r = .seek cs os) (hsys : Using sys cmds fd 0) (hl : l.Sized) :
      Inside r cmds false sys (ioctl l fd (Request.seekto cs os)) inbox [] (2 * ringLimit + 8)
  | reading {sys : System} {l : Locals} {fd b p : ℕ} {inbox : List (List Byte)} {sent : List Byte}
      (hsys : Using sys cmds fd p) (hl : l.Sized) (hb : r.Begins (cmds.rtake 10) b) (hbp : b ≤ p)
      (hp : p ≤ (cmds.rtake 10).flatten.length)
      (hsent : sent ++ (cmds.rtake 10).flatten.drop p = (cmds.rtake 10).flatten.drop b) :
      Inside r cmds r.isLine sys (r.readLoop l fd) inbox sent
        (2 * ((cmds.rtake 10).flatten.length - p) + 7)
  | sending {sys : System} {l : Locals} {fd b p : ℕ} {inbox : List (List Byte)}
      {sent data : List Byte} (hsys : Using sys cmds fd p) (hl : l.Sized)
      (hb : r.Begins (cmds.rtake 10) b) (hbp : b ≤ p)
      (hp : p ≤ (cmds.rtake 10).flatten.length)
      (hsent : sent ++ data ++ (cmds.rtake 10).flatten.drop p =
        (cmds.rtake 10).flatten.drop b) :
      Inside r cmds r.isLine sys (call (.send data) (r.readLoop l fd)) inbox sent
        (2 * ((cmds.rtake 10).flatten.length - p) + 8)
  | closingFile {sys : System} {fd p : ℕ} {inbox : List (List Byte)}
      (hsys : Using sys cmds fd p) :
      Inside r cmds r.isLine sys (calls (.closeFile fd :: r.lastCalls) ret) inbox
        (r.reply (cmds.rtake 10)) 6
  | finishing {sys : System} {acts : List Action} {inbox : List (List Byte)}
      (hsys : Idle sys cmds) (hacts : acts <:+ r.lastCalls) (hunlock : .unlock ∈ acts) :
      Inside r cmds r.isLine sys (calls acts ret) inbox (r.reply (cmds.rtake 10)) acts.length

/-- The thread leaves a critical section. -/
inductive Leaves (r : Request) (chunks cmds : List (List Byte)) :
    Bool → System → Code → List (List Byte) → List Byte → ℕ → Prop
  | stored {sys : System} {code : Code} {inbox : List (List Byte)} {sent : List Byte} {left : ℕ}
      (hr : r.isLine = true) (hsys : Idle sys (cmds ++ [r.bytes]))
      (h : Outside r chunks true none code inbox sent left) :
      Leaves r chunks cmds false sys code inbox sent left
  | replied {sys : System} {code : Code} {inbox : List (List Byte)} {sent : List Byte} {left : ℕ}
      (hsys : Idle sys cmds)
      (h : Outside r chunks r.isLine (some (r.reply (cmds.rtake 10))) code inbox sent left) :
      Leaves r chunks cmds r.isLine sys code inbox sent left

section Calls

variable {sys sys' : System} {code code' : Code} {inbox : List (List Byte)} {c : Choice}
  {a : Answer} {e : Event}

/-- A call that takes an operation of the device. -/
theorem act_of_op {op : Op} (hop : code.op c = some op)
    (hdevice : step stayPut sys op = .ok (a, sys'))
    (hstep : code.step ((⟨code, inbox⟩ : Conn).outcome c a) = .ok (e, code'))
    (he : e.delivered = none) : act sys ⟨code, inbox⟩ c = .ok (e, sys', ⟨code', inbox⟩) := by
  have hdev : code.device sys c = .ok (a, sys') := by
    rw [Code.device]
    simp only [hop, hdevice]
  have hact := actIn_of_ok ⟨code, inbox⟩ hdev hstep
  rwa [Conn.after, he] at hact

/-- A call that the device has no part in, and that receives nothing. -/
theorem act_of_no_op (hop : code.op c = none)
    (hstep : code.step ((⟨code, inbox⟩ : Conn).outcome c ⟨0, []⟩) = .ok (e, code'))
    (he : e.delivered = none) : act sys ⟨code, inbox⟩ c = .ok (e, sys, ⟨code', inbox⟩) := by
  have hdev : code.device sys c = .ok (⟨0, []⟩, sys) := by
    rw [Code.device]
    simp only [hop]
  have hact := actIn_of_ok ⟨code, inbox⟩ hdev hstep
  rwa [Conn.after, he] at hact

/-- A call that answers nothing and is not for the device. -/
theorem act_call {act : Action} {next : Code} (hop : (call act next).op c = none) :
    Aesd.act sys ⟨call act next, inbox⟩ c = .ok (.call act, sys, ⟨next, inbox⟩) :=
  act_of_no_op hop rfl rfl

/-- `close` of a file of the device succeeds and leaves the device. -/
theorem act_closeFile {fd : ℕ} {next : Code}
    (hclose : step stayPut sys (.release fd) = .ok (⟨0, []⟩, sys')) :
    act sys ⟨call (.closeFile fd) next, inbox⟩ c =
      .ok (.call (.closeFile fd), sys', ⟨next, inbox⟩) := by
  have hop : (call (.closeFile fd) next).op c = some (.release fd) := rfl
  exact act_of_op hop hclose rfl rfl

/-- `recv` takes what fits of the next chunk, and the thread goes on by what that was. -/
theorem act_recv (sys : System) (l : Locals) (inbox : List (List Byte)) (c : Choice) :
    act sys ⟨recv l, inbox⟩ c =
      .ok (.recv (asked l) ((inbox.head?.getD []).take (asked l)), sys,
        ⟨if (inbox.head?.getD []).take (asked l) = [] then handle l
          else received l ((inbox.head?.getD []).take (asked l)),
          consume ((inbox.head?.getD []).take (asked l)).length inbox⟩) :=
  rfl

end Calls

/-! ### What the places have in common -/

namespace Locals

variable {l : Locals} {got data : List Byte}

/-- A buffer that is ready for more has its recorded size. -/
theorem Ready.sized (h : l.Ready got) : l.Sized := by
  have hroom := h.room
  exact ⟨h.size_eq, by rw [h.size_eq]; omega⟩

/-- A store inside the buffer keeps it so. -/
theorem Sized.store (h : l.Sized) (hle : data.length ≤ l.bufferSize) : (l.store 0 data).Sized := by
  have hfits : 0 + data.length ≤ l.buffer.length := by
    rw [← h.size_eq]
    omega
  refine ⟨?_, h.pos⟩
  rw [length_store_buffer hfits]
  exact h.size_eq

/-- What is read into the buffer is what is sent from it. -/
theorem Sized.take_store (h : l.Sized) (hle : data.length ≤ l.bufferSize) :
    (l.store 0 data).buffer.take data.length = data := by
  have hfits : ([] : List Byte).length + data.length ≤ l.buffer.length := by
    rw [← h.size_eq, List.length_nil]
    omega
  have hdata := append_isPrefix_store (List.nil_prefix (l := l.buffer)) hfits
  exact (List.prefix_iff_eq_take.1 hdata).symm

end Locals

namespace Request

variable {r : Request} {l : Locals} {fd : ℕ} {kept : List (List Byte)} {b : ℕ}

/-- The reply begins there. -/
theorem Begins.drop_eq {chunks : List (List Byte)} (h : r.Begins kept b) (hsends : r.Sends chunks) :
    kept.flatten.drop b = r.reply kept := by
  cases hsends with
  | line =>
    obtain rfl : b = 0 := h
    rfl
  | @seek cs os hcs hos hlen =>
    obtain ⟨cmd, hcmd, ho, rfl⟩ := seekTarget_eq_some_iff.1 h
    have hc : (seekto cs os).writeCmd.toNat = decimal cs :=
      UInt32.toNat_ofNat_of_lt' hcs.lt
    have ho' : (seekto cs os).writeCmdOffset.toNat = decimal os :=
      UInt32.toNat_ofNat_of_lt' hos.lt
    have hsplit : kept.flatten =
        (kept.take (decimal cs)).flatten ++ (kept.drop (decimal cs)).flatten := by
      rw [← List.flatten_append, List.take_append_drop]
    rw [hc, ho', ← List.drop_drop, reply, hsplit, ← List.map_take, ← List.length_flatten,
      List.drop_left]

/-- One round of the loop that reads the reply. -/
theorem exists_step_readLoop (r : Request) (hl : l.Sized) (fd : ℕ) {o : Outcome} {data : List Byte}
    (hdata : o.read = data) (hle : data.length ≤ l.bufferSize) :
    ∃ l' : Locals, l'.Sized ∧ (r.readLoop l fd).step o =
      .ok (.read fd l.bufferSize data, if data = [] then calls (.closeFile fd :: r.lastCalls) ret
        else call (.send data) (r.readLoop l' fd)) := by
  have hall : o.read.take l.bufferSize = data := by
    rw [hdata]
    exact List.take_of_length_le hle
  cases r with
  | line m =>
    refine ⟨l.store 0 data, hl.store hle, ?_⟩
    rw [readLoop, Code.step, hall]
    split
    · rename_i hnil
      rw [hnil]
      rfl
    · rw [hl.take_store hle]
      rfl
  | seek cs os =>
    refine ⟨l, hl, ?_⟩
    rw [readLoop, Code.step, hall]
    split
    · rename_i hnil
      rw [hnil]
      rfl
    · rfl

/-- The last calls unlock the mutex and send nothing. -/
theorem mem_lastCalls {a : Action} (h : a ∈ r.lastCalls) :
    a = .unlock ∨ ((Event.call a).role = .other ∧ (Event.call a).sent = none) := by
  cases r <;> simp only [lastCalls, List.mem_cons, List.not_mem_nil, or_false] at h <;>
    rcases h with rfl | rfl | rfl | rfl | rfl <;> simp [Event.role, Event.sent]

/-- None of them is a call on the device. -/
theorem op_of_mem_lastCalls {a : Action} (h : a ∈ r.lastCalls) (next : Code) (c : Choice) :
    (call a next).op c = none := by
  cases r <;> simp only [lastCalls, List.mem_cons, List.not_mem_nil, or_false] at h <;>
    rcases h with rfl | rfl | rfl | rfl | rfl <;> rfl

/-- Each is made once. -/
theorem nodup_lastCalls (r : Request) : r.lastCalls.Nodup := by
  cases r <;> simp [lastCalls]

theorem unlock_mem_lastCalls (r : Request) : .unlock ∈ r.lastCalls := by
  cases r <;> simp [lastCalls]

theorem length_lastCalls (r : Request) : r.lastCalls.length = 5 := by
  cases r <;> rfl

end Request

/-! ### One call -/

section Act

variable {r : Request} {chunks cmds inbox : List (List Byte)} {stored : Bool}
  {given : Option (List Byte)} {sys : System} {code : Code} {sent : List Byte} {left : ℕ}
  {c : Choice}

/-- **A call outside**: the thread has returned, or it stays outside, or it enters a critical
section. -/
theorem Outside.act (hsends : r.Sends chunks)
    (h : Outside r chunks stored given code inbox sent left) (hc : c.Grants) (sys : System) :
    code = ret ∨ ∃ e code', Aesd.act sys ⟨code, inbox⟩ c = .ok (e, sys, ⟨code', inbox⟩) ∧
      e.sent = none ∧ ∃ left' < left,
        ((e.role = .other ∧ Outside r chunks stored given code' inbox sent left') ∨
          (e.role = .lock ∧ given = none ∧
            ∀ cmds, Idle sys cmds → Inside r cmds stored sys code' inbox sent left')) := by
  cases h with
  | accepted =>
    refine Or.inr ⟨_, _, act_call rfl, rfl, _, ?_, Or.inl ⟨rfl, .allocating⟩⟩
    rw [Request.steps]
    omega
  | allocating =>
    obtain ⟨junk, halloc⟩ := Option.isSome_iff_exists.1 hc.alloc
    have hstep : Code.malloc.step ((⟨Code.malloc, chunks⟩ : Conn).outcome c ⟨0, []⟩) =
        .ok (.malloc 1024 true, call .lock (recv ⟨resize [] 1024 junk, 1024, 0⟩)) := by
      rw [Code.step, Conn.outcome, halloc]
    exact Or.inr ⟨_, _, act_of_no_op rfl hstep rfl, rfl, _, by omega, Or.inl ⟨rfl, .entering junk⟩⟩
  | entering junk =>
    refine Or.inr ⟨_, _, act_call rfl, rfl, _, ?_,
      Or.inr ⟨rfl, rfl, fun cmds hsys ↦ .receiving hsys (hsends.awaits junk)⟩⟩
    rw [List.length_nil]
    omega
  | between hr hl =>
    exact Or.inr ⟨_, _, act_call rfl, rfl, _, by omega,
      Or.inr ⟨rfl, rfl, fun cmds hsys ↦ .opening hr hsys hl⟩⟩
  | @ending acts inbox sent hacts hunlock =>
    rcases acts with - | ⟨a, acts⟩
    · exact Or.inl rfl
    · have hmem : a ∈ r.lastCalls := hacts.subset List.mem_cons_self
      rw [List.mem_cons, not_or] at hunlock
      obtain rfl | ⟨hrole, hsent⟩ := Request.mem_lastCalls hmem
      · exact absurd rfl hunlock.1
      · exact Or.inr ⟨_, _, act_call (Request.op_of_mem_lastCalls hmem _ c), hsent, _,
          Nat.lt_succ_self _,
          Or.inl ⟨hrole, .ending ((List.suffix_cons a acts).trans hacts) hunlock.2⟩⟩

/-- A call inside a critical section leads to another place inside, or the thread leaves. -/
def Proceeds (r : Request) (chunks cmds : List (List Byte)) (stored : Bool) (sent : List Byte)
    (left : ℕ) (e : Event) (sys : System) (conn : Conn) : Prop :=
  ∃ left' < left,
    (e.role = .other ∧
        Inside r cmds stored sys conn.code conn.inbox (sent ++ e.sent.getD []) left') ∨
      (e.role = .unlock ∧
        Leaves r chunks cmds stored sys conn.code conn.inbox (sent ++ e.sent.getD []) left')

/-- A call that sends nothing and stays inside. -/
theorem Proceeds.of_inside {e : Event} {conn : Conn} {left' : ℕ} (hrole : e.role = .other)
    (hsent : e.sent = none) (hleft : left' < left)
    (h : Inside r cmds stored sys conn.code conn.inbox sent left') :
    Proceeds r chunks cmds stored sent left e sys conn := by
  refine ⟨left', hleft, Or.inl ⟨hrole, ?_⟩⟩
  rwa [hsent, Option.getD_none, List.append_nil]

/-- The end of the body of the receive loop, with all of the request or part of it. -/
theorem inside_scan (hsends : r.Sends chunks) (hsys : Idle sys cmds) {l : Locals} {got : List Byte}
    (hready : l.Ready got) (hne : got ≠ []) (hgot : got = r.bytes ∨ r.Part got inbox) :
    ∃ left' ≤ 2 * (r.bytes.length - got.length) + 2 * ringLimit + 14,
      Inside r cmds false sys (scan l) inbox [] left' := by
  rcases hgot with rfl | hpart
  · rw [Request.scan_of_bytes hsends hready.toContains]
    exact ⟨_, by omega, .entry hsys hready⟩
  · rw [Request.scan_of_part hsends hready.toContains hne hpart]
    exact ⟨_, Nat.le_refl _, .receiving hsys ⟨hready, Or.inl hpart⟩⟩

/-- **`recv`** in the receive loop. -/
theorem exists_act_receiving (hsends : r.Sends chunks) (hsys : Idle sys cmds) {l : Locals}
    {got : List Byte} (h : r.Awaits l got inbox) :
    ∃ e sys' conn, act sys ⟨recv l, inbox⟩ c = .ok (e, sys', conn) ∧
      Proceeds r chunks cmds false [] (2 * (r.bytes.length - got.length) + 2 * ringLimit + 14) e
        sys' conn := by
  obtain ⟨hne, hnext⟩ := h.recv hsends
  have hlt := h.length_lt hsends
  have hact := act_recv sys l inbox c
  have hle : ((inbox.head?.getD []).take (asked l)).length ≤ asked l := List.length_take_le ..
  rw [if_neg hne] at hact
  generalize (inbox.head?.getD []).take (asked l) = data at hne hnext hact hle
  have hpos := List.length_pos_iff.2 hne
  have hlen : (got ++ data).length = got.length + data.length := List.length_append
  refine ⟨_, _, _, hact, ?_⟩
  obtain ⟨l', -, ⟨hcode, hready⟩ | ⟨hcode, hfull⟩⟩ := h.1.received hne hle
  · obtain ⟨left', hleft, hinside⟩ := inside_scan hsends hsys hready
      (List.append_ne_nil_of_right_ne_nil got hne) hnext
    rw [hcode]
    exact .of_inside rfl rfl (by omega) hinside
  · rw [hcode]
    exact .of_inside rfl rfl (by omega) (.growing hsys hfull hnext)

/-- **`realloc`** in the receive loop. -/
theorem exists_act_growing (hsends : r.Sends chunks) (hc : c.Grants) (hsys : Idle sys cmds)
    {l : Locals} {got : List Byte} (h : l.Full got) (hgot : got = r.bytes ∨ r.Part got inbox) :
    ∃ e sys' conn, act sys ⟨realloc l, inbox⟩ c = .ok (e, sys', conn) ∧
      Proceeds r chunks cmds false [] (2 * (r.bytes.length - got.length) + 2 * ringLimit + 15) e
        sys' conn := by
  obtain ⟨junk, halloc⟩ := Option.isSome_iff_exists.1 hc.alloc
  have hle : l.bufferSize ≤ mallocMaxSize := by
    have hshort := hsends.length_le
    have hpart : got.length ≤ r.bytes.length := by
      rcases hgot with rfl | hpart
      · exact Nat.le_refl _
      · exact Nat.le_of_lt hpart.length_lt
    have hlimit : maxRwCount * 2 + 2 ≤ mallocMaxSize := by decide
    rw [h.size_eq, ← h.full]
    omega
  have hstep : (realloc l).step ((⟨realloc l, inbox⟩ : Conn).outcome c ⟨0, []⟩) =
      .ok (.realloc l.bufferSize true,
        scan { l with buffer := resize l.buffer l.bufferSize junk }) := by
    rw [Code.step, Conn.outcome, halloc]
    exact if_pos hle
  obtain ⟨left', hleft, hinside⟩ := inside_scan hsends hsys (h.realloc hle junk) h.ne_nil hgot
  exact ⟨_, _, _, act_of_no_op rfl hstep rfl, .of_inside rfl rfl (by omega) hinside⟩

/-- **`open`** at the end of the receive loop. -/
theorem exists_act_entry (hc : c.Grants) (hsys : Idle sys cmds) {l : Locals}
    (h : l.Ready r.bytes) :
    ∃ e sys' conn, act sys ⟨r.entry l, inbox⟩ c = .ok (e, sys', conn) ∧
      Proceeds r chunks cmds false [] (2 * ringLimit + 14) e sys' conn := by
  obtain ⟨fd, hfd, hop⟩ := hc.exists_fd
  obtain ⟨sys', hopen, husing⟩ := hsys.openFile fd
  cases r with
  | line m =>
    have hstep : (openWrite l).step ((⟨openWrite l, inbox⟩ : Conn).outcome c ⟨0, []⟩) =
        .ok (.openFilePath (some fd), write l fd) := by
      rw [Code.step, Conn.outcome, if_pos rfl, hfd]
    exact ⟨_, _, _, act_of_op hop hopen hstep rfl,
      .of_inside rfl rfl (by omega) (.writing rfl husing h)⟩
  | seek cs os =>
    have hstep : (openIoctl l (Request.seekto cs os)).step
        ((⟨openIoctl l (Request.seekto cs os), inbox⟩ : Conn).outcome c ⟨0, []⟩) =
        .ok (.openDevice (some fd), ioctl l fd (Request.seekto cs os)) := by
      rw [Code.step, Conn.outcome, if_pos rfl, hfd]
    exact ⟨_, _, _, act_of_op hop hopen hstep rfl,
      .of_inside rfl rfl (by omega) (.seeking rfl husing h.sized)⟩

/-- **`write`** commits the line. -/
theorem exists_act_writing (hsends : r.Sends chunks) (hc : c.Grants) (hr : r.isLine = true) {fd : ℕ}
    (hsys : Using sys cmds fd 0) {l : Locals} (h : l.Ready r.bytes) :
    ∃ e sys' conn, act sys ⟨write l fd, inbox⟩ c = .ok (e, sys', conn) ∧
      Proceeds r chunks cmds false [] (2 * ringLimit + 13) e sys' conn := by
  have hall : (userBuf (l.buffer.take l.totalReceived)).bytes = r.bytes := by
    rw [h.toContains.take_eq]
    exact List.take_of_length_le hsends.length_le
  have hmem : newline ∈ (userBuf (l.buffer.take l.totalReceived)).bytes := by
    rw [hall]
    exact hsends.newline_mem
  obtain ⟨sys', hwrite, husing⟩ := hsys.write hmem hc.outcome
  rw [hall] at husing
  have hop : (write l fd).op c =
      some (.write fd (userBuf (l.buffer.take l.totalReceived)) c.outcome) := rfl
  exact ⟨_, _, _, act_of_op hop hwrite rfl rfl,
    .of_inside rfl rfl (by omega) (.syncing hr husing h.sized)⟩

/-- **`ioctl`** goes where the reply begins. -/
theorem exists_act_seeking (hc : c.Grants) {cs os : List Byte} (hr : r = .seek cs os) {fd : ℕ}
    (hsys : Using sys cmds fd 0) {l : Locals} (hl : l.Sized)
    (hvalid : (seekTarget sys.kernel.commands (Request.seekto cs os)).isSome) :
    ∃ e sys' conn, act sys ⟨ioctl l fd (Request.seekto cs os), inbox⟩ c = .ok (e, sys', conn) ∧
      Proceeds r chunks cmds false [] (2 * ringLimit + 8) e sys' conn := by
  subst hr
  obtain ⟨b, hb⟩ := Option.isSome_iff_exists.1 hvalid
  rw [hsys.represents.kernel.commands_eq] at hb
  obtain ⟨sys', hioctl, husing, hlt⟩ := hsys.ioctl hb
  have hlimit := length_flatten_rtake_le hsys.short
  rw [← hc.uncopied] at hioctl
  have hop : (ioctl l fd (Request.seekto cs os)).op c =
      some (.ioctl fd aesdcharIocseekto (Request.seekto cs os) c.uncopied) := rfl
  refine ⟨_, _, _, act_of_op hop hioctl rfl rfl,
    .of_inside rfl rfl ?_ (.reading husing hl hb (Nat.le_refl b) (Nat.le_of_lt hlt) rfl)⟩
  omega

/-- **`read`**: there is more to send, or all has been sent. -/
theorem exists_act_reading (hsends : r.Sends chunks) (hc : c.Grants) {fd b p : ℕ}
    (hsys : Using sys cmds fd p) {l : Locals} (hl : l.Sized) (hb : r.Begins (cmds.rtake 10) b)
    (hbp : b ≤ p) (hp : p ≤ (cmds.rtake 10).flatten.length)
    (hsent : sent ++ (cmds.rtake 10).flatten.drop p = (cmds.rtake 10).flatten.drop b) :
    ∃ e sys' conn, act sys ⟨r.readLoop l fd, inbox⟩ c = .ok (e, sys', conn) ∧
      Proceeds r chunks cmds r.isLine sent (2 * ((cmds.rtake 10).flatten.length - p) + 7) e sys'
        conn := by
  have hlimit := length_flatten_rtake_le hsys.short
  have hbound : p < 2 ^ 63 := Nat.lt_of_le_of_lt (hp.trans hlimit) ringLimit_lt
  obtain ⟨sys', hread, husing⟩ := hsys.read hbound (min l.bufferSize maxRwCount)
  have hle := length_readPiece_le (cmds.rtake 10) p (min l.bufferSize maxRwCount)
  have hcount : min l.bufferSize maxRwCount ≠ 0 := by
    have hpos := hl.pos
    have hmax : 0 < maxRwCount := by decide
    omega
  have hnil : readPiece (cmds.rtake 10) p (min l.bufferSize maxRwCount) = [] ↔
      (cmds.rtake 10).flatten.length ≤ p := by
    rw [readPiece_eq_nil_iff, or_iff_left hcount]
  have hnext := readPiece_append (cmds.rtake 10) p (min l.bufferSize maxRwCount)
  have hinside : readPiece (cmds.rtake 10) p (min l.bufferSize maxRwCount) ≠ [] → _ :=
    add_length_readPiece_le
  generalize readPiece (cmds.rtake 10) p (min l.bufferSize maxRwCount) = piece at *
  have hop : (r.readLoop l fd).op c = some (.read fd (min l.bufferSize maxRwCount) 0) := by
    cases r <;> rw [← hc.uncopied] <;> rfl
  have hdata :
      ((⟨r.readLoop l fd, inbox⟩ : Conn).outcome c ⟨piece.length, piece⟩).read = piece := rfl
  obtain ⟨l', hl', hstep⟩ :=
    r.exists_step_readLoop hl fd hdata (hle.trans (Nat.min_le_left _ _))
  refine ⟨_, _, _, act_of_op hop hread hstep rfl, ?_⟩
  rcases eq_or_ne piece [] with rfl | hne
  · -- everything has been sent
    have hend := hnil.1 rfl
    rw [List.drop_eq_nil_of_le hend, List.append_nil, hb.drop_eq hsends] at hsent
    rw [if_pos rfl, hsent]
    exact .of_inside rfl rfl (by omega) (.closingFile husing)
  · have hpos := List.length_pos_iff.2 hne
    have hq := hinside hne
    rw [if_neg hne]
    refine .of_inside rfl rfl ?_ (.sending husing hl' hb (by omega) hq ?_)
    · omega
    · rw [List.append_assoc, hnext, hsent]

/-- **The calls after the file is closed**, up to the `unlock`. -/
theorem exists_act_finishing (hsys : Idle sys cmds) {acts : List Action}
    (hacts : acts <:+ r.lastCalls) (hunlock : .unlock ∈ acts) :
    ∃ e sys' conn, act sys ⟨calls acts ret, inbox⟩ c = .ok (e, sys', conn) ∧
      Proceeds r chunks cmds r.isLine (r.reply (cmds.rtake 10)) acts.length e sys' conn := by
  obtain ⟨a, acts, rfl⟩ := List.exists_cons_of_ne_nil (List.ne_nil_of_mem hunlock)
  have hmem : a ∈ r.lastCalls := hacts.subset List.mem_cons_self
  have hrest : acts <:+ r.lastCalls := (List.suffix_cons a acts).trans hacts
  refine ⟨_, _, _, act_call (Request.op_of_mem_lastCalls hmem _ c), acts.length,
    Nat.lt_succ_self _, ?_⟩
  obtain rfl | ⟨hrole, hsent⟩ := Request.mem_lastCalls hmem
  · -- the only `unlock` there is
    have hnodup := (r.nodup_lastCalls).sublist hacts.sublist
    refine Or.inr ⟨rfl, ?_⟩
    rw [show (Event.call Action.unlock).sent.getD [] = [] from rfl, List.append_nil]
    exact .replied hsys (.ending hrest (List.nodup_cons.1 hnodup).1)
  · have hne : a ≠ .unlock := by
      rintro rfl
      exact absurd hrole (by decide)
    refine Or.inl ⟨hrole, ?_⟩
    rw [hsent, Option.getD_none, List.append_nil]
    exact .finishing hsys hrest ((List.mem_cons.1 hunlock).resolve_left hne.symm)

/-- **A call inside a critical section** succeeds and leads on. -/
theorem Inside.act (hsends : r.Sends chunks) (h : Inside r cmds stored sys code inbox sent left)
    (hc : c.Grants)
    (hvalid : ∀ l fd seekto, code = .ioctl l fd seekto →
      (seekTarget sys.kernel.commands seekto).isSome) :
    ∃ e sys' conn, Aesd.act sys ⟨code, inbox⟩ c = .ok (e, sys', conn) ∧
      Proceeds r chunks cmds stored sent left e sys' conn := by
  cases h with
  | receiving hsys h => exact exists_act_receiving hsends hsys h
  | growing hsys h hgot => exact exists_act_growing hsends hc hsys h hgot
  | entry hsys h => exact exists_act_entry hc hsys h
  | writing hr hsys h => exact exists_act_writing hsends hc hr hsys h
  | syncing hr hsys hl =>
    exact ⟨_, _, _, act_call rfl, .of_inside rfl rfl (by omega) (.closing hr hsys hl)⟩
  | @closing sys l fd p inbox hr hsys hl =>
    obtain ⟨sys', hclose, hidle⟩ := hsys.release
    exact ⟨_, _, _, act_closeFile hclose, .of_inside rfl rfl (by omega) (.leaving hr hidle hl)⟩
  | leaving hr hsys hl =>
    exact ⟨_, _, _, act_call rfl, _, by omega,
      Or.inr ⟨rfl, .stored hr hsys (.between hr hl)⟩⟩
  | @opening sys l inbox hr hsys hl =>
    obtain ⟨fd, hfd, hop⟩ := hc.exists_fd
    obtain ⟨sys', hopen, husing⟩ := hsys.openFile fd
    have hlimit := length_flatten_rtake_le hsys.short
    cases r with
    | line m =>
      have hstep : (openRead l).step ((⟨openRead l, inbox⟩ : Conn).outcome c ⟨0, []⟩) =
          .ok (.openDevice (some fd), readBack l fd) := by
        rw [Code.step, Conn.outcome, if_pos rfl, hfd]
      refine ⟨_, _, _, act_of_op hop hopen hstep rfl, .of_inside rfl rfl ?_
        (.reading (r := .line m) husing hl rfl (Nat.le_refl 0) (Nat.zero_le _) rfl)⟩
      omega
    | seek cs os => exact absurd hr Bool.false_ne_true
  | seeking hr hsys hl => exact exists_act_seeking hc hr hsys hl (hvalid _ _ _ rfl)
  | reading hsys hl hb hbp hp hsent => exact exists_act_reading hsends hc hsys hl hb hbp hp hsent
  | sending hsys hl hb hbp hp hsent =>
    refine ⟨_, _, _, act_call rfl, _, Nat.lt_succ_self _, Or.inl ⟨rfl, ?_⟩⟩
    exact .reading hsys hl hb hbp hp hsent
  | @closingFile sys fd p inbox hsys =>
    obtain ⟨sys', hclose, hidle⟩ := hsys.release
    refine ⟨_, _, _, act_closeFile hclose,
      .of_inside rfl rfl ?_ (.finishing hidle (List.suffix_refl _) r.unlock_mem_lastCalls)⟩
    rw [r.length_lastCalls]
    omega
  | finishing hsys hacts hunlock => exact exists_act_finishing hsys hacts hunlock

end Act

end Aesd
