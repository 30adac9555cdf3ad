import Aesd.Driver.System
import Aesd.Server.Receive

/-!
# The server on the device

The threads of any number of connections, `aesdsocket_mutex` and the device together, in the build
in which `FILE_PATH` is the device. The threads take their calls in any order. A call on the
device is the operation of the driver (`Code.op`), and `recv` takes what has arrived on the
connection. What neither the server nor the driver decides is a `Choice`: which allocations are
granted, whether `open` is refused and which descriptor it returns otherwise, what the services
inside the driver do.

A thread in this world takes a run it could take alone (`exists_run_own`), so what is known of
every run of `threadfunc` is known of every thread here. What it has received and what is still to
come are together what its client sent (`receivedBytes_append_inbox`). And only its `write`
changes the log of the device (`represents_of_device`).

Nobody but the server uses the device.
-/

namespace Aesd

open Framing Execution MutualExclusion

/-- A connection: its thread, and what its client has sent, chunk by chunk, and the thread has not
received. With nothing left the client has closed. -/
structure Conn where
  code : Code
  inbox : List (List Byte)

/-- What is left open in a call. -/
structure Choice where
  /-- `malloc` and `realloc`. -/
  alloc : Option Junk
  /-- `open`: refused, which never gets to the driver, or the descriptor that is returned, if it is
  not in use. -/
  fd : Option ℕ
  /-- The bytes that a copy to or from user memory leaves uncopied in `read` and `ioctl`. -/
  uncopied : ℕ
  /-- The services in `aesd_write`. -/
  outcome : WriteOutcome

/-- Everything is granted and copied. -/
def Choice.granting (fd : ℕ) : Choice :=
  ⟨some fun _ ↦ 0, some fd, 0, .granting⟩

/-- What `write` passes to the driver of a buffer. -/
def userBuf (bytes : List Byte) : UserBuf :=
  ⟨bytes.take maxRwCount, List.length_take_le ..⟩

/-- The operation on the device that the next call is. -/
def Code.op (code : Code) (c : Choice) : Option Op :=
  match code with
  | .openIoctl _ _ | .openWrite _ | .openRead _ => c.fd.map .openFile
  | .ioctl _ fd seekto => some (.ioctl fd aesdcharIocseekto seekto c.uncopied)
  | .readIoctl l fd | .readBack l fd => some (.read fd (min l.bufferSize maxRwCount) c.uncopied)
  | .write l fd => some (.write fd (userBuf (l.buffer.take l.totalReceived)) c.outcome)
  | .call (.closeFile fd) _ => some (.release fd)
  | _ => none

/-- What the next call answers if the device answers `a`. -/
def Conn.outcome (conn : Conn) (c : Choice) (a : Answer) : Outcome :=
  ⟨c.alloc, conn.inbox.head?.getD [], if a.ret = 0 then c.fd else none, decide (0 ≤ a.ret), a.data⟩

/-- What the device does in the next call. -/
def Code.device (code : Code) (sys : System) (c : Choice) : Except Stop (Answer × System) :=
  match code.op c with
  | none => .ok (⟨0, []⟩, sys)
  | some op => Aesd.step stayPut sys op

/-- What is left to receive after `n` bytes of the first chunk. -/
def consume (n : ℕ) : List (List Byte) → List (List Byte)
  | [] => []
  | chunk :: inbox => if chunk.length ≤ n then inbox else chunk.drop n :: inbox

/-- The connection after a call. -/
def Conn.after (conn : Conn) (e : Event) (code : Code) : Conn :=
  ⟨code, match e.delivered with
    | none => conn.inbox
    | some data => consume data.length conn.inbox⟩

/-- One call of a thread in surroundings of which `answer` is what they do in the call. -/
def actIn {δ : Type} (answer : Code → δ → Choice → Except Stop (Answer × δ)) (env : δ) (conn : Conn)
    (c : Choice) : Except Stop (Event × δ × Conn) :=
  match answer conn.code env c with
  | .error stop => .error stop
  | .ok (a, env) =>
    match conn.code.step (conn.outcome c a) with
    | .error stop => .error stop
    | .ok (e, code) => .ok (e, env, conn.after e code)

/-- One call of a thread on the device. -/
def act : System → Conn → Choice → Except Stop (Event × System × Conn) :=
  actIn Code.device

/-- An operation on the device, where the device is a part of the surroundings. -/
def onDeviceOf {δ : Type} (device : δ → System) (put : δ → System → δ) (env : δ) (op : Op) :
    Except Stop (Answer × δ) :=
  match Aesd.step stayPut (device env) op with
  | .error stop => .error stop
  | .ok (a, sys) => .ok (a, put env sys)

/-- The server and the device. -/
abbrev World := Shared System Conn

/-- One call of one of the threads. -/
def serve : World → ℕ × Choice → Except Stop ((ℕ × Event) × World) :=
  MutualExclusion.step act Event.role .blocked

/-- The fresh device, and a thread for each connection. -/
def start (inboxes : ℕ → List (List Byte)) : World :=
  ⟨.init, none, fun i ↦ ⟨.threadfunc, inboxes i⟩⟩

/-- What a call sends to the client. -/
def Event.sent : Event → Option (List Byte)
  | .call (.send data) => some data
  | _ => none

/-- The reply the thread has sent. -/
def sentBytes (events : List Event) : List Byte :=
  (events.filterMap Event.sent).flatten

theorem sentBytes_concat (events : List Event) (e : Event) :
    sentBytes (events ++ [e]) = sentBytes events ++ e.sent.getD [] := by
  rw [sentBytes, List.filterMap_append, List.flatten_append]
  rcases hdata : e.sent with - | data <;> simp [hdata, sentBytes]

section Steps

variable {sys sys' : System} {conn conn' : Conn} {c : Choice} {e : Event} {w w' : World}
  {trace : List (ℕ × Event)} {x : ℕ × Choice} {y : ℕ × Event}

/-- **What one call of a thread is.** -/
theorem actIn_cases {δ : Type} {answer : Code → δ → Choice → Except Stop (Answer × δ)}
    {env env' : δ} (h : actIn answer env conn c = .ok (e, env', conn')) :
    ∃ a code, answer conn.code env c = .ok (a, env') ∧
      conn.code.step (conn.outcome c a) = .ok (e, code) ∧ conn' = conn.after e code := by
  rw [actIn] at h
  rcases hanswer : answer conn.code env c with stop | ⟨a, env₁⟩
  · simp [hanswer] at h
  · rcases hstep : conn.code.step (conn.outcome c a) with stop | ⟨e₁, code⟩
    · simp [hanswer, hstep] at h
    · simp only [hanswer, hstep, Except.ok.injEq, Prod.mk.injEq] at h
      obtain ⟨rfl, rfl, rfl⟩ := h
      exact ⟨a, code, rfl, hstep, rfl⟩

/-- The thread makes the call that its surroundings and its code agree on. -/
theorem actIn_of_ok (conn : Conn) {δ : Type} {answer : Code → δ → Choice → Except Stop (Answer × δ)}
    {env env' : δ} {a : Answer} {code : Code} (hanswer : answer conn.code env c = .ok (a, env'))
    (hstep : conn.code.step (conn.outcome c a) = .ok (e, code)) :
    actIn answer env conn c = .ok (e, env', conn.after e code) := by
  simp only [actIn, hanswer, hstep]

theorem act_cases (h : act sys conn c = .ok (e, sys', conn')) :
    ∃ a code, conn.code.device sys c = .ok (a, sys') ∧
      conn.code.step (conn.outcome c a) = .ok (e, code) ∧ conn' = conn.after e code :=
  actIn_cases h

/-- What an operation on the device did. -/
theorem onDeviceOf_cases {δ : Type} {device : δ → System} {put : δ → System → δ} {env env' : δ}
    {op : Op} {a : Answer} (h : onDeviceOf device put env op = .ok (a, env')) :
    ∃ sys, Aesd.step stayPut (device env) op = .ok (a, sys) ∧ env' = put env sys := by
  rw [onDeviceOf] at h
  split at h
  · cases h
  · rename_i hdevice
    obtain ⟨rfl, rfl⟩ := Prod.mk.inj (Except.ok.inj h)
    exact ⟨_, hdevice, rfl⟩

/-- **What one call is in the world**: the call of one thread; the mutex lets it happen, and the
other threads are where they were. -/
theorem serve_cases (h : serve w x = .ok (y, w')) :
    ∃ a code, (w.proc x.1).code.device w.env x.2 = .ok (a, w'.env) ∧
      (w.proc x.1).code.step ((w.proc x.1).outcome x.2 a) = .ok (y.2, code) ∧ y.1 = x.1 ∧
      w'.proc = Function.update w.proc x.1 ((w.proc x.1).after y.2 code) ∧
      ((y.2.role = .lock ∧ w.owner = none ∧ w'.owner = some x.1) ∨
        (y.2.role = .unlock ∧ w'.owner = none) ∨
        (y.2.role = .other ∧ w'.owner = w.owner)) := by
  obtain ⟨e, env, p, hact, rfl, rfl, hproc, howner⟩ := step_cases h
  obtain ⟨a, code, hdevice, hstep, rfl⟩ := act_cases hact
  exact ⟨a, code, hdevice, hstep, rfl, hproc, howner⟩

/-- A call of the device changes the log as its operation does. -/
theorem represents_of_device {s : Log Byte} {code : Code} {a : Answer} (h : sys.Represents s)
    (hdevice : code.device sys c = .ok (a, sys')) :
    sys'.Represents ((code.op c).elim s fun op ↦ op.log sys s) := by
  rw [Code.device] at hdevice
  rcases hop : code.op c with - | op
  · simp only [hop] at hdevice
    obtain ⟨-, rfl⟩ := Prod.mk.inj (Except.ok.inj hdevice)
    exact h
  · simp only [hop] at hdevice
    exact h.step hdevice

/-- What `recv` takes of the first chunk, and what is left. -/
theorem take_append_consume (n : ℕ) (inbox : List (List Byte)) :
    (inbox.head?.getD []).take n ++
      (consume ((inbox.head?.getD []).take n).length inbox).flatten = inbox.flatten := by
  rcases inbox with - | ⟨chunk, inbox⟩
  · rw [List.head?_nil, Option.getD_none, List.take_nil]
    rfl
  · rw [List.head?_cons, Option.getD_some, consume, List.length_take]
    split
    · rename_i hall
      rw [List.take_of_length_le (by omega), List.flatten_cons]
    · rename_i hpart
      rw [List.flatten_cons, List.flatten_cons, ← List.append_assoc, Nat.min_eq_left (by omega),
        List.take_append_drop]

/-- What is received in a call, and what is left. -/
theorem Conn.delivered_append_after (conn : Conn) {a : Answer} {code : Code}
    (hstep : conn.code.step (conn.outcome c a) = .ok (e, code)) :
    e.delivered.getD [] ++ (conn.after e code).inbox.flatten = conn.inbox.flatten := by
  rw [Conn.after]
  rcases hdata : e.delivered with - | data
  · rfl
  · obtain ⟨n, rfl⟩ := Code.exists_take_of_delivered hstep hdata
    exact take_append_consume n conn.inbox

/-- Only a `write` of the thread is a write of the device. -/
theorem write_or_log_eq {code code' : Code} {o : Outcome} (hstep : code.step o = .ok (e, code')) :
    (∃ l fd, code = .write l fd ∧ e = .write fd (l.buffer.take l.totalReceived)) ∨
      ((∀ fd bytes, e ≠ .write fd bytes) ∧
        ∀ c (s : Log Byte), ((code.op c).elim s fun op ↦ op.log sys s) = s) := by
  cases Code.step_cases hstep with
  | write l fd => exact Or.inl ⟨l, fd, rfl, rfl⟩
  | call a next =>
    refine Or.inr ⟨by simp, fun c s ↦ ?_⟩
    cases a <;> rfl
  | openIoctl | openIoctlFails | openWrite | openWriteFails | openRead | openReadFails =>
    -- refused or not, an `open` leaves the log alone
    refine Or.inr ⟨by simp, fun c s ↦ ?_⟩
    rcases hfd : c.fd with - | fd <;> simp [Code.op, hfd, Op.log]
  | _ => exact Or.inr ⟨by simp, fun c s ↦ rfl⟩

end Steps

section Runs

variable {inboxes : ℕ → List (List Byte)} {xs : List (ℕ × Choice)} {trace : List (ℕ × Event)}
  {w : World}

/-- What holds of every thread at the start and is kept by its own calls. -/
theorem forall_thread_of_run {I : ℕ → List Event → Conn → Prop}
    (hstart : ∀ i, I i [] ⟨.threadfunc, inboxes i⟩)
    (hstep : ∀ i events conn c a e code, I i events conn →
      conn.code.step (conn.outcome c a) = .ok (e, code) → I i (events ++ [e]) (conn.after e code))
    (h : run serve (start inboxes) xs = .ok (trace, w)) (i : ℕ) : I i (own i trace) (w.proc i) := by
  refine history_of_run (I := fun trace (w : World) ↦ ∀ i, I i (own i trace) (w.proc i)) ?_ ?_ h i
  · rintro trace w ⟨j, c⟩ ⟨j', e⟩ w' hI hserve i
    obtain ⟨a, code, -, hcode, hj, hproc, -⟩ := serve_cases hserve
    obtain rfl : j' = j := hj
    rw [hproc]
    rcases eq_or_ne j' i with rfl | hne
    · rw [own_concat_self, Function.update_self]
      exact hstep j' _ _ c a e code (hI j') hcode
    · rw [own_concat_of_ne hne, Function.update_of_ne hne.symm]
      exact hI i
  · exact hstart

/-- **A thread takes a run it could take alone.** -/
theorem exists_run_own (h : run serve (start inboxes) xs = .ok (trace, w)) (i : ℕ) :
    ∃ os, run Code.step Code.threadfunc os = .ok (own i trace, (w.proc i).code) := by
  refine forall_thread_of_run
    (I := fun _ events conn ↦ ∃ os, run Code.step Code.threadfunc os = .ok (events, conn.code))
    (fun _ ↦ ⟨[], rfl⟩) ?_ h i
  rintro - events conn c a e code ⟨os, hrun⟩ hcode
  exact ⟨os ++ [conn.outcome c a],
    run_append_eq_ok_iff.2 ⟨events, conn.code, [e], hrun, run_cons_of_ok hcode rfl, rfl⟩⟩

/-- **What was received and what is still to come** is what the client sent. -/
theorem receivedBytes_append_inbox (h : run serve (start inboxes) xs = .ok (trace, w)) (i : ℕ) :
    receivedBytes (own i trace) ++ (w.proc i).inbox.flatten = (inboxes i).flatten := by
  refine forall_thread_of_run (I := fun i events conn ↦
      receivedBytes events ++ conn.inbox.flatten = (inboxes i).flatten) (fun _ ↦ rfl) ?_ h i
  rintro i events conn c a e code hI hcode
  rw [receivedBytes_concat, List.append_assoc, Conn.delivered_append_after conn hcode, hI]

/-- The device represents a log, always. -/
theorem exists_represents_of_run (h : run serve (start inboxes) xs = .ok (trace, w)) :
    ∃ s, w.env.Represents s := by
  refine invariant_of_run (I := fun w : World ↦ ∃ s, w.env.Represents s) ?_
    ⟨Log.empty, System.represents_init⟩ h
  rintro w x y w' ⟨s, hs⟩ hserve
  obtain ⟨a, code, hdevice, -⟩ := serve_cases hserve
  exact ⟨_, represents_of_device hs hdevice⟩

end Runs

end Aesd
