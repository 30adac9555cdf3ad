import Aesd.Server.Finish
import Aesd.Service.World

/-!
# Whose files are open

The descriptors that a thread has open (`Code.descriptors`) are a function of where it is: a step
adds what it opens at the end and takes what it closes from the front (`Code.Step.descriptors_eq`).
The kernel gives out a descriptor only if it is not in use, so the open files of the device are the
descriptors of the threads, each of one thread only (`FilesPrivate`), in every run and whatever
fails. In particular no thread moves the position of a file that another one reads.
-/

namespace Aesd

open Execution MutualExclusion

/-- The descriptors that the thread has open. -/
def Code.descriptors : Code → List ℕ
  | .call (.closeFile fd) next => fd :: next.descriptors
  | .call _ next => next.descriptors
  | .ioctl _ fd _ | .readIoctl _ fd | .write _ fd | .readBack _ fd => [fd]
  | _ => []

/-- The next call is an `open`. -/
def Code.opens : Code → Bool
  | openIoctl _ _ | openWrite _ | openRead _ => true
  | _ => false

/-- The open file that a call on the device is about. -/
def Op.file : Op → ℕ
  | .openFile f | .release f | .read f _ _ | .write f _ _ | .llseek f _ _ | .ioctl f _ _ _ => f

/-- The open files are those of the threads: each of one thread, and each thread has one at most. -/
structure OwnFiles (isOpen : ℕ → Bool) (code : ℕ → Code) : Prop where
  opened : ∀ fd, isOpen fd ↔ ∃ i, fd ∈ (code i).descriptors
  unshared : ∀ i j fd, fd ∈ (code i).descriptors → fd ∈ (code j).descriptors → i = j
  atMostOne : ∀ i, (code i).descriptors.length ≤ 1

/-- The open files of the device are those of the threads. -/
abbrev FilesPrivate (w : World) : Prop :=
  OwnFiles (fun fd ↦ (w.env.files fd).isSome) fun i ↦ (w.proc i).code

/-! ### What a thread opens and closes -/

theorem Event.closed_of_opened {e : Event} {fd : ℕ} (hopened : e.opened = some fd) :
    e.closed = none := by
  cases e with
  | openDevice | openFilePath => rfl
  | _ => exact absurd hopened (by simp [Event.opened])

namespace Code

variable {code code' : Code} {e : Event}

theorem descriptors_handle (l : Locals) : (handle l).descriptors = [] := by
  obtain ⟨seekto, h⟩ | h | h | h := handle_cases l <;> rw [h] <;> rfl

theorem descriptors_scan (l : Locals) : (scan l).descriptors = [] := by
  rcases scan_cases l with h | h
  · rw [h, descriptors_handle]
  · rw [h]
    rfl

theorem descriptors_received (l : Locals) (data : List Byte) :
    (received l data).descriptors = [] := by
  obtain ⟨l', h⟩ | ⟨l', h⟩ := received_cases l data
  · rw [h]
    rfl
  · rw [h, descriptors_scan]

/-- **A step opens at the end and closes at the front.** -/
theorem Step.descriptors_eq (h : Step code e code') :
    code.descriptors ++ e.opened.toList = e.closed.toList ++ code'.descriptors := by
  cases h with
  | call a next => cases a <;> simp [descriptors, Event.opened, Event.closed]
  | recvNothing l => rw [descriptors_handle]; rfl
  | recv l data => rw [descriptors_received]; rfl
  | reallocFails l => rw [descriptors_handle]; rfl
  | realloc l junk => rw [descriptors_scan]; rfl
  | _ => rfl

/-- A thread opens a file only when it has none open. -/
theorem Step.descriptors_of_opened (h : Step code e code') {fd : ℕ} (hopened : e.opened = some fd) :
    code.descriptors = [] := by
  cases h with
  | openIoctl | openWrite | openRead => rfl
  | _ => exact absurd hopened (by simp [Event.opened])

/-- A step leaves a thread that has at most one file open with at most one. -/
theorem Step.length_descriptors_le (h : Step code e code') (hone : code.descriptors.length ≤ 1) :
    code'.descriptors.length ≤ 1 := by
  have heq := congrArg List.length h.descriptors_eq
  rw [List.length_append, List.length_append] at heq
  rcases hopened : e.opened with - | fd
  · rw [hopened, Option.toList_none, List.length_nil] at heq
    omega
  · rw [h.descriptors_of_opened hopened, hopened, Option.toList_some, List.length_singleton,
      List.length_nil] at heq
    omega

theorem Step.mem_descriptors_of_closed (h : Step code e code') {fd : ℕ}
    (hclosed : e.closed = some fd) : fd ∈ code.descriptors := by
  cases h with
  | call a next =>
    cases a with
    | closeFile fd' =>
      obtain rfl := Option.some.inj hclosed
      exact List.mem_cons_self
    | _ => exact absurd hclosed (by simp [Event.closed])
  | _ => exact absurd hclosed (by simp [Event.closed])

/-- What a thread that has at most one file open has open after a step. -/
theorem Step.mem_descriptors (h : Step code e code') (hone : code.descriptors.length ≤ 1) (fd : ℕ) :
    fd ∈ code'.descriptors ↔
      e.opened = some fd ∨ (fd ∈ code.descriptors ∧ e.closed ≠ some fd) := by
  have heq := h.descriptors_eq
  rcases hopened : e.opened with - | g
  · rcases hclosed : e.closed with - | g
    · rw [hopened, hclosed, Option.toList_none, List.append_nil, List.nil_append] at heq
      simp [heq]
    · -- the file it closes is the only one
      rw [hopened, hclosed, Option.toList_none, List.append_nil, Option.toList_some,
        List.singleton_append] at heq
      rw [heq, List.length_cons] at hone
      have hnil : code'.descriptors = [] := List.eq_nil_of_length_eq_zero (by omega)
      simp [heq, hnil, eq_comm]
  · rw [h.descriptors_of_opened hopened, hopened, Event.closed_of_opened hopened] at heq
    have hself : code'.descriptors = [g] := heq.symm
    simp [hself, h.descriptors_of_opened hopened, eq_comm]

theorem op_of_opens (hopens : code.opens = true) (c : Choice) : code.op c = c.fd.map .openFile := by
  cases code with
  | openIoctl | openWrite | openRead => rfl
  | _ => exact absurd hopens Bool.false_ne_true

theorem op_ne_openFile (hopens : code.opens = false) (c : Choice) (fd : ℕ) :
    code.op c ≠ some (.openFile fd) := by
  cases code with
  | openIoctl | openWrite | openRead => exact absurd hopens.symm Bool.false_ne_true
  | call a next => cases a <;> simp [Code.op]
  | _ => simp [Code.op]

/-- An `open` gives the thread what is answered. -/
theorem opened_of_opens {o : Outcome} (hopens : code.opens = true)
    (hstep : code.step o = .ok (e, code')) : e.opened = o.fd ∧ e.closed = none := by
  cases code with
  | openIoctl | openWrite | openRead =>
    rw [Code.step] at hstep
    rcases ho : o.fd with - | fd <;> simp only [ho] at hstep <;>
      obtain ⟨rfl, -⟩ := Prod.mk.inj (Except.ok.inj hstep) <;> exact ⟨rfl, rfl⟩
  | _ => exact absurd hopens Bool.false_ne_true

/-- A call on the device, unless it opens a file, is on the file the thread has open. -/
theorem file_mem_descriptors {c : Choice} {op : Op} (hop : code.op c = some op)
    (hopen : ∀ fd, op ≠ .openFile fd) : op.file ∈ code.descriptors := by
  cases code with
  | call a next =>
    cases a with
    | closeFile fd =>
      obtain rfl := Option.some.inj hop
      exact List.mem_cons_self
    | _ => exact absurd hop (by simp [Code.op])
  | ioctl | readIoctl | write | readBack =>
    obtain rfl := Option.some.inj hop
    exact List.mem_cons_self
  | openIoctl | openWrite | openRead =>
    obtain ⟨fd, -, heq⟩ := Option.map_eq_some_iff.1 hop
    exact absurd heq.symm (hopen fd)
  | _ => exact absurd hop (by simp [Code.op])

/-- A call that does not open a file of the device opens nothing, and one that is no `close` closes
nothing. -/
theorem opens_nothing_of_step {conn : Conn} {c : Choice} {a : Answer}
    (hstep : code.step (conn.outcome c a) = .ok (e, code'))
    (hopen : ∀ f, code.op c ≠ some (.openFile f)) (hclose : ∀ f, code.op c ≠ some (.release f)) :
    e.opened = none ∧ e.closed = none := by
  rcases hopens : code.opens with - | -
  · cases step_cases hstep with
    | call a next =>
      cases a with
      | closeFile fd => exact absurd rfl (hclose fd)
      | _ => exact ⟨rfl, rfl⟩
    | openIoctl | openIoctlFails | openWrite | openWriteFails | openRead | openReadFails =>
      exact absurd hopens.symm Bool.false_ne_true
    | _ => exact ⟨rfl, rfl⟩
  · -- an `open` that was refused
    obtain ⟨hopened, hclosed⟩ := opened_of_opens hopens hstep
    refine ⟨?_, hclosed⟩
    rw [op_of_opens hopens] at hopen
    rcases hfd : c.fd with - | fd
    · rw [hopened, Conn.outcome, hfd]
      exact ite_self none
    · exact absurd (by rw [hfd, Option.map_some]) (hopen fd)

/-- An `open` of the device gives the thread the descriptor if the device returns 0. -/
theorem opened_of_step {conn : Conn} {c : Choice} {a : Answer} {f : ℕ}
    (hop : code.op c = some (.openFile f)) (hstep : code.step (conn.outcome c a) = .ok (e, code')) :
    c.fd = some f ∧ e.opened = (if a.ret = 0 then some f else none) ∧ e.closed = none := by
  rcases hopens : code.opens with - | -
  · exact absurd hop (op_ne_openFile hopens c f)
  · rw [op_of_opens hopens] at hop
    obtain ⟨fd, hfd, heq⟩ := Option.map_eq_some_iff.1 hop
    obtain rfl := Op.openFile.inj heq
    obtain ⟨hopened, hclosed⟩ := opened_of_opens hopens hstep
    refine ⟨hfd, ?_, hclosed⟩
    rw [hopened, Conn.outcome, hfd]

theorem exists_eq_closeFile {c : Choice} {fd : ℕ} (hop : code.op c = some (.release fd)) :
    ∃ next, code = .call (.closeFile fd) next := by
  cases code with
  | call a next =>
    cases a with
    | closeFile fd' =>
      obtain rfl := Op.release.inj (Option.some.inj hop)
      exact ⟨next, rfl⟩
    | _ => exact absurd hop (by simp [Code.op])
  | openIoctl | openWrite | openRead =>
    obtain ⟨f, -, heq⟩ := Option.map_eq_some_iff.1 hop
    exact absurd heq (by simp)
  | _ => exact absurd hop (by simp [Code.op])

end Code

namespace OwnFiles

variable {isOpen isOpen' : ℕ → Bool} {code code' : ℕ → Code} {e : Event} {k : ℕ}

/-- Nothing is open. -/
theorem blank (hisOpen : ∀ fd, isOpen fd = false) (hcode : ∀ i, (code i).descriptors = []) :
    OwnFiles isOpen code where
  opened fd := by simp [hisOpen, hcode]
  unshared i j fd hi := by simp [hcode] at hi
  atMostOne i := by simp [hcode]

/-- A file that is opened is nobody's. -/
theorem notMem_of_fresh (h : OwnFiles isOpen code) {fd : ℕ} (hfresh : isOpen fd = false) (i : ℕ) :
    fd ∉ (code i).descriptors := by
  intro hi
  have hopen := (h.opened fd).2 ⟨i, hi⟩
  rw [hfresh] at hopen
  exact Bool.false_ne_true hopen

/-- **A step of one thread** keeps it so, if what it opens was not open. -/
theorem step (h : OwnFiles isOpen code) (hstep : Code.Step (code k) e (code' k))
    (hothers : ∀ i ≠ k, code' i = code i)
    (hisOpen : ∀ g, isOpen' g = true ↔ e.opened = some g ∨ (isOpen g = true ∧ e.closed ≠ some g))
    (hfresh : ∀ g, e.opened = some g → isOpen g = false) : OwnFiles isOpen' code' := by
  have hself := hstep.mem_descriptors (h.atMostOne k)
  refine ⟨fun fd ↦ ?_, ?_, fun i ↦ ?_⟩
  · rw [hisOpen]
    constructor
    · rintro (hopened | ⟨hopen, hclosed⟩)
      · exact ⟨k, (hself fd).2 (Or.inl hopened)⟩
      · obtain ⟨i, hi⟩ := (h.opened fd).1 hopen
        rcases eq_or_ne i k with rfl | hne
        · exact ⟨i, (hself fd).2 (Or.inr ⟨hi, hclosed⟩)⟩
        · exact ⟨i, by rwa [hothers i hne]⟩
    · rintro ⟨i, hi⟩
      rcases eq_or_ne i k with rfl | hne
      · exact ((hself fd).1 hi).imp_right (And.imp_left fun hi ↦ (h.opened fd).2 ⟨i, hi⟩)
      · rw [hothers i hne] at hi
        exact Or.inr ⟨(h.opened fd).2 ⟨i, hi⟩, fun hclosed ↦
          hne (h.unshared i k fd hi (hstep.mem_descriptors_of_closed hclosed))⟩
  · have htwo : ∀ j ≠ k, ∀ fd, fd ∈ (code' k).descriptors → fd ∉ (code j).descriptors := by
      intro j hj fd hfd hfd'
      rcases (hself fd).1 hfd with hopened | ⟨hmem, -⟩
      · exact h.notMem_of_fresh (hfresh fd hopened) j hfd'
      · exact hj (h.unshared j k fd hfd' hmem)
    intro i j fd hi hj
    rcases eq_or_ne i k with rfl | hnei
    · rcases eq_or_ne j i with rfl | hnej
      · rfl
      · exact absurd (hothers j hnej ▸ hj) (htwo j hnej fd hi)
    · rw [hothers i hnei] at hi
      rcases eq_or_ne j k with rfl | hnej
      · exact absurd hi (htwo i hnei fd hj)
      · rw [hothers j hnej] at hj
        exact h.unshared i j fd hi hj
  · rcases eq_or_ne i k with rfl | hne
    · exact hstep.length_descriptors_le (h.atMostOne i)
    · rw [hothers i hne]
      exact h.atMostOne i

end OwnFiles

/-! ### What the calls do to the files of the device -/

section Device

variable {fixedSizeLlseek : ℤ → ℤ → ℤ → ℤ → ℤ × ℤ} {sys sys' : System} {op : Op} {a : Answer}
  {conn : Conn} {c : Choice} {e : Event} {code : Code}

/-- A call leaves all other files alone. -/
theorem System.files_of_step (h : Aesd.step fixedSizeLlseek sys op = .ok (a, sys')) {g : ℕ}
    (hne : g ≠ op.file) : sys'.files g = sys.files g := by
  have hcall : ∀ {f operation}, g ≠ f → sys.call f operation = .ok (a, sys') →
      sys'.files g = sys.files g := by
    intro f operation hf hcall
    obtain ⟨-, -, rfl⟩ | ⟨filp, reply, -, -, -, rfl⟩ := call_cases hcall
    · rfl
    · rw [setFile_files, if_neg hf]
  cases op with
  | openFile f =>
    rcases step_openFile_cases h with rfl | ⟨-, rfl⟩
    · rfl
    · rw [setFile_files]
      exact if_neg hne
  | release f =>
    rcases step_release_cases h with rfl | rfl
    · rfl
    · rw [setFile_files]
      exact if_neg hne
  | _ => exact hcall hne h

/-- What a call of a thread does to the files of the device. -/
structure FilesAfter (sys sys' : System) (code : Code) (e : Event) : Prop where
  isSome : ∀ g, (sys'.files g).isSome = true ↔
    e.opened = some g ∨ ((sys.files g).isSome = true ∧ e.closed ≠ some g)
  fresh : ∀ g, e.opened = some g → sys.files g = none
  others : ∀ g, e.opened ≠ some g → g ∉ code.descriptors → sys'.files g = sys.files g

theorem FilesAfter.of_open {f : ℕ}
    (hstep : Aesd.step stayPut sys (.openFile f) = .ok (a, sys'))
    (hopened : e.opened = if a.ret = 0 then some f else none) (hclosed : e.closed = none) :
    FilesAfter sys sys' code e := by
  rcases hfile : sys.files f with - | filp
  · rw [System.step_openFile_of_none hfile] at hstep
    obtain ⟨rfl, rfl⟩ := Prod.mk.inj (Except.ok.inj hstep)
    rw [if_pos rfl] at hopened
    refine ⟨fun g ↦ ?_, fun g hg ↦ ?_, fun g hg _ ↦ ?_⟩
    · rw [System.setFile_files, hopened, hclosed]
      by_cases heq : g = f
      · simp [heq]
      · simp [heq, Ne.symm heq]
    · rw [hopened] at hg
      rw [← Option.some.inj hg, hfile]
    · rw [hopened] at hg
      rw [System.setFile_files, if_neg fun heq ↦ hg (by rw [heq])]
  · rw [System.step_openFile_of_some hfile] at hstep
    obtain ⟨rfl, rfl⟩ := Prod.mk.inj (Except.ok.inj hstep)
    rw [if_neg (by decide)] at hopened
    exact ⟨fun g ↦ by simp [hopened, hclosed], fun g hg ↦ by simp [hopened] at hg, fun g _ _ ↦ rfl⟩

theorem FilesAfter.of_close {fd : ℕ} {next : Code}
    (hstep : Aesd.step stayPut sys (.release fd) = .ok (a, sys')) :
    FilesAfter sys sys' (.call (.closeFile fd) next) (.call (.closeFile fd)) := by
  have hself : sys'.files fd = none := by
    rcases hfile : sys.files fd with - | filp
    · rw [System.step_release_of_none hfile] at hstep
      obtain ⟨-, rfl⟩ := Prod.mk.inj (Except.ok.inj hstep)
      exact hfile
    · rw [System.step_release_of_some hfile] at hstep
      obtain ⟨-, rfl⟩ := Prod.mk.inj (Except.ok.inj hstep)
      rw [System.setFile_files, if_pos rfl]
  have hothers : ∀ g, g ≠ fd → sys'.files g = sys.files g := fun g ↦ System.files_of_step hstep
  refine ⟨fun g ↦ ?_, fun g hg ↦ by simp [Event.opened] at hg, fun g _ hg ↦ ?_⟩
  · by_cases heq : g = fd
    · simp [heq, hself, Event.opened, Event.closed]
    · simp [hothers g heq, Event.opened, Event.closed, Ne.symm heq]
  · exact hothers g fun heq ↦ hg (heq ▸ List.mem_cons_self)

/-- A call on the file the thread has open. -/
theorem FilesAfter.of_use (hop : code.op c = some op)
    (hstep : Aesd.step stayPut sys op = .ok (a, sys')) (hopen : ∀ f, op ≠ .openFile f)
    (hrelease : ∀ f, op ≠ .release f) (hopened : e.opened = none) (hclosed : e.closed = none) :
    FilesAfter sys sys' code e := by
  have hown := Code.file_mem_descriptors hop hopen
  refine ⟨fun g ↦ ?_, fun g hg ↦ by simp [hopened] at hg, fun g _ hg ↦ ?_⟩
  · rw [System.isSome_files_of_step hstep hopen hrelease, hopened, hclosed]
    simp
  · exact System.files_of_step hstep fun heq ↦ hg (heq ▸ hown)

/-- A call that is none of the device. -/
theorem FilesAfter.refl (hopened : e.opened = none) (hclosed : e.closed = none) :
    FilesAfter sys sys code e :=
  ⟨fun g ↦ by simp [hopened, hclosed], fun g hg ↦ by simp [hopened] at hg, fun g _ _ ↦ rfl⟩

theorem filesAfter_of_device {code' : Code} (hdevice : code.device sys c = .ok (a, sys'))
    (hstep : code.step (conn.outcome c a) = .ok (e, code')) : FilesAfter sys sys' code e := by
  rcases hop : code.op c with - | op
  · rw [Code.device, hop] at hdevice
    obtain ⟨-, rfl⟩ := Prod.mk.inj (Except.ok.inj hdevice)
    obtain ⟨hopened, hclosed⟩ := Code.opens_nothing_of_step hstep (by simp [hop]) (by simp [hop])
    exact .refl hopened hclosed
  · have hdevice' := hdevice
    simp only [Code.device, hop] at hdevice'
    cases op with
    | openFile f =>
      obtain ⟨-, hopened, hclosed⟩ := Code.opened_of_step hop hstep
      exact .of_open hdevice' hopened hclosed
    | release fd =>
      obtain ⟨next, rfl⟩ := Code.exists_eq_closeFile hop
      obtain ⟨rfl, -⟩ := Prod.mk.inj (Except.ok.inj hstep)
      exact .of_close hdevice'
    | _ =>
      obtain ⟨hopened, hclosed⟩ := Code.opens_nothing_of_step hstep (by simp [hop]) (by simp [hop])
      exact .of_use hop hdevice' (by simp) (by simp) hopened hclosed

end Device

/-! ### Runs of the server -/

section Runs

variable {inboxes : ℕ → List (List Byte)} {xs : List (ℕ × Choice)} {trace : List (ℕ × Event)}
  {w w' : World} {x : ℕ × Choice} {y : ℕ × Event} {i fd : ℕ}

/-- What one call does to the files: those of its thread, as it opens and closes them. -/
theorem files_of_serve (h : serve w x = .ok (y, w')) :
    FilesAfter w.env w'.env (w.proc x.1).code y.2 ∧
      Code.Step (w.proc x.1).code y.2 (w'.proc x.1).code ∧ ∀ i ≠ x.1, w'.proc i = w.proc i := by
  obtain ⟨a, code, hdevice, hstep, -, hproc, -⟩ := serve_cases h
  refine ⟨filesAfter_of_device hdevice hstep, ?_, fun i hi ↦ ?_⟩
  · rw [hproc, Function.update_self]
    exact Code.step_cases hstep
  · rw [hproc, Function.update_of_ne hi]

theorem filesPrivate_start (inboxes : ℕ → List (List Byte)) : FilesPrivate (start inboxes) :=
  .blank (fun _ ↦ rfl) fun _ ↦ rfl

/-- **One call keeps the files private.** -/
theorem FilesPrivate.serve (hw : FilesPrivate w) (h : serve w x = .ok (y, w')) :
    FilesPrivate w' := by
  obtain ⟨hfiles, hstep, hothers⟩ := files_of_serve h
  refine hw.step hstep (fun i hi ↦ by rw [hothers i hi]) hfiles.isSome fun fd hopened ↦ ?_
  rw [hfiles.fresh fd hopened, Option.isSome_none]

theorem filesPrivate_of_run (h : run Aesd.serve (start inboxes) xs = .ok (trace, w)) :
    FilesPrivate w :=
  invariant_of_run (I := FilesPrivate) (fun _ _ _ _ hw hserve ↦ hw.serve hserve)
    (filesPrivate_start inboxes) h

/-- **Every open file belongs to one thread.** In every run of the server on the device, with
threads that take their calls in any order, and whatever fails:

* a file of the device is open exactly if a thread has it open, no two threads have the same one,
  and no thread has two;
* a thread that calls the device calls it on the file it has open, so no call finds its file closed;
* no call of another thread opens, closes or moves that file;
* when every thread that has begun has returned, no file is open. -/
theorem files_belong_to_threads (inboxes : ℕ → List (List Byte)) {xs : List (ℕ × Choice)}
    {trace : List (ℕ × Event)} {w : World}
    (hrun : run serve (start inboxes) xs = .ok (trace, w)) :
    FilesPrivate w ∧
    (∀ i c op, (w.proc i).code.op c = some op → (∀ fd, op ≠ .openFile fd) →
      op.file ∈ (w.proc i).code.descriptors ∧ (w.env.files op.file).isSome) ∧
    (∀ x y w', serve w x = .ok (y, w') → ∀ i ≠ x.1, ∀ fd ∈ (w.proc i).code.descriptors,
      w'.env.files fd = w.env.files fd) ∧
    ((∀ i, (w.proc i).code = Code.threadfunc ∨ (w.proc i).code = .ret) →
      ∀ fd, w.env.files fd = none) := by
  have hw := filesPrivate_of_run hrun
  refine ⟨hw, fun i c op hop hopen ↦ ?_, fun x y w' hserve i hi fd hfd ↦ ?_, fun hrest fd ↦ ?_⟩
  · have hmem := Code.file_mem_descriptors hop hopen
    exact ⟨hmem, (hw.opened _).2 ⟨i, hmem⟩⟩
  · obtain ⟨hfiles, -⟩ := files_of_serve hserve
    refine hfiles.others fd (fun hopened ↦ ?_) fun hx ↦ hi (hw.unshared i x.1 fd hfd hx)
    have hopen := (hw.opened fd).2 ⟨i, hfd⟩
    rw [hfiles.fresh fd hopened] at hopen
    exact Bool.false_ne_true hopen
  · by_contra hopen
    obtain ⟨i, hi⟩ := (hw.opened fd).1 (Option.isSome_iff_ne_none.2 hopen)
    rcases hrest i with hcode | hcode
    · rw [hcode] at hi
      exact List.not_mem_nil hi
    · rw [hcode] at hi
      exact List.not_mem_nil hi

/-- A thread whose `open` is refused has returned; another one has the file open for writing, and no
call of the first changes it. -/
theorem files_belong_to_threads_writing :
    ∃ trace w, run serve (start fun _ ↦ [[97, newline]])
        (List.replicate 8 (1, { Choice.granting 3 with fd := none }) ++
          List.replicate 5 (0, Choice.granting 3)) = .ok (trace, w) ∧
      (1, .openFilePath none) ∈ trace ∧ (w.env.files 3).isSome = true ∧ FilesPrivate w ∧
      ∀ c y w', serve w (1, c) = .ok (y, w') → w'.env.files 3 = w.env.files 3 := by
  have heval : (run serve (start fun _ ↦ [[97, newline]])
      (List.replicate 8 (1, { Choice.granting 3 with fd := none }) ++
        List.replicate 5 (0, Choice.granting 3))).map (fun z ↦
          (decide ((1, .openFilePath none) ∈ z.1), (z.2.env.files 3).isSome,
            decide (3 ∈ (z.2.proc 0).code.descriptors))) = .ok (true, true, true) := by
    decide +kernel
  obtain ⟨⟨trace, w⟩, hrun, hend⟩ := exists_of_map_eq_ok heval
  simp only [Prod.mk.injEq, decide_eq_true_eq] at hend
  obtain ⟨hrefused, hopen, hwriting⟩ := hend
  obtain ⟨hprivate, -, hothers, -⟩ := files_belong_to_threads _ hrun
  exact ⟨trace, w, hrun, hrefused, hopen, hprivate, fun c y w' hserve ↦
    hothers (1, c) y w' hserve 0 Nat.zero_ne_one 3 hwriting⟩

end Runs

end Aesd
