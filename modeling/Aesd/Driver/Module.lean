import Mathlib.Data.Finset.Card
import Aesd.Driver.Ownership

/-!
# Loading and unloading the module

The module is loaded, used and unloaded, any number of times (`Machine.step`). `aesd_init_module`
can fail where it asks for device numbers and where it adds the device; what it has got by then it
gives back. The kernel counts the open files of a module, and unloads it only if there is none; on a
module that is not loaded there are no calls.

Nothing is carried over from one load to the next: a loaded module is a fresh one after the calls
since then (`callsSince`), and an unloaded one has no memory and no device numbers
(`module_reloads_clean`).

Left out: the messages, and `aesd_major`.
-/

namespace Aesd

open Memory Execution

/-- What the module has from the kernel. -/
structure Machine where
  /-- Device numbers are registered. -/
  region : Bool
  /-- The device is added. -/
  cdev : Bool
  kernel : Kernel
  /-- The files of the device, while the module is loaded. -/
  files : Option (ℕ → Option File)
  /-- The kernel's count of the open ones. -/
  refs : ℕ

/-- A call of the kernel; that of `aesd_init_module` with the error numbers of
`alloc_chrdev_region` and `cdev_add`, which are 0 if they succeed. -/
inductive MachineOp
  | insmod (alloc add : ℕ)
  | rmmod
  | call (op : Op)

namespace Machine

/-- The module was never loaded. -/
def init : Machine :=
  ⟨false, false, aesdInitModule, none, 0⟩

/-- `aesd_setup_cdev`. -/
def setupCdev (m : Machine) (add : ℕ) : ℤ × Machine :=
  (-add, { m with cdev := add = 0 })

/-- `aesd_init_module`. -/
def initModule (m : Machine) (alloc add : ℕ) : ℤ × Machine :=
  let result : ℤ := -alloc
  if result < 0 then (result, m)
  else
    let m := { m with region := true, kernel := aesdInitModule }
    let (result, m) := m.setupCdev add
    if result ≠ 0 then (result, { m with region := false }) else (result, m)

/-- The kernel keeps the module if `aesd_init_module` returns 0. -/
def insmod (m : Machine) (alloc add : ℕ) : ℤ × Machine :=
  let (result, m) := m.initModule alloc add
  (result, if result = 0 then { m with files := some fun _ ↦ none, refs := 0 } else m)

/-- `aesd_cleanup_module`. -/
def cleanupModule (m : Machine) : Except Stop Machine := do
  let m := { m with cdev := false }
  let kernel ← aesdCleanupModule m.kernel
  return { m with kernel, region := false }

/-- The open files after a call. -/
def refsAfter (refs : ℕ) (op : Op) (a : Answer) : ℕ :=
  match op with
  | .openFile _ => if a.ret = 0 then refs + 1 else refs
  | .release _ => if a.ret = 0 then refs - 1 else refs
  | _ => refs

/-- One call: what it returns, and what is there after it. -/
def turn (fixedSizeLlseek : ℤ → ℤ → ℤ → ℤ → ℤ × ℤ) (m : Machine) :
    MachineOp → Except Stop (ℤ × Machine)
  | .insmod alloc add =>
    if m.files.isSome then .error .blocked else .ok (m.insmod alloc add)
  | .rmmod =>
    if m.files.isNone ∨ m.refs ≠ 0 then .error .blocked
    else do
      let m ← m.cleanupModule
      return (0, { m with files := none })
  | .call op =>
    match m.files with
    | none => .error .blocked
    | some files => do
      let (a, sys) ← Aesd.step fixedSizeLlseek ⟨m.kernel, files⟩ op
      return (a.ret, { m with
        kernel := sys.kernel, files := some sys.files, refs := refsAfter m.refs op a })

/-- One call, with the call in the answer. -/
def step (fixedSizeLlseek : ℤ → ℤ → ℤ → ℤ → ℤ × ℤ) (m : Machine) (x : MachineOp) :
    Except Stop ((MachineOp × ℤ) × Machine) :=
  match m.turn fixedSizeLlseek x with
  | .error stop => .error stop
  | .ok (ret, m) => .ok ((x, ret), m)

end Machine

/-- The calls on the device since the module was last loaded or unloaded. -/
def callsSince (trace : List (MachineOp × ℤ)) : List Op :=
  trace.foldl (fun ops y ↦ match y.1 with
    | .call op => ops ++ [op]
    | _ => []) []

/-- The module is as it has to be after these calls. -/
structure Sound (fixedSizeLlseek : ℤ → ℤ → ℤ → ℤ → ℤ × ℤ) (ops : List Op) (m : Machine) : Prop where
  region : m.region = m.files.isSome
  cdev : m.cdev = m.files.isSome
  loaded : ∀ files, m.files = some files →
    ∃ answers, run (step fixedSizeLlseek) .init ops = .ok (answers, ⟨m.kernel, files⟩)
  counted : ∀ files, m.files = some files →
    ∃ opened : Finset ℕ, (∀ f, f ∈ opened ↔ (files f).isSome) ∧ opened.card = m.refs
  unloaded : m.files = none → ∀ a, m.kernel.heap.block a = none

section Steps

variable {fixedSizeLlseek : ℤ → ℤ → ℤ → ℤ → ℤ × ℤ} {ops : List Op} {m m' : Machine} {ret : ℤ}
  {x : MachineOp} {files : ℕ → Option File}

theorem sound_init : Sound fixedSizeLlseek [] .init where
  region := rfl
  cdev := rfl
  loaded _ h := absurd h (by simp [Machine.init])
  counted _ h := absurd h (by simp [Machine.init])
  unloaded _ _ := rfl

/-- A module that is not there. -/
theorem Sound.of_unloaded (hnone : m.files = none) (hregion : m.region = false)
    (hcdev : m.cdev = false) (hunloaded : ∀ a, m.kernel.heap.block a = none) :
    Sound fixedSizeLlseek ops m where
  region := by rw [hregion, hnone, Option.isSome_none]
  cdev := by rw [hcdev, hnone, Option.isSome_none]
  loaded files hfiles := absurd (hnone.symm.trans hfiles) (by simp)
  counted files hfiles := absurd (hnone.symm.trans hfiles) (by simp)
  unloaded _ := hunloaded

/-- `aesd_init_module` fails and leaves nothing behind, or the module is fresh. -/
theorem Sound.insmod (h : Sound fixedSizeLlseek ops m) (hnone : m.files = none) (alloc add : ℕ) :
    Sound fixedSizeLlseek [] (m.insmod alloc add).2 := by
  rcases Nat.eq_zero_or_pos alloc with rfl | halloc
  · rcases Nat.eq_zero_or_pos add with rfl | hadd
    · have hloaded : (m.insmod 0 0).2.files ≠ none := by
        simp [Machine.insmod, Machine.initModule, Machine.setupCdev]
      refine ⟨rfl, rfl, fun files hfiles ↦ ⟨[], ?_⟩, fun files hfiles ↦ ⟨∅, fun f ↦ ?_, rfl⟩,
        fun hfiles ↦ absurd hfiles hloaded⟩
      · obtain rfl := Option.some.inj hfiles
        rfl
      · obtain rfl := Option.some.inj hfiles
        simp
    · have hinsmod : m.insmod 0 add = (-(add : ℤ),
          { m with region := false, cdev := false, kernel := aesdInitModule }) := by
        simp [Machine.insmod, Machine.initModule, Machine.setupCdev, Nat.ne_of_gt hadd]
      rw [hinsmod]
      exact .of_unloaded hnone rfl rfl fun _ ↦ rfl
  · have hinsmod : m.insmod alloc add = (-(alloc : ℤ), m) := by
      simp [Machine.insmod, Machine.initModule, halloc, Nat.ne_of_gt halloc]
    rw [hinsmod]
    refine .of_unloaded hnone ?_ ?_ (h.unloaded hnone)
    · rw [h.region, hnone, Option.isSome_none]
    · rw [h.cdev, hnone, Option.isSome_none]

theorem Sound.exists_represents (h : Sound fixedSizeLlseek ops m) (hfiles : m.files = some files) :
    ∃ s, (⟨m.kernel, files⟩ : System).Represents s := by
  obtain ⟨answers, hrun⟩ := h.loaded files hfiles
  exact System.exists_represents ⟨ops, answers, hrun⟩

/-- `aesd_cleanup_module` comes to its end and leaves nothing behind. -/
theorem Sound.rmmod (h : Sound fixedSizeLlseek ops m) (hfiles : m.files = some files)
    (hrefs : m.refs = 0) :
    ∃ m', m.turn fixedSizeLlseek .rmmod = .ok (0, m') ∧ Sound fixedSizeLlseek [] m' := by
  obtain ⟨s, hs⟩ := h.exists_represents hfiles
  obtain ⟨k, hcleanup, hblocks⟩ := hs.kernel.exists_cleanup
  have hmodule : m.cleanupModule =
      .ok { m with cdev := false, kernel := k, region := false } :=
    bind_of_eq_ok hcleanup _
  refine ⟨{ m with cdev := false, kernel := k, region := false, files := none }, ?_,
    .of_unloaded rfl rfl rfl hblocks⟩
  rw [Machine.turn, if_neg (by simp [hfiles, hrefs])]
  exact bind_of_eq_ok hmodule _

/-- The kernel unloads a module that is there and has no open file. -/
theorem exists_files_of_rmmod (hturn : m.turn fixedSizeLlseek .rmmod ≠ .error .blocked) :
    ∃ files, m.files = some files ∧ m.refs = 0 := by
  rw [Machine.turn] at hturn
  split at hturn
  · exact absurd rfl hturn
  · rename_i hloaded
    rw [not_or, not_not] at hloaded
    obtain ⟨files, hfiles⟩ := Option.ne_none_iff_exists'.1
      (mt Option.isNone_iff_eq_none.2 hloaded.1)
    exact ⟨files, hfiles, hloaded.2⟩

/-- The kernel counts the open files. -/
theorem counted_after {sys sys' : System} {op : Op} {a : Answer}
    (h : Aesd.step fixedSizeLlseek sys op = .ok (a, sys')) {opened : Finset ℕ}
    (hopened : ∀ f, f ∈ opened ↔ (sys.files f).isSome) :
    ∃ opened' : Finset ℕ, (∀ f, f ∈ opened' ↔ (sys'.files f).isSome) ∧
      opened'.card = Machine.refsAfter opened.card op a := by
  have hsame : (∀ f, (sys'.files f).isSome = (sys.files f).isSome) →
      ∀ f, f ∈ opened ↔ (sys'.files f).isSome := fun hfiles f ↦ by rw [hfiles, hopened]
  cases op with
  | openFile f =>
    rcases hf : sys.files f with - | filp
    · rw [System.step_openFile_of_none hf] at h
      obtain ⟨rfl, rfl⟩ := Prod.mk.inj (Except.ok.inj h)
      have hnew : f ∉ opened := by simp [hopened, hf]
      refine ⟨insert f opened, fun g ↦ ?_, Finset.card_insert_of_notMem hnew⟩
      rw [Finset.mem_insert, hopened, System.setFile_files]
      split <;> simp [*]
    · rw [System.step_openFile_of_some hf] at h
      obtain ⟨rfl, rfl⟩ := Prod.mk.inj (Except.ok.inj h)
      exact ⟨opened, hopened, rfl⟩
  | release f =>
    rcases hf : sys.files f with - | filp
    · rw [System.step_release_of_none hf] at h
      obtain ⟨rfl, rfl⟩ := Prod.mk.inj (Except.ok.inj h)
      exact ⟨opened, hopened, rfl⟩
    · rw [System.step_release_of_some hf] at h
      obtain ⟨rfl, rfl⟩ := Prod.mk.inj (Except.ok.inj h)
      have hmem : f ∈ opened := by simp [hopened, hf]
      refine ⟨opened.erase f, fun g ↦ ?_, Finset.card_erase_of_mem hmem⟩
      rw [Finset.mem_erase, hopened, System.setFile_files]
      split <;> simp [*]
  | _ => exact ⟨opened, hsame (System.isSome_files_of_step h (by simp) (by simp)), rfl⟩

theorem callsSince_concat (trace : List (MachineOp × ℤ)) (y : MachineOp × ℤ) :
    callsSince (trace ++ [y]) = match y.1 with
      | .call op => callsSince trace ++ [op]
      | _ => [] := by
  rw [callsSince, List.foldl_append]
  rfl

/-- A call on the device. -/
theorem Sound.call (h : Sound fixedSizeLlseek ops m) (hfiles : m.files = some files) {op : Op}
    {a : Answer} {sys : System}
    (hstep : Aesd.step fixedSizeLlseek ⟨m.kernel, files⟩ op = .ok (a, sys)) :
    Sound fixedSizeLlseek (ops ++ [op]) { m with
      kernel := sys.kernel, files := some sys.files, refs := Machine.refsAfter m.refs op a } where
  region := by rw [h.region, hfiles]; rfl
  cdev := by rw [h.cdev, hfiles]; rfl
  loaded files' hfiles' := by
    obtain rfl := Option.some.inj hfiles'
    obtain ⟨answers, hrun⟩ := h.loaded files hfiles
    exact ⟨answers ++ [a], run_append_eq_ok_iff.2
      ⟨answers, _, [a], hrun, run_cons_of_ok hstep (run_nil _), rfl⟩⟩
  counted files' hfiles' := by
    obtain rfl := Option.some.inj hfiles'
    obtain ⟨opened, hopened, hcard⟩ := h.counted files hfiles
    rw [← hcard]
    exact counted_after hstep hopened
  unloaded hnone := absurd hnone (by simp)

/-- **One call.** -/
theorem Sound.step {trace : List (MachineOp × ℤ)} {y : MachineOp × ℤ}
    (h : Sound fixedSizeLlseek (callsSince trace) m)
    (hstep : m.step fixedSizeLlseek x = .ok (y, m')) :
    Sound fixedSizeLlseek (callsSince (trace ++ [y])) m' := by
  rw [callsSince_concat]
  rw [Machine.step] at hstep
  split at hstep
  · cases hstep
  · rename_i ret m₁ hturn
    obtain ⟨rfl, rfl⟩ := Prod.mk.inj (Except.ok.inj hstep)
    cases x with
    | insmod alloc add =>
      rw [Machine.turn] at hturn
      split at hturn
      · cases hturn
      · rename_i hnone
        have hnext := h.insmod (Option.not_isSome_iff_eq_none.1 hnone) alloc add
        rwa [Except.ok.inj hturn] at hnext
    | rmmod =>
      obtain ⟨files, hfiles, hrefs⟩ := exists_files_of_rmmod (by rw [hturn]; simp)
      obtain ⟨m₂, hrmmod, hnext⟩ := h.rmmod hfiles hrefs
      obtain ⟨-, rfl⟩ := Prod.mk.inj (Except.ok.inj (hturn.symm.trans hrmmod))
      exact hnext
    | call op =>
      rw [Machine.turn] at hturn
      split at hturn
      · cases hturn
      · rename_i files hfiles
        obtain ⟨⟨a, sys⟩, hcall, hturn⟩ := exists_of_bind_eq_ok hturn
        obtain ⟨-, rfl⟩ := Prod.mk.inj (Except.ok.inj hturn)
        exact h.call hfiles hcall

/-- No call faults. -/
theorem Sound.step_ne_fault (h : Sound fixedSizeLlseek ops m) (x : MachineOp) :
    m.step fixedSizeLlseek x ≠ .error .fault := by
  have hturn : m.turn fixedSizeLlseek x ≠ .error .fault := by
    cases x with
    | insmod alloc add =>
      rw [Machine.turn]
      split <;> simp
    | rmmod =>
      intro hfault
      obtain ⟨files, hfiles, hrefs⟩ := exists_files_of_rmmod (by rw [hfault]; simp)
      obtain ⟨m₂, hrmmod, -⟩ := h.rmmod hfiles hrefs
      exact absurd (hfault.symm.trans hrmmod) (by simp)
    | call op =>
      rw [Machine.turn]
      split
      · simp
      · rename_i files hfiles
        obtain ⟨s, hs⟩ := h.exists_represents hfiles
        rcases hcall : Aesd.step fixedSizeLlseek ⟨m.kernel, files⟩ op with stop | ⟨a, sys⟩
        · intro hfault
          obtain rfl : stop = .fault := Except.error.inj hfault
          exact System.step_ne_fault hs op hcall
        · simp [ok_bind, pure, Except.pure]
  rw [Machine.step]
  split
  · rename_i hstop
    exact fun hfault ↦ hturn (hstop.trans (by rw [Except.error.inj hfault]))
  · simp

end Steps

/-- **Nothing survives an unload.** After any loads, of which any may fail, unloads and calls on the
device:

* device numbers are registered and the device is there exactly while the module is loaded;
* a loaded module is a fresh one after the calls since it was loaded, and it is not unloaded while a
  file is open;
* a module that is not loaded has no memory;
* no call faults, `aesd_cleanup_module` included, and nothing but an open file keeps the module from
  being unloaded. -/
theorem module_reloads_clean {fixedSizeLlseek : ℤ → ℤ → ℤ → ℤ → ℤ × ℤ} {xs : List MachineOp}
    {trace : List (MachineOp × ℤ)} {m : Machine}
    (hrun : run (Machine.step fixedSizeLlseek) .init xs = .ok (trace, m)) :
    m.region = m.files.isSome ∧ m.cdev = m.files.isSome ∧
    (∀ files, m.files = some files →
      (∃ answers, run (step fixedSizeLlseek) .init (callsSince trace) =
        .ok (answers, ⟨m.kernel, files⟩)) ∧
      ((∃ m', m.step fixedSizeLlseek .rmmod = .ok ((.rmmod, 0), m')) ↔ ∀ f, files f = none)) ∧
    (m.files = none → ∀ a, m.kernel.heap.block a = none) ∧
    ∀ x, m.step fixedSizeLlseek x ≠ .error .fault := by
  have hsound : Sound fixedSizeLlseek (callsSince trace) m :=
    history_of_run (I := fun trace m ↦ Sound fixedSizeLlseek (callsSince trace) m)
      (fun _ _ _ _ _ h hstep ↦ h.step hstep) sound_init hrun
  refine ⟨hsound.region, hsound.cdev, fun files hfiles ↦ ⟨hsound.loaded files hfiles, ?_⟩,
    hsound.unloaded, hsound.step_ne_fault⟩
  obtain ⟨opened, hopened, hcard⟩ := hsound.counted files hfiles
  have hnone : m.refs = 0 ↔ ∀ f, files f = none := by
    rw [← hcard, Finset.card_eq_zero, Finset.eq_empty_iff_forall_notMem]
    refine forall_congr' fun f ↦ ?_
    rw [hopened, Option.not_isSome_iff_eq_none]
  rw [← hnone]
  constructor
  · rintro ⟨m', hstep⟩
    have hturn : m.turn fixedSizeLlseek .rmmod ≠ .error .blocked := by
      intro hblocked
      rw [Machine.step, hblocked] at hstep
      cases hstep
    obtain ⟨-, -, hrefs⟩ := exists_files_of_rmmod hturn
    exact hrefs
  · intro hrefs
    obtain ⟨m', hrmmod, -⟩ := hsound.rmmod hfiles hrefs
    exact ⟨m', by rw [Machine.step, hrmmod]⟩

/-- The device is not added at first; then a command is stored, and the module loaded again. -/
theorem module_reloads_clean_command :
    let xs := [.insmod 0 12, .insmod 0 0, .call (.openFile 0),
      .call (.write 0 ⟨[97, newline], by decide⟩ .granting), .call (.release 0), .rmmod,
      .insmod 0 0]
    ∃ trace m, run (Machine.step stayPut) .init xs = .ok (trace, m) ∧
      trace.map Prod.snd = [-12, 0, 0, 2, 0, 0, 0] ∧ m.kernel.commands = [] ∧ m.region = true := by
  intro xs
  have heval : (run (Machine.step stayPut) .init xs).map (fun z ↦
      (z.1.map Prod.snd, z.2.kernel.commands, z.2.files.isSome)) =
      .ok ([-12, 0, 0, 2, 0, 0, 0], [], true) := by
    decide +kernel
  obtain ⟨⟨trace, m⟩, hrun, hend⟩ := exists_of_map_eq_ok heval
  simp only [Prod.mk.injEq] at hend
  obtain ⟨hret, hcommands, hloaded⟩ := hend
  exact ⟨trace, m, hrun, hret, hcommands, (module_reloads_clean hrun).1.trans hloaded⟩

end Aesd
