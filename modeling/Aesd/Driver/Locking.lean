import Aesd.Driver.System

/-!
# The mutex of the device

Every file operation that finds the mutex free returns with it free, unlocked as often as locked,
except one: `AESDCHAR_IOCSEEKTO` on a command or an offset that the ring does not have returns
`-EINVAL` with the mutex held (`Op.strands`). After that no read, write or seek returns any more.
-/

namespace Aesd

open Execution

variable {fixedSizeLlseek : ℤ → ℤ → ℤ → ℤ → ℤ × ℤ} {sys : System}

/-- A call keeps the discipline: it returns, and leaves the mutex free and unlocked as often as
locked. -/
def KeepsMutex (fixedSizeLlseek : ℤ → ℤ → ℤ → ℤ → ℤ × ℤ) (sys : System) (op : Op) : Prop :=
  ∃ a sys', step fixedSizeLlseek sys op = .ok (a, sys') ∧
    sys.kernel.mutex.Balanced sys'.kernel.mutex

theorem keepsMutex_iff {s : Framing.Log Byte} (h : sys.Represents s)
    (hfree : sys.kernel.mutex.held = false) (op : Op) :
    KeepsMutex fixedSizeLlseek sys op ↔ op.strands sys = false := by
  obtain ⟨a, sys', hstep, -, hbalanced, hheld⟩ := h.exists_step hfree fixedSizeLlseek op
  constructor
  · rintro ⟨b, sys₁, hstep₁, hfree₁, -⟩
    obtain ⟨rfl, rfl⟩ := Prod.mk.inj (Except.ok.inj (hstep.symm.trans hstep₁))
    rcases hstrands : op.strands sys with - | -
    · rfl
    · rw [hheld hstrands] at hfree₁
      exact absurd hfree₁ (by simp)
  · exact fun hstrands ↦ ⟨a, sys', hstep, hbalanced hstrands⟩

/-- A run in which no call strands the mutex comes to its end, with the mutex balanced. -/
theorem exists_run_of_not_strands (fixedSizeLlseek : ℤ → ℤ → ℤ → ℤ → ℤ × ℤ) (ops : List Op)
    (halong : Along (step fixedSizeLlseek) (fun sys op ↦ op.strands sys = false) .init ops) :
    ∃ answers sys, run (step fixedSizeLlseek) .init ops = .ok (answers, sys) ∧
      System.init.kernel.mutex.Balanced sys.kernel.mutex := by
  have hinit : System.init.kernel.mutex.Balanced System.init.kernel.mutex :=
    Mutex.Balanced.refl rfl
  obtain ⟨answers, sys, hrun, -, hbalanced⟩ := exists_run_of_along
    (I := fun sys : System ↦
      (∃ s, sys.Represents s) ∧ System.init.kernel.mutex.Balanced sys.kernel.mutex)
    (fun sys op ⟨⟨s, hs⟩, hsys⟩ hstrands ↦ by
      obtain ⟨a, sys', hstep, hrep, hmutex, -⟩ := hs.exists_step hsys.1 fixedSizeLlseek op
      exact ⟨a, sys', hstep, ⟨_, hrep⟩, hsys.trans (hmutex hstrands)⟩)
    ⟨⟨_, System.represents_init⟩, hinit⟩ halong
  exact ⟨answers, sys, hrun, hbalanced⟩

/-- **A call keeps the mutex exactly when it does not seek to a byte the ring lacks**, in every
reachable state; and a run in which no call does comes to its end with the mutex free, unlocked as
often as locked. -/
theorem keeps_mutex_iff_not_strands (fixedSizeLlseek : ℤ → ℤ → ℤ → ℤ → ℤ × ℤ) :
    (∀ sys, Reachable (step fixedSizeLlseek) .init sys → sys.kernel.mutex.held = false →
      ∀ op, KeepsMutex fixedSizeLlseek sys op ↔ op.strands sys = false) ∧
    ∀ ops, Along (step fixedSizeLlseek) (fun sys op ↦ op.strands sys = false) .init ops →
      ∃ answers sys, run (step fixedSizeLlseek) .init ops = .ok (answers, sys) ∧
        System.init.kernel.mutex.Balanced sys.kernel.mutex := by
  refine ⟨fun sys hreach hfree op ↦ ?_, exists_run_of_not_strands fixedSizeLlseek⟩
  obtain ⟨s, hs⟩ := System.exists_represents hreach
  exact keepsMutex_iff hs hfree op

/-- A command goes in and is read back. -/
theorem keeps_mutex_iff_not_strands_read_back :
    let ops : List Op :=
      [.openFile 0, .write 0 ⟨[97, newline], by decide⟩ .granting, .openFile 1, .read 1 8 0]
    (KeepsMutex stayPut .init (.openFile 0) ↔ (Op.openFile 0).strands .init = false) ∧
      ∃ answers sys, run (step stayPut) .init ops = .ok (answers, sys) ∧
        System.init.kernel.mutex.Balanced sys.kernel.mutex :=
  ⟨(keeps_mutex_iff_not_strands _).1 .init (Reachable.refl _) rfl (.openFile 0),
    (keeps_mutex_iff_not_strands _).2 _
      ⟨rfl, fun _ _ _ ↦ ⟨rfl, fun _ _ _ ↦ ⟨rfl, fun _ _ _ ↦ ⟨rfl, fun _ _ _ ↦ trivial⟩⟩⟩⟩⟩

/-- A seek on the empty ring returns `-EINVAL` with the mutex held, and no read returns after
it. -/
theorem seek_on_empty_ring_strands :
    let seek : Op := .ioctl 0 aesdcharIocseekto ⟨0, 0⟩ 0
    ∃ sys a sys', Reachable (step stayPut) .init sys ∧ sys.kernel.mutex.held = false ∧
      step stayPut sys seek = .ok (a, sys') ∧ a.ret = -EINVAL ∧ ¬ KeepsMutex stayPut sys seek ∧
      step stayPut sys' (.read 0 8 0) = .error .blocked := by
  intro seek
  have hopen : step stayPut .init (.openFile 0) =
      .ok (⟨0, []⟩, System.init.setFile 0 (some ⟨some .aesdDevice, 0⟩)) := rfl
  have hreach := (Reachable.refl System.init).tail hopen
  have hrep := System.represents_init.step hopen
  refine ⟨_, _, _, hreach, rfl, rfl, rfl, ?_, rfl⟩
  rw [keepsMutex_iff hrep rfl]
  decide

end Aesd
