import Aesd.Foundation.Reduction
import Aesd.Server.Locking
import Aesd.Service.World

/-!
# Requests one after the other

A thread that does not hold `aesdsocket_mutex` does not call the device (`Code.GuardsFiles`). So,
while the threads keep the lock discipline, every run of the server on the device is the same, for
every client and for the device, as one in which a thread that has locked the mutex takes all calls
until it unlocks it (`server_serializable`).
-/

namespace Aesd

open Execution MutualExclusion

/-- A thread that is about to close a file holds the mutex when it has. -/
def Code.GuardsFiles : Code → Prop
  | .call (.closeFile _) next => next.holds = true ∧ next.GuardsFiles
  | .call _ next => next.GuardsFiles
  | _ => True

namespace Code

variable {code code' : Code} {e : Event}

theorem guardsFiles_handle (l : Locals) : (handle l).GuardsFiles := by
  obtain ⟨seekto, h⟩ | h | h | h := handle_cases l <;> rw [h] <;> exact trivial

theorem guardsFiles_scan (l : Locals) : (scan l).GuardsFiles := by
  rcases scan_cases l with h | h
  · rw [h]
    exact guardsFiles_handle l
  · rw [h]
    exact trivial

theorem GuardsFiles.step (h : code.GuardsFiles) (hstep : Step code e code') :
    code'.GuardsFiles := by
  cases hstep with
  | call a next =>
    cases a with
    | closeFile => exact h.2
    | _ => exact h
  | recvNothing l => exact guardsFiles_handle l
  | recv l data =>
    obtain ⟨l', h⟩ | ⟨l', h⟩ := received_cases l data
    · rw [h]
      exact trivial
    · rw [h]
      exact guardsFiles_scan l'
  | reallocFails l => exact guardsFiles_handle l
  | realloc l junk => exact guardsFiles_scan _
  | ioctlFails | readIoctlEnd | write | readBackEnd => exact ⟨rfl, trivial⟩
  | _ => exact trivial

/-- Without the mutex there is no call on the device. -/
theorem GuardsFiles.op_eq_none (h : code.GuardsFiles) (hholds : code.holds = false) (c : Choice) :
    code.op c = none := by
  cases code with
  | call a next =>
    cases a with
    | closeFile fd => exact absurd (h.1.symm.trans hholds) (by simp)
    | _ => rfl
  | malloc | ret | recv | realloc => rfl
  | _ => exact absurd hholds (by simp [holds])

/-- Without the mutex there is no unlocking. -/
theorem role_ne_unlock (hholds : code.holds = false) (hstep : Step code e code') :
    e.role ≠ .unlock := by
  cases hstep with
  | call a next =>
    cases a with
    | unlock => exact absurd hholds (by simp [holds])
    | _ => simp [Event.role]
  | _ => simp [Event.role]

end Code

theorem Benign.of_isPrefix {events events' : List Event} (h : Benign events')
    (hpre : events <+: events') : Benign events := by
  obtain ⟨rest, rfl⟩ := hpre
  induction rest using List.reverseRecOn with
  | nil => rwa [List.append_nil] at h
  | append_singleton rest e ih =>
    rw [← List.append_assoc] at h
    exact ih h.of_concat

section Runs

variable {inboxes : ℕ → List (List Byte)} {xs : List (ℕ × Choice)} {trace : List (ℕ × Event)}
  {w : World}

/-- A thread that does not hold the mutex knows it, and does not call the device. -/
theorem holds_eq_false_of_run (hrun : run serve (start inboxes) xs = .ok (trace, w))
    (hbenign : ∀ i, Benign (own i trace)) {i : ℕ} (howner : w.owner ≠ some i) :
    (w.proc i).code.holds = false := by
  have hholds : ∀ j, holding ((own j trace).map Event.role) = some (w.proc j).code.holds := by
    intro j
    obtain ⟨os, hown⟩ := exists_run_own hrun j
    exact holding_of_benign hown (hbenign j)
  have hdefined : ∀ j, holding ((own j trace).map Event.role) ≠ none := fun j ↦ by
    rw [hholds j]
    exact Option.some_ne_none _
  have hself := (hholds i).symm.trans (holding_own rfl hrun hdefined i)
  rw [decide_eq_false howner] at hself
  exact Option.some.inj hself

theorem guardsFiles_of_run (hrun : run serve (start inboxes) xs = .ok (trace, w)) (i : ℕ) :
    (w.proc i).code.GuardsFiles := by
  refine forall_thread_of_run (I := fun _ _ conn ↦ conn.code.GuardsFiles) (fun _ ↦ trivial) ?_
    hrun i
  intro i events conn c a e code h hstep
  exact h.step (Code.step_cases hstep)

/-- **A thread without the mutex stands by.** -/
theorem bystands_of_run (hrun : run serve (start inboxes) xs = .ok (trace, w))
    (hbenign : ∀ i, Benign (own i trace)) (x : ℕ × Choice) : Bystands act Event.role w x := by
  intro howner e sys conn hact
  have hholds := holds_eq_false_of_run hrun hbenign howner
  have hop := (guardsFiles_of_run hrun x.1).op_eq_none hholds x.2
  have hdevice : ∀ sys, (w.proc x.1).code.device sys x.2 = .ok (⟨0, []⟩, sys) := by
    intro sys
    rw [Code.device, hop]
  obtain ⟨a, code, hdev, hstep, rfl⟩ := act_cases hact
  rw [hdevice] at hdev
  obtain ⟨rfl, rfl⟩ := Prod.mk.inj (Except.ok.inj hdev)
  exact ⟨Code.role_ne_unlock hholds (Code.step_cases hstep),
    fun _ ↦ ⟨rfl, fun sys ↦ actIn_of_ok (w.proc x.1) (hdevice sys) hstep⟩⟩

/-- **The server is serializable.** Take any run of the server on the device, with any clients and
whatever else fails, in which no thread's first `recv` delivers nothing and no command fails. The
same threads can take the same calls with the same answers in an order in which a thread that has
locked `aesdsocket_mutex` takes all calls until it unlocks it; the mutex is locked and unlocked in
the same order, and the device and all threads are left as they were. -/
theorem server_serializable (inboxes : ℕ → List (List Byte)) {xs : List (ℕ × Choice)}
    {trace : List (ℕ × Event)} {w : World}
    (hrun : run serve (start inboxes) xs = .ok (trace, w)) (hbenign : ∀ i, Benign (own i trace)) :
    ∃ xs' trace', run serve (start inboxes) xs' = .ok (trace', w) ∧
      Along serve HolderSteps (start inboxes) xs' ∧ (∀ i, own i xs' = own i xs) ∧
      (∀ i, own i trace' = own i trace) ∧
      lockings Event.role trace' = lockings Event.role trace := by
  refine exists_serial_run hrun rfl (along_of_prefixes ?_)
  rintro xs₁ x xs₂ trace₁ w₁ rfl hrun₁
  refine bystands_of_run hrun₁ (fun i ↦ (hbenign i).of_isPrefix ?_) x
  obtain ⟨trace₁', w₁', trace₂, hrun₁', -, rfl⟩ := run_append_eq_ok_iff.1 hrun
  obtain ⟨rfl, -⟩ := Prod.mk.inj (Except.ok.inj (hrun₁.symm.trans hrun₁'))
  rw [own_append]
  exact List.prefix_append _ _

/-- A second client's thread starts in the middle of a request, which ends at a refused `open`. -/
theorem server_serializable_two_clients :
    let inboxes : ℕ → List (List Byte) := fun _ ↦ [[97, newline]]
    let xs : List (ℕ × Choice) :=
      ([0, 0, 0, 1, 0, 1] : List ℕ).map (fun i ↦ (i, Choice.granting 3)) ++
        [(0, { Choice.granting 3 with fd := none })]
    ∃ trace w, run serve (start inboxes) xs = .ok (trace, w) ∧
      ∃ xs' trace', run serve (start inboxes) xs' = .ok (trace', w) ∧
        Along serve HolderSteps (start inboxes) xs' ∧ ∀ i, own i trace' = own i trace := by
  intro inboxes xs
  have heval : (run serve (start inboxes) xs).map Prod.fst =
      .ok [(0, .call .logAccepted), (0, .malloc 1024 true), (0, .call .lock),
        (1, .call .logAccepted), (0, .recv 1023 [97, newline]), (1, .malloc 1024 true),
        (0, .openFilePath none)] := by
    decide +kernel
  obtain ⟨⟨trace, w⟩, hrun, rfl⟩ := exists_of_map_eq_ok heval
  obtain ⟨xs', trace', hrun', hserial, -, hown, -⟩ := server_serializable inboxes hrun fun i ↦ by
    rcases i with - | - | i <;>
      exact ⟨by simp [own, Event.delivered, List.findSome?], by simp [own]⟩
  exact ⟨_, w, hrun, xs', trace', hrun', hserial, hown⟩

end Runs

end Aesd
