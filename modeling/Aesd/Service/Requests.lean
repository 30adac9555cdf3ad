import Aesd.Server.Decision
import Aesd.Service.World

/-!
# Requests and how they arrive

A well-behaved client sends a `Request`: a line, cut into chunks in any way, or a command for the
device in one chunk (`Request.Sends`). Until all of it has arrived, the receive loop has part of a
line or nothing (`Request.Part`, `Request.Awaits`); each `recv` brings more (`Awaits.recv`). With
all of it, and not before, the loop ends, and the thread goes on to `Request.entry`
(`scan_of_bytes`, `scan_of_part`).
-/

namespace Aesd

open Code

/-- A client's request. -/
inductive Request
  | line (m : List Byte)
  /-- `AESDCHAR_IOCSEEKTO:`, the number of a command and an offset, both in decimal. -/
  | seek (cs os : List Byte)

namespace Request

/-- The bytes of the request. -/
def bytes : Request → List Byte
  | line m => m
  | seek cs os => ioctlCmdStr ++ (cs ++ 44 :: (os ++ [newline]))

/-- The pair that `sscanf` finds. -/
def seekto (cs os : List Byte) : AesdSeekto :=
  ⟨UInt32.ofNat (decimal cs), UInt32.ofNat (decimal os)⟩

/-- The client sends the request in these chunks: a line that one write can take, cut in any way;
or a command for the device that one `recv` can take. -/
inductive Sends : Request → List (List Byte) → Prop
  | line {m : List Byte} {chunks : List (List Byte)} (hline : IsLine m)
      (hother : ¬ ioctlCmdStr <+: m) (hlen : m.length ≤ maxRwCount) (hcut : chunks.flatten = m)
      (hne : [] ∉ chunks) : Sends (.line m) chunks
  | seek {cs os : List Byte} (hcs : Numeral cs) (hos : Numeral os)
      (hlen : (Request.seek cs os).bytes.length ≤ 1023) :
      Sends (.seek cs os) [(Request.seek cs os).bytes]

/-- Where the thread is when it has received all of the request. -/
def entry (l : Locals) : Request → Code
  | line _ => openWrite l
  | seek cs os => openIoctl l (seekto cs os)

/-- Part of a line has been received, the rest is in `inbox`. -/
def Part (r : Request) (got : List Byte) (inbox : List (List Byte)) : Prop :=
  ∃ m, r = .line m ∧ got ++ inbox.flatten = m ∧ [] ∉ inbox ∧ got ≠ m

/-- The loop waits for the request, or for the rest of it. -/
def Awaits (r : Request) (l : Locals) (got : List Byte) (inbox : List (List Byte)) : Prop :=
  l.Ready got ∧
    (r.Part got inbox ∨ (got = [] ∧ inbox = [r.bytes] ∧ r.bytes.length ≤ 1023 ∧
      l.buffer.length = 1024))

variable {r : Request} {chunks inbox : List (List Byte)} {l : Locals} {got : List Byte}

/-! ### The bytes of a request -/

theorem zero_not_mem_of_digits {ds : List Byte} (h : Numeral ds) : 0 ∉ ds := by
  intro hmem
  exact absurd (h.digits 0 hmem) (by decide)

theorem Sends.zero_not_mem (h : r.Sends chunks) : 0 ∉ r.bytes := by
  cases h with
  | line hline => exact hline.nonul
  | seek hcs hos hlen =>
    rw [bytes, List.mem_append, List.mem_append, List.mem_cons, List.mem_append, List.mem_singleton]
    rintro (hcmd | hc | heq | ho | heq)
    · exact absurd hcmd (by decide)
    · exact zero_not_mem_of_digits hcs hc
    · exact absurd heq (by decide)
    · exact zero_not_mem_of_digits hos ho
    · exact absurd heq (by decide)

theorem Sends.newline_mem (h : r.Sends chunks) : newline ∈ r.bytes := by
  cases h with
  | line hline => exact hline.newline_mem
  | seek hcs hos hlen => simp [bytes]

theorem Sends.ne_nil (h : r.Sends chunks) : r.bytes ≠ [] := by
  intro hnil
  have hmem := h.newline_mem
  rw [hnil] at hmem
  exact absurd hmem List.not_mem_nil

/-- One `write` takes all of it. -/
theorem Sends.length_le (h : r.Sends chunks) : r.bytes.length ≤ maxRwCount := by
  cases h with
  | line hline hother hlen => exact hlen
  | seek hcs hos hlen => exact hlen.trans (by decide)

/-- **What the thread does with the whole request.** -/
theorem handle_eq_entry (h : r.Sends chunks) (hl : l.Contains r.bytes) : handle l = r.entry l := by
  have hself := cString_eq_self h.zero_not_mem
  rw [hl.handle_eq h.ne_nil, hself]
  cases h with
  | line hline hother => exact if_neg hother
  | seek hcs hos hlen =>
    rw [bytes, if_pos (List.prefix_append _ _), List.drop_left, sscanfCmdOffset_numerals hcs hos]
    rfl

/-! ### The receive loop -/

/-- The loop ends with the whole request. -/
theorem scan_of_bytes (h : r.Sends chunks) (hl : l.Contains r.bytes) : scan l = r.entry l := by
  have hself := cString_eq_self h.zero_not_mem
  rw [hl.scan_eq h.ne_nil, hself, if_pos (Or.inl h.newline_mem), handle_eq_entry h hl]

/-- The loop goes on with part of a line. -/
theorem scan_of_part (h : r.Sends chunks) (hl : l.Contains got) (hne : got ≠ [])
    (hpart : r.Part got inbox) : scan l = recv l := by
  obtain ⟨m, rfl, hflatten, -, hpart⟩ := hpart
  cases h with
  | line hline hother =>
    have hgot : got <+: m := ⟨inbox.flatten, hflatten⟩
    rw [hl.scan_eq hne, hline.cString_eq hgot, if_neg]
    rintro (hmem | hstart)
    · exact hpart ((hline.newline_mem_iff hgot).1 hmem)
    · exact hother (hstart.trans hgot)

theorem nil_not_mem_consume (h : [] ∉ inbox) (n : ℕ) : [] ∉ consume n inbox := by
  rcases inbox with - | ⟨chunk, inbox⟩
  · exact h
  · rw [List.mem_cons, not_or] at h
    rw [consume]
    split
    · exact h.2
    · rename_i hpart
      rw [List.mem_cons, not_or]
      refine ⟨fun hnil ↦ ?_, h.2⟩
      exact hpart (List.drop_eq_nil_iff.1 hnil.symm)

/-- **Each `recv` brings something**: the rest of the request, or more of it. -/
theorem Awaits.recv (hsends : r.Sends chunks) (h : r.Awaits l got inbox) :
    (inbox.head?.getD []).take (asked l) ≠ [] ∧
      (got ++ (inbox.head?.getD []).take (asked l) = r.bytes ∨
        r.Part (got ++ (inbox.head?.getD []).take (asked l))
          (consume ((inbox.head?.getD []).take (asked l)).length inbox)) := by
  obtain ⟨hready, ⟨m, rfl, hflatten, hne, hpart⟩ | ⟨rfl, rfl, hlen, hbuffer⟩⟩ := h
  · have hpos := hready.asked_pos
    refine ⟨?_, ?_⟩
    · rcases inbox with - | ⟨chunk, inbox⟩
      · rw [List.flatten_nil, List.append_nil] at hflatten
        exact absurd hflatten hpart
      · rw [List.mem_cons, not_or] at hne
        rw [List.head?_cons, Option.getD_some, Ne, List.take_eq_nil_iff]
        rintro (hzero | hnil)
        · omega
        · exact hne.1 hnil.symm
    · have hnext := take_append_consume (asked l) inbox
      rw [← hnext, ← List.append_assoc] at hflatten
      rcases eq_or_ne (got ++ (inbox.head?.getD []).take (asked l)) m with hall | hmore
      · exact Or.inl hall
      · exact Or.inr ⟨m, rfl, hflatten, nil_not_mem_consume hne _, hmore⟩
  · have hasked := hready.asked_eq
    rw [hbuffer, List.length_nil] at hasked
    have hwhole : (([r.bytes].head?).getD []).take (asked l) = r.bytes :=
      List.take_of_length_le (by rw [hasked]; exact hlen)
    rw [hwhole, List.nil_append]
    exact ⟨hsends.ne_nil, Or.inl rfl⟩

/-- Nothing has been received yet. -/
theorem Sends.awaits (h : r.Sends chunks) (junk : Junk) :
    r.Awaits ⟨Memory.resize [] 1024 junk, 1024, 0⟩ [] chunks := by
  refine ⟨Locals.Ready.init junk, ?_⟩
  cases h with
  | line hline hother hlen hcut hne => exact Or.inl ⟨_, rfl, hcut, hne, hline.ne_nil.symm⟩
  | seek hcs hos hlen =>
    refine Or.inr ⟨rfl, rfl, hlen, ?_⟩
    simp only [Memory.length_resize]

/-- What has been received is no longer than the request. -/
theorem Part.length_lt (h : r.Part got inbox) : got.length < r.bytes.length := by
  obtain ⟨m, rfl, hflatten, -, hpart⟩ := h
  have hgot : got <+: m := ⟨inbox.flatten, hflatten⟩
  exact Nat.lt_of_le_of_ne hgot.length_le fun heq ↦ hpart (hgot.eq_of_length heq)

theorem Awaits.length_lt (hsends : r.Sends chunks) (h : r.Awaits l got inbox) :
    got.length < r.bytes.length := by
  obtain ⟨-, hpart | ⟨rfl, -⟩⟩ := h
  · exact hpart.length_lt
  · exact List.length_pos_iff.2 hsends.ne_nil

end Request

end Aesd
