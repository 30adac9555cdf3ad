import Aesd.Driver.Device
import Mathlib.Data.List.TakeWhile

/-!
# C strings

What the server uses of `string.h` and `stdio.h`. A C string in a block of memory is what stands
before the first NUL (`cString`), and `strchr` and `strncmp` see no more of the block than that.

`sscanf` with the format `"%u,%u"` is `sscanfCmdOffset`: each number after white space and a sign,
converted as `strtoul` does and cut to an `unsigned int`. A text that has the two numbers still
has two numbers, perhaps others, when more text follows (`sscanfCmdOffset_append`); that is why
parsing a request before all of it has arrived can succeed too early but not fail too late.
-/

namespace Aesd

/-- The C string a block begins with. -/
def cString (blk : List Byte) : List Byte :=
  blk.takeWhile (· ≠ 0)

/-- Characters as bytes. -/
def ascii (cs : List Char) : List Byte :=
  cs.map fun c ↦ UInt8.ofNat c.toNat

/-- `IOCTL_CMD_STR`. -/
def ioctlCmdStr : List Byte :=
  ascii ['A', 'E', 'S', 'D', 'C', 'H', 'A', 'R', '_', 'I', 'O', 'C', 'S', 'E', 'E', 'K', 'T', 'O',
    ':']

/-- `strchr(blk, '\n')` finds one. -/
def strchrNewline (blk : List Byte) : Bool :=
  decide (newline ∈ cString blk)

/-- `strncmp(blk, IOCTL_CMD_STR, strlen(IOCTL_CMD_STR)) == 0`. -/
def strncmpIoctl (blk : List Byte) : Bool :=
  ioctlCmdStr.isPrefixOf (cString blk)

/-! ### Scanning two numbers -/

/-- `isspace`. -/
def isSpace (c : Byte) : Bool :=
  c = 32 || (9 ≤ c && c ≤ 13)

/-- `isdigit`. -/
def isDigit (c : Byte) : Bool :=
  48 ≤ c && c ≤ 57

/-- The value of a string of digits. -/
def decimal (ds : List Byte) : ℕ :=
  ds.foldl (fun n d ↦ 10 * n + (d.toNat - 48)) 0

/-- The value of `strtoul` for a sign and digits: the largest `unsigned long` if it is too large. -/
def strtoul (negative : Bool) (ds : List Byte) : ℕ :=
  if 2 ^ 64 ≤ decimal ds then 2 ^ 64 - 1
  else if negative then (2 ^ 64 - decimal ds) % 2 ^ 64
  else decimal ds

/-- An optional sign: whether it is a minus, and what follows. -/
def scanSign : List Byte → Bool × List Byte
  | [] => (false, [])
  | c :: s => if c = 45 then (true, s) else if c = 43 then (false, s) else (false, c :: s)

/-- The conversion `%u`: the number and what follows it. -/
def scanUnsigned (s : List Byte) : Option (UInt32 × List Byte) :=
  let (negative, s) := scanSign (s.dropWhile isSpace)
  if s.takeWhile isDigit = [] then none
  else some (UInt32.ofNat (strtoul negative (s.takeWhile isDigit)), s.dropWhile isDigit)

/-- `sscanf(s, "%u,%u", &write_cmd, &write_cmd_offset) == 2`, with the two numbers. -/
def sscanfCmdOffset (s : List Byte) : Option AesdSeekto :=
  match scanUnsigned s with
  | some (writeCmd, c :: rest) =>
    if c = 44 then
      match scanUnsigned rest with
      | some (writeCmdOffset, _) => some ⟨writeCmd, writeCmdOffset⟩
      | none => none
    else none
  | _ => none

/-! ### Blocks that hold a string -/

theorem cString_eq_self {s : List Byte} (hs : 0 ∉ s) : cString s = s := by
  rw [cString, List.takeWhile_eq_self_iff]
  exact fun c hc ↦ decide_eq_true fun h0 ↦ hs (h0 ▸ hc)

/-- A NUL ends the text, or it ended before. -/
theorem cString_append_zero (s rest : List Byte) : cString (s ++ 0 :: rest) = cString s := by
  rw [cString, List.takeWhile_append, cString]
  split
  · rename_i hlen
    have hself : s.takeWhile (· ≠ 0) = s :=
      (List.takeWhile_prefix _).eq_of_length hlen
    rw [hself]
    simp
  · rfl

/-- What is seen in the text with more behind it was seen before, if there was enough of it. -/
theorem isPrefix_cString_of_append {s got data : List Byte} (hlen : s.length ≤ got.length)
    (h : s <+: cString (got ++ data)) : s <+: cString got := by
  rw [cString, List.takeWhile_append] at h
  split at h
  · rename_i hall
    have hself : cString got = got := (List.takeWhile_prefix _).eq_of_length hall
    rw [hself]
    exact List.prefix_of_prefix_length_le h (List.prefix_append ..) hlen
  · exact h

theorem strncmpIoctl_iff {blk : List Byte} :
    strncmpIoctl blk = true ↔ ioctlCmdStr <+: cString blk :=
  List.isPrefixOf_iff_prefix

/-- A string without a NUL begins a C string if it begins the block. -/
theorem isPrefix_cString_iff {s blk : List Byte} (hs : 0 ∉ s) : s <+: cString blk ↔ s <+: blk := by
  constructor
  · exact fun h ↦ h.trans (List.takeWhile_prefix _)
  · rintro ⟨rest, rfl⟩
    have hall : ∀ c ∈ s, decide (c ≠ 0) = true := fun c hc ↦
      decide_eq_true fun h0 ↦ hs (h0 ▸ hc)
    rw [cString, List.takeWhile_append_of_pos hall]
    exact List.prefix_append _ _

theorem ioctlCmdStr_isPrefix_iff {blk : List Byte} :
    ioctlCmdStr <+: cString blk ↔ ioctlCmdStr <+: blk :=
  isPrefix_cString_iff (by decide)

theorem strchrNewline_iff {blk : List Byte} : strchrNewline blk = true ↔ newline ∈ cString blk :=
  decide_eq_true_iff

/-! ### More text -/

theorem scanSign_append {s : List Byte} (hs : s ≠ []) (t : List Byte) :
    scanSign (s ++ t) = ((scanSign s).1, (scanSign s).2 ++ t) := by
  obtain ⟨c, s, rfl⟩ := List.exists_cons_of_ne_nil hs
  rw [List.cons_append, scanSign, scanSign]
  split
  · rfl
  · split <;> rfl

/-- The parts of a number that `%u` has converted. -/
theorem scanUnsigned_eq_some_iff {s rest : List Byte} {v : UInt32} :
    scanUnsigned s = some (v, rest) ↔
      (scanSign (s.dropWhile isSpace)).2.takeWhile isDigit ≠ [] ∧
        v = UInt32.ofNat (strtoul (scanSign (s.dropWhile isSpace)).1
          ((scanSign (s.dropWhile isSpace)).2.takeWhile isDigit)) ∧
        rest = (scanSign (s.dropWhile isSpace)).2.dropWhile isDigit := by
  rw [scanUnsigned]
  simp only [Option.ite_none_left_eq_some, Option.some.injEq, Prod.mk.injEq, ne_eq]
  refine and_congr_right fun _ ↦ and_congr eq_comm eq_comm

/-- Text behind the digits of a number comes behind its sign. -/
theorem scanSign_dropWhile_append {s : List Byte}
    (hdigits : (scanSign (s.dropWhile isSpace)).2.takeWhile isDigit ≠ []) (t : List Byte) :
    scanSign ((s ++ t).dropWhile isSpace) =
      ((scanSign (s.dropWhile isSpace)).1, (scanSign (s.dropWhile isSpace)).2 ++ t) := by
  have hspace : s.dropWhile isSpace ≠ [] := by
    intro hnil
    rw [hnil] at hdigits
    exact hdigits rfl
  have hdrop : (s ++ t).dropWhile isSpace = s.dropWhile isSpace ++ t := by
    rw [List.dropWhile_append, if_neg (by simpa using hspace)]
  rw [hdrop, scanSign_append hspace]

/-- Text behind a number leaves it alone if something stood behind it already. -/
theorem scanUnsigned_append {s rest : List Byte} {v : UInt32} {c : Byte}
    (h : scanUnsigned s = some (v, c :: rest)) (t : List Byte) :
    scanUnsigned (s ++ t) = some (v, c :: (rest ++ t)) := by
  obtain ⟨hdigits, hv, hrest⟩ := scanUnsigned_eq_some_iff.1 h
  have hsign := scanSign_dropWhile_append hdigits t
  set u := (scanSign (s.dropWhile isSpace)).2 with hu
  have hdropDigit : (u ++ t).dropWhile isDigit = c :: (rest ++ t) := by
    rw [List.dropWhile_append, ← hrest]
    rfl
  have htakeDigit : (u ++ t).takeWhile isDigit = u.takeWhile isDigit := by
    rw [List.takeWhile_append, if_neg]
    intro hlen
    have happend := List.takeWhile_append_dropWhile (p := isDigit) (l := u)
    rw [← hrest] at happend
    have := congrArg List.length happend
    rw [List.length_append, hlen, List.length_cons] at this
    omega
  rw [scanUnsigned_eq_some_iff, hsign]
  exact ⟨htakeDigit ▸ hdigits, htakeDigit ▸ hv, hdropDigit.symm⟩

/-- More text never takes a number away. -/
theorem isSome_scanUnsigned_append {s : List Byte} (h : (scanUnsigned s).isSome) (t : List Byte) :
    (scanUnsigned (s ++ t)).isSome := by
  obtain ⟨⟨v, rest⟩, hv⟩ := Option.isSome_iff_exists.1 h
  obtain ⟨hdigits, -, -⟩ := scanUnsigned_eq_some_iff.1 hv
  refine Option.isSome_iff_exists.2 ⟨_, scanUnsigned_eq_some_iff.2 ⟨?_, rfl, rfl⟩⟩
  rw [scanSign_dropWhile_append hdigits]
  intro hnil
  rw [List.takeWhile_append] at hnil
  split at hnil
  · rw [(List.append_eq_nil_iff.1 hnil).1] at hdigits
    exact hdigits rfl
  · exact hdigits hnil

/-- **More text never takes the two numbers away.** -/
theorem sscanfCmdOffset_append {s : List Byte} (h : (sscanfCmdOffset s).isSome) (t : List Byte) :
    (sscanfCmdOffset (s ++ t)).isSome := by
  rw [sscanfCmdOffset] at h
  split at h
  · rename_i writeCmd c rest hfirst
    split at h
    · rename_i hcomma
      split at h
      · rename_i writeCmdOffset rest' hsecond
        have hmore : (scanUnsigned rest).isSome := by rw [hsecond]; rfl
        obtain ⟨⟨o, rest''⟩, ho⟩ :=
          Option.isSome_iff_exists.1 (isSome_scanUnsigned_append hmore t)
        rw [sscanfCmdOffset, scanUnsigned_append hfirst]
        simp only [hcomma, if_true, ho]
        rfl
      · exact absurd h Bool.false_ne_true
    · exact absurd h Bool.false_ne_true
  · exact absurd h Bool.false_ne_true

/-! ### Two decimal numbers -/

/-- A nonempty string of digits for a number that fits an `unsigned int`. -/
structure Numeral (ds : List Byte) : Prop where
  ne_nil : ds ≠ []
  digits : ∀ d ∈ ds, isDigit d = true
  lt : decimal ds < 2 ^ 32

/-- A digit is neither white space nor a sign. -/
theorem not_isSpace_of_isDigit {d : Byte} (h : isDigit d = true) :
    isSpace d = false ∧ d ≠ 43 ∧ d ≠ 45 := by
  rw [isDigit, Bool.and_eq_true, decide_eq_true_iff, decide_eq_true_iff, UInt8.le_iff_toNat_le,
    UInt8.le_iff_toNat_le] at h
  refine ⟨?_, ?_, ?_⟩
  · rw [Bool.eq_false_iff, isSpace]
    simp only [ne_eq, Bool.or_eq_true, Bool.and_eq_true, decide_eq_true_eq, UInt8.le_iff_toNat_le,
      ← UInt8.toNat_inj]
    simp only [UInt8.toNat_ofNat] at h ⊢
    omega
  · rintro rfl
    exact absurd h.1 (by decide)
  · rintro rfl
    exact absurd h.1 (by decide)

theorem Numeral.scanUnsigned {ds : List Byte} (h : Numeral ds) {c : Byte} (hc : isDigit c = false)
    (rest : List Byte) :
    scanUnsigned (ds ++ c :: rest) = some (UInt32.ofNat (decimal ds), c :: rest) := by
  obtain ⟨d, ds', rfl⟩ := List.exists_cons_of_ne_nil h.ne_nil
  have hd := h.digits d (List.mem_cons_self ..)
  obtain ⟨hspace, hplus, hminus⟩ := not_isSpace_of_isDigit hd
  have hdrop : (d :: ds' ++ c :: rest).dropWhile isSpace = d :: (ds' ++ c :: rest) := by
    rw [List.cons_append, List.dropWhile_cons_of_neg (by rw [hspace]; exact Bool.false_ne_true)]
  have hsign : scanSign (d :: (ds' ++ c :: rest)) = (false, d :: ds' ++ c :: rest) := by
    rw [scanSign, if_neg hminus, if_neg hplus]
    rfl
  have htake : (d :: ds' ++ c :: rest).takeWhile isDigit = d :: ds' := by
    rw [List.takeWhile_append_of_pos h.digits,
      List.takeWhile_cons_of_neg (by rw [hc]; exact Bool.false_ne_true), List.append_nil]
  have hrest : (d :: ds' ++ c :: rest).dropWhile isDigit = c :: rest := by
    rw [List.dropWhile_append_of_pos h.digits,
      List.dropWhile_cons_of_neg (by rw [hc]; exact Bool.false_ne_true)]
  have hvalue : strtoul false (d :: ds') = decimal (d :: ds') := by
    have hlt := h.lt
    rw [strtoul, if_neg (by omega)]
    rfl
  rw [scanUnsigned_eq_some_iff, hdrop, hsign, htake, hrest, hvalue]
  exact ⟨List.cons_ne_nil d ds', rfl, rfl⟩

/-- **A command and an offset in decimal** are read as they are written. -/
theorem sscanfCmdOffset_numerals {cs os : List Byte} (hcs : Numeral cs) (hos : Numeral os) :
    sscanfCmdOffset (cs ++ 44 :: (os ++ [newline])) =
      some ⟨UInt32.ofNat (decimal cs), UInt32.ofNat (decimal os)⟩ := by
  rw [sscanfCmdOffset, hcs.scanUnsigned (by decide)]
  simp only [if_true, hos.scanUnsigned (show isDigit newline = false by decide)]

end Aesd
