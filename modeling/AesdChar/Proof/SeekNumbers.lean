import AesdChar.Proof.Scan
import AesdChar.Proof.SeekReply

/-!
# The numbers of a seek command

A client writes numbers of any length. The conversion makes 64 bits of them, the variables they are
stored in keep 32, and only then does the driver compare them with what it has. A number that is too
large can therefore come out as one that is not, and the seek goes to a place nobody asked for.
-/

namespace AesdChar

open Lib

/-- What becomes of a number on its way through `sscanf` into an `unsigned int`. -/
def converted (number : Nat) : Nat := min number (2 ^ 64 - 1) % 2 ^ 32

/-- There is a command of the age, and the offset is in it or at its end. -/
def AddressesAt (kernel : Kernel) (age offset : Nat) : Prop :=
  ∃ h : age < kernel.commands.length, offset ≤ kernel.commands[age].length

/-- Where a command starts in the content. -/
def startOf (kernel : Kernel) (age : Nat) : Nat :=
  ((kernel.commands.take age).map List.length).sum

/-- The seek succeeds if there is such a place, and then leads there. -/
structure SeeksTo (kernel : Kernel) (age offset : Nat) (outcome : Outcome) : Prop where
  ret_eq_zero_iff : outcome.ret = 0 ↔ AddressesAt kernel age offset
  fPos_of_success : outcome.ret = 0 → outcome.fPos = (startOf kernel age + offset : Nat)

/-- The conversion has changed a number, and there is a place for what it made of them. -/
def Misread (kernel : Kernel) (age offset : Nat) : Prop :=
  ¬ (converted age = age ∧ converted offset = offset) ∧
    AddressesAt kernel (converted age) (converted offset)

/-! ### The conversion -/

theorem converted_of_lt {number : Nat} (hlt : number < 2 ^ 32) : converted number = number := by
  unfold converted
  omega

theorem converted_le (number : Nat) : converted number ≤ number := by
  unfold converted
  omega

theorem toNat_ofNat_strtoul (digits : Bytes) :
    (UInt32.ofNat (strtoul false digits)).toNat = converted (digitsValue digits) := by
  have hmin : strtoul false digits = min (digitsValue digits) (2 ^ 64 - 1) := by
    unfold strtoul
    split
    · omega
    · rw [if_neg (by simp)]
      omega
  rw [UInt32.toNat_ofNat', hmin, converted]

/-- The bytes of a seek command behind its prefix. -/
def seekText (xs ys : Bytes) : Bytes := xs ++ 44 :: (ys ++ [newline])

/-- What follows the newline does not matter. -/
theorem scanSeekto_seekText {xs ys : Bytes} (hxs : IsNumeral xs) (hys : IsNumeral ys)
    (rest : Bytes) :
    scanSeekto (cString (seekText xs ys ++ rest)) =
      some ⟨UInt32.ofNat (strtoul false xs), UInt32.ofNat (strtoul false ys)⟩ := by
  have htext : seekText xs ys ++ rest = xs ++ 44 :: (ys ++ newline :: rest) := by
    simp [seekText]
  obtain ⟨hsign, hdigits, hrest⟩ :=
    hxs.scan_append (by decide : isDigit 44 = false) (ys ++ newline :: rest)
  obtain ⟨hsign', hdigits', -⟩ := hys.scan_append (by decide : isDigit newline = false) rest
  rw [scanSeekto_cString, htext, scanSeekto_of_comma (by rw [hdigits]; exact hxs.ne_nil) hrest,
    if_neg (by rw [hdigits']; exact hys.ne_nil), numberOf, numberOf, hsign, hdigits, hsign',
    hdigits']

/-! ### The seek -/

namespace Represents

variable {kernel : Kernel} {entries : List AesdBufferEntry} {log : Log} {lost : Finset Ptr}

/-- Before the ring wraps, a command's age is its slot's number. -/
theorem not_misjudged_of_outOffs_eq_zero (hunwrapped : kernel.dev.circularBuffer.outOffs = 0)
    (seekto : AesdSeekto) : ¬ Misjudged kernel.dev.circularBuffer seekto := by
  rintro ⟨-, hshort, hlong⟩
  rw [hunwrapped, Fin.val_zero, Nat.zero_add] at hlong
  exact absurd hlong (Nat.not_le.mpr hshort)

theorem seeksTo_iff (h : Represents kernel entries log lost)
    (hunwrapped : kernel.dev.circularBuffer.outOffs = 0) {seekto : AesdSeekto} {age offset : Nat}
    (hage : seekto.writeCmd.toNat = converted age)
    (hoffset : seekto.writeCmdOffset.toNat = converted offset) (fPos : Int) :
    SeeksTo kernel age offset
        (aesdUnlockedIoctl ⟨true, true⟩ kernel fPos AESDCHAR_IOCSEEKTO seekto) ↔
      ¬ Misread kernel age offset := by
  have hplace : Addresses kernel seekto ↔
      AddressesAt kernel (converted age) (converted offset) := by
    rw [← hage, ← hoffset]
    exact Iff.rfl
  -- a place that exists is one of at most ten commands
  have hexists : AddressesAt kernel age offset → converted age = age ∧
      AddressesAt kernel (converted age) (converted offset) := by
    rintro ⟨hlt, hle⟩
    have hten := h.length_commands_le
    have hsame : converted age = age := converted_of_lt (by omega)
    refine ⟨hsame, ?_⟩
    rw [hsame]
    exact ⟨hlt, (converted_le offset).trans hle⟩
  by_cases haddresses : AddressesAt kernel (converted age) (converted offset)
  · have htarget : seekTarget kernel seekto =
        startOf kernel (converted age) + converted offset := by
      rw [seekTarget, hage, hoffset, startOf]
    rw [h.ioctl_of_accepts ⟨rfl, rfl, hplace.mpr haddresses,
      not_misjudged_of_outOffs_eq_zero hunwrapped seekto⟩, htarget]
    constructor
    · rintro ⟨hiff, hfPos⟩ ⟨hchanged, -⟩
      obtain ⟨hsame, -⟩ := hexists (hiff.mp rfl)
      have hpos := Int.natCast_inj.mp (hfPos rfl)
      rw [hsame] at hpos
      exact hchanged ⟨hsame, Nat.add_left_cancel hpos⟩
    · intro hnot
      obtain ⟨hsame, hsame'⟩ := not_not.mp fun hchanged => hnot ⟨hchanged, haddresses⟩
      rw [hsame, hsame'] at haddresses ⊢
      exact ⟨iff_of_true rfl haddresses, fun _ => rfl⟩
  · have hnot : ¬ Accepts ⟨true, true⟩ kernel seekto := fun haccepts =>
      haddresses (hplace.mp haccepts.2.2.1)
    obtain ⟨ret, hneg, hioctl⟩ := h.ioctl_of_not_accepts hnot fPos
    rw [hioctl]
    refine iff_of_true ⟨?_, fun hzero => absurd hzero hneg.ne⟩ fun hmisread =>
      haddresses hmisread.2
    exact iff_of_false hneg.ne fun hplain => haddresses (hexists hplain).2

end Represents

/-- **The numbers mean what the client wrote exactly when they survive the conversion**, or what it
makes of them leads nowhere. The buffer may hold anything, the numbers may have any length. -/
theorem seek_numbers_iff (config : KmallocConfig) (calls : List Call) (env : ClientEnv)
    (state : ClientState) (hkernel : state.kernel = ((System.init config).run calls).kernel)
    (hunwrapped : state.kernel.dev.circularBuffer.outOffs = 0)
    (hioctl : env.ioctl state.clock = ⟨true, true⟩) {xs ys : Bytes} (hxs : IsNumeral xs)
    (hys : IsNumeral ys) :
    let chunk := ioctlPrefix ++ seekText xs ys
    ∃ seekto, IsSeekCommand (overlay state.buffer chunk) ∧
      scanSeekto (cString ((overlay state.buffer chunk).drop ioctlPrefixLen)) = some seekto ∧
      handleChunk env state chunk = (seekReply env (state.receive chunk) seekto).map .next ∧
      (SeeksTo state.kernel (digitsValue xs) (digitsValue ys)
          (aesdUnlockedIoctl (env.ioctl state.clock) state.kernel state.fPos AESDCHAR_IOCSEEKTO
            seekto) ↔
        ¬ Misread state.kernel (digitsValue xs) (digitsValue ys)) := by
  intro chunk
  obtain ⟨entries, log, lost, hrep⟩ := run_represents config calls
  have h : Represents state.kernel entries log lost := hkernel ▸ hrep
  have hseek := isSeekCommand_overlay state.buffer (seekText xs ys)
  have hscan : scanSeekto (cString ((overlay state.buffer chunk).drop ioctlPrefixLen)) =
      some ⟨UInt32.ofNat (strtoul false xs), UInt32.ofNat (strtoul false ys)⟩ := by
    rw [drop_overlay_ioctlPrefix]
    exact scanSeekto_seekText hxs hys _
  refine ⟨_, hseek, hscan, ?_, ?_⟩
  · simp only [handleChunk, ClientState.receive_buffer, chunk, hseek, if_true, hscan]
  · rw [hioctl]
    exact h.seeksTo_iff hunwrapped (toNat_ofNat_strtoul xs) (toNat_ofNat_strtoul ys) state.fPos

theorem seek_numbers_iff_last_byte :
    let kernel := ((System.init ⟨2 ^ 22, by decide, fun _ => 0⟩).run [plainWrite 0 [97, 10]]).kernel
    let state : ClientState := ⟨kernel, 0, [], [], 0⟩
    ∃ seekto, handleChunk smoothEnv state (ioctlPrefix ++ seekText [48] [49]) =
        (seekReply smoothEnv (state.receive (ioctlPrefix ++ seekText [48] [49])) seekto).map .next ∧
      SeeksTo kernel 0 1 (aesdUnlockedIoctl ⟨true, true⟩ kernel 0 AESDCHAR_IOCSEEKTO seekto) := by
  intro kernel state
  have hzero : IsNumeral [48] := ⟨by simp, by simp; decide⟩
  have hone : IsNumeral [49] := ⟨by simp, by simp; decide⟩
  obtain ⟨seekto, -, -, hchunk, hseeks⟩ := seek_numbers_iff ⟨2 ^ 22, by decide, fun _ => 0⟩
    [plainWrite 0 [97, 10]] smoothEnv state rfl (by decide) rfl hzero hone
  refine ⟨seekto, hchunk, hseeks.mpr fun hmisread => hmisread.1 ?_⟩
  exact ⟨converted_of_lt (by simp [digitsValue]), converted_of_lt (by simp [digitsValue])⟩

/-- `4294967296`. -/
def tooLarge : Bytes := [52, 50, 57, 52, 57, 54, 55, 50, 57, 54]

/-- One command is stored, and the seek to command 2 ^ 32 is accepted. -/
theorem not_seeksTo_tooLarge :
    let kernel := ((System.init ⟨2 ^ 22, by decide, fun _ => 0⟩).run [plainWrite 0 [97, 10]]).kernel
    let chunk := ioctlPrefix ++ seekText tooLarge [48]
    let outcome := aesdUnlockedIoctl ⟨true, true⟩ kernel 0 AESDCHAR_IOCSEEKTO ⟨0, 0⟩
    kernel.dev.circularBuffer.outOffs = 0 ∧ digitsValue tooLarge = 2 ^ 32 ∧
      IsSeekCommand (overlay [] chunk) ∧
      scanSeekto (cString ((overlay [] chunk).drop ioctlPrefixLen)) = some ⟨0, 0⟩ ∧
      outcome.ret = 0 ∧ ¬ SeeksTo kernel (digitsValue tooLarge) (digitsValue [48]) outcome := by
  intro kernel chunk outcome
  have hret : outcome.ret = 0 := by decide
  refine ⟨by decide, by decide, by decide, by decide, hret, fun hseeks => ?_⟩
  obtain ⟨hlt, -⟩ := hseeks.ret_eq_zero_iff.mp hret
  have hcount : kernel.commands.length = 1 := by decide
  have hvalue : digitsValue tooLarge = 2 ^ 32 := by decide
  rw [hcount, hvalue] at hlt
  exact absurd hlt (by decide)

end AesdChar
