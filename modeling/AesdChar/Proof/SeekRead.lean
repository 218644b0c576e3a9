import AesdChar.Proof.Llseek
import AesdChar.Proof.Seek
import AesdChar.Proof.Slices

/-!
# Seek and read agree

The ioctl turns a command and an offset into a position, the lookup turns the position back. One is
the inverse of the other on every byte of every command. The ioctl also accepts the offset one past
the last byte of a command, which is no byte of it: as a position it is the first byte of the next
command, or the end of the content.
-/

namespace AesdChar

open Lib

/-! ### What the ioctl accepts -/

/-- The request gets through to the device, and the device takes it. -/
def Accepts (env : IoctlEnv) (kernel : Kernel) (seekto : AesdSeekto) : Prop :=
  env.copyFromUser = true ∧ env.lock = true ∧ Addresses kernel seekto ∧
    ¬ Misjudged kernel.dev.circularBuffer seekto

namespace Represents

variable {kernel : Kernel} {entries : List AesdBufferEntry} {log : Log} {lost : Finset Ptr}
  {env : IoctlEnv} {seekto : AesdSeekto}

theorem ioctl_of_accepts (h : Represents kernel entries log lost)
    (haccepts : Accepts env kernel seekto) (fPos : Int) :
    aesdUnlockedIoctl env kernel fPos AESDCHAR_IOCSEEKTO seekto =
      ⟨0, kernel, seekTarget kernel seekto⟩ := by
  obtain ⟨copy, lock⟩ := env
  obtain ⟨rfl, rfl, haddresses, hjudged⟩ := haccepts
  refine h.ioctl_of_accepted (fun hrejected => hjudged ?_) haddresses fPos
  exact (h.misjudged_iff seekto).mpr ⟨haddresses, hrejected⟩

/-- A refused request leaves the position where it was. -/
theorem ioctl_of_not_accepts (h : Represents kernel entries log lost)
    (hnot : ¬ Accepts env kernel seekto) (fPos : Int) :
    ∃ ret < 0, aesdUnlockedIoctl env kernel fPos AESDCHAR_IOCSEEKTO seekto =
      ⟨ret, kernel, fPos⟩ := by
  obtain ⟨copy, lock⟩ := env
  cases copy with
  | false => exact ⟨-EFAULT, by decide, rfl⟩
  | true =>
      cases lock with
      | false => exact ⟨-ERESTARTSYS, by decide, rfl⟩
      | true =>
          refine ⟨-EINVAL, by decide, h.ioctl_of_not_accepted ?_ fPos⟩
          by_contra hboth
          obtain ⟨hrejected, haddresses⟩ := not_or.mp hboth
          rw [not_not] at haddresses
          refine hnot ⟨rfl, rfl, haddresses, fun hmisjudged => hrejected ?_⟩
          exact ((h.misjudged_iff seekto).mp hmisjudged).2

theorem accepts_iff (h : Represents kernel entries log lost) (fPos : Int) :
    (aesdUnlockedIoctl env kernel fPos AESDCHAR_IOCSEEKTO seekto).ret = 0 ↔
      Accepts env kernel seekto := by
  constructor
  · intro hzero
    by_contra hnot
    obtain ⟨ret, hneg, hioctl⟩ := h.ioctl_of_not_accepts hnot fPos
    rw [hioctl] at hzero
    exact hneg.ne hzero
  · intro haccepts
    rw [h.ioctl_of_accepts haccepts]

/-- Reading back the position does not move it when it is in the content. -/
theorem aesdLlseek_stays (h : Represents kernel entries log lost) {pos : Nat}
    (hle : pos ≤ kernel.content.length) (lock : Bool) :
    (aesdLlseek lock kernel pos 0 SEEK_CUR).fPos = pos := by
  have hcontent := h.length_content_lt
  cases lock with
  | false => rfl
  | true =>
      have hrange : InRange (pos : Int) := ⟨by omega, by omega⟩
      rw [aesdLlseek_current, if_neg (by simp), Int.add_zero, loffT_of_lt hrange.1 hrange.2,
        h.size_eq, clampPos_eq hrange hcontent]
      simp only
      omega

end Represents

/-! ### The byte -/

/-- Whoever asks for the position a seek has left finds the byte that was asked for there. -/
structure AgreesOnByte (kernel : Kernel) (seekto : AesdSeekto) (fPos : Int) : Prop where
  stays : (aesdLlseek true kernel fPos 0 SEEK_CUR).fPos = fPos
  found : ∀ entryOffsetByteRtn, aesdCircularBufferFindEntryOffsetForFpos kernel.dev.circularBuffer
    (sizeTOfInt fPos) entryOffsetByteRtn =
      (some (Fin.ofNat _ (kernel.dev.circularBuffer.outOffs + seekto.writeCmd.toNat)),
        seekto.writeCmdOffset.toNat)
  starts : ∀ env : ReadEnv, env.Succeeds → ∀ count, 0 < count → ∃ outcome byte,
    aesdRead env kernel count fPos = some outcome ∧ outcome.buf.head? = some byte ∧
      (kernel.commands[seekto.writeCmd.toNat]?.getD [])[seekto.writeCmdOffset.toNat]? = some byte

namespace Represents

variable {kernel : Kernel} {entries : List AesdBufferEntry} {log : Log} {lost : Finset Ptr}
  {seekto : AesdSeekto}

theorem locate_seekTarget_iff (haddresses : Addresses kernel seekto) :
    locate (kernel.commands.map List.length) (seekTarget kernel seekto) =
        some (seekto.writeCmd.toNat, seekto.writeCmdOffset.toNat) ↔
      seekto.writeCmdOffset.toNat < (kernel.commands[seekto.writeCmd.toNat]?.getD []).length := by
  obtain ⟨hlt, -⟩ := haddresses
  have hlength : seekto.writeCmd.toNat < (kernel.commands.map List.length).length := by
    rw [List.length_map]
    exact hlt
  rw [locate_eq_some_iff, List.getElem?_eq_getElem hlt, Option.getD_some]
  simp only [List.getElem_map, seekTarget, List.map_take, true_and]
  exact ⟨fun ⟨_, hoffset⟩ => hoffset, fun hoffset => ⟨hlength, hoffset⟩⟩

theorem found_iff (h : Represents kernel entries log lost) (haddresses : Addresses kernel seekto)
    (entryOffsetByteRtn : Nat) :
    aesdCircularBufferFindEntryOffsetForFpos kernel.dev.circularBuffer
        (sizeTOfInt (seekTarget kernel seekto)) entryOffsetByteRtn =
          (some (Fin.ofNat _ (kernel.dev.circularBuffer.outOffs + seekto.writeCmd.toNat)),
            seekto.writeCmdOffset.toNat) ↔
      seekto.writeCmdOffset.toNat < (kernel.commands[seekto.writeCmd.toNat]?.getD []).length := by
  have hcount := h.length_commands_le
  have htarget : seekTarget kernel seekto < 2 ^ 64 :=
    (seekTarget_le haddresses).trans_lt (h.length_content_lt.trans (by decide))
  have hplaces : ∀ place ∈ locate (kernel.commands.map List.length) (seekTarget kernel seekto),
      place.1 < maxWriteOperationsSupported := by
    intro place hplace
    obtain ⟨hlt, -⟩ := locate_eq_some_iff_decomposes.mp hplace
    rw [List.length_map] at hlt
    exact hlt.trans_le hcount
  rw [sizeTOfInt_of_lt htarget, h.find_eq htarget,
    lookupResult_eq_some_iff _ _ hplaces (haddresses.1.trans_le hcount),
    locate_seekTarget_iff haddresses]

theorem starts_of_lt (h : Represents kernel entries log lost) (haddresses : Addresses kernel seekto)
    (hoffset : seekto.writeCmdOffset.toNat <
      (kernel.commands[seekto.writeCmd.toNat]?.getD []).length)
    {env : ReadEnv} (henv : env.Succeeds) {count : Nat} (hcount : 0 < count) :
    ∃ outcome byte, aesdRead env kernel count (seekTarget kernel seekto) = some outcome ∧
      outcome.buf.head? = some byte ∧
      (kernel.commands[seekto.writeCmd.toNat]?.getD [])[seekto.writeCmdOffset.toNat]? =
        some byte := by
  have htarget : seekTarget kernel seekto < 2 ^ 63 :=
    (seekTarget_le haddresses).trans_lt h.length_content_lt
  set command := kernel.commands[seekto.writeCmd.toNat]?.getD [] with hcommand
  refine ⟨_, command[seekto.writeCmdOffset.toNat],
    h.aesdRead_of_success henv count htarget, ?_, List.getElem?_eq_getElem hoffset⟩
  have hslice : (kernel.content.drop (seekTarget kernel seekto)).take 1 =
      (command.drop seekto.writeCmdOffset.toNat).take 1 :=
    take_drop_flatten ((locate_seekTarget_iff haddresses).mpr hoffset) hoffset
  calc
    ((kernel.content.drop (seekTarget kernel seekto)).take count).head? =
        ((kernel.content.drop (seekTarget kernel seekto)).take 1).head? := by
      rw [List.head?_take, List.head?_take, if_neg hcount.ne', if_neg Nat.one_ne_zero]
    _ = ((command.drop seekto.writeCmdOffset.toNat).take 1).head? := congrArg List.head? hslice
    _ = some command[seekto.writeCmdOffset.toNat] := by
      rw [List.head?_take, if_neg Nat.one_ne_zero, List.head?_drop,
        List.getElem?_eq_getElem hoffset]

theorem agreesOnByte_iff (h : Represents kernel entries log lost)
    (haddresses : Addresses kernel seekto) :
    AgreesOnByte kernel seekto (seekTarget kernel seekto) ↔
      seekto.writeCmdOffset.toNat < (kernel.commands[seekto.writeCmd.toNat]?.getD []).length := by
  constructor
  · intro hagrees
    exact (h.found_iff haddresses 0).mp (hagrees.found 0)
  · intro hoffset
    exact ⟨h.aesdLlseek_stays (seekTarget_le haddresses) true,
      fun rtn => (h.found_iff haddresses rtn).mpr hoffset,
      fun _ henv _ hcount => h.starts_of_lt haddresses hoffset henv hcount⟩

end Represents

/-- **Seek and read agree exactly on the bytes of commands**: whenever the ioctl accepts a request,
the position it leaves is that of the requested byte if the offset is inside the command. The offset
at its end is accepted as well, and is the only other one. -/
theorem seek_agrees_iff (config : KmallocConfig) (calls : List Call) (env : IoctlEnv) (fPos : Int)
    (seekto : AesdSeekto)
    (haccepted : (aesdUnlockedIoctl env ((System.init config).run calls).kernel fPos
      AESDCHAR_IOCSEEKTO seekto).ret = 0) :
    let kernel := ((System.init config).run calls).kernel
    AgreesOnByte kernel seekto (aesdUnlockedIoctl env kernel fPos AESDCHAR_IOCSEEKTO seekto).fPos ↔
      seekto.writeCmdOffset.toNat < (kernel.commands[seekto.writeCmd.toNat]?.getD []).length := by
  intro kernel
  obtain ⟨entries, log, lost, hrep⟩ := run_represents config calls
  have h : Represents kernel entries log lost := hrep
  have haccepts := (h.accepts_iff fPos).mp haccepted
  rw [h.ioctl_of_accepts haccepts]
  exact h.agreesOnByte_iff haccepts.2.2.1

theorem seek_agrees_iff_newline :
    let kernel := ((System.init ⟨2 ^ 22, by decide, fun _ => 0⟩).run [plainWrite 0 [97, 10]]).kernel
    AgreesOnByte kernel ⟨0, 1⟩
      (aesdUnlockedIoctl ⟨true, true⟩ kernel 0 AESDCHAR_IOCSEEKTO ⟨0, 1⟩).fPos := by
  intro kernel
  exact (seek_agrees_iff ⟨2 ^ 22, by decide, fun _ => 0⟩ [plainWrite 0 [97, 10]] ⟨true, true⟩ 0
    ⟨0, 1⟩ (by decide)).mpr (by decide)

/-- The offset behind a command of two bytes is accepted, and there is nothing to read there. -/
theorem not_agreesOnByte_at_end :
    let kernel := ((System.init ⟨2 ^ 22, by decide, fun _ => 0⟩).run [plainWrite 0 [97, 10]]).kernel
    let outcome := aesdUnlockedIoctl ⟨true, true⟩ kernel 0 AESDCHAR_IOCSEEKTO ⟨0, 2⟩
    outcome.ret = 0 ∧ ¬ AgreesOnByte kernel ⟨0, 2⟩ outcome.fPos := by
  intro kernel outcome
  refine ⟨by decide, fun hagrees => ?_⟩
  have hfound : aesdCircularBufferFindEntryOffsetForFpos kernel.dev.circularBuffer
      (sizeTOfInt outcome.fPos) 0 = (none, 0) := by decide
  have hslot := hagrees.found 0
  rw [hfound] at hslot
  cases hslot

end AesdChar
