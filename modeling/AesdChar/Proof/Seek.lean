import AesdChar.Proof.Step

/-!
# Seeking to a command

The ioctl checks the request against the slot whose number is the requested command's, and then
walks that many slots from the oldest one. The two are the same slot until the ring wraps.
Afterwards the first check judges some other command, and the request fails when that one is too
short for the offset although the addressed one is not.
-/

namespace AesdChar

open Lib

/-- There is a command of the requested age, and the offset is in it or at its end. -/
def Addresses (kernel : Kernel) (seekto : AesdSeekto) : Prop :=
  ∃ h : seekto.writeCmd.toNat < kernel.commands.length,
    seekto.writeCmdOffset.toNat ≤ kernel.commands[seekto.writeCmd.toNat].length

def seekTarget (kernel : Kernel) (seekto : AesdSeekto) : Nat :=
  ((kernel.commands.take seekto.writeCmd.toNat).map List.length).sum + seekto.writeCmdOffset.toNat

/-- What the ioctl is for. -/
structure SeeksByAge (kernel : Kernel) (fPos : Int) (seekto : AesdSeekto) (outcome : Outcome) :
    Prop where
  ret_eq_zero_iff : outcome.ret = 0 ↔ Addresses kernel seekto
  fPos_of_success : outcome.ret = 0 → outcome.fPos = seekTarget kernel seekto
  of_failure : outcome.ret ≠ 0 → outcome.ret = -EINVAL ∧ outcome.fPos = fPos
  kernel_eq : outcome.kernel = kernel

/-- The slot numbered like the requested command is too short for the offset, the slot holding the
command of that age is not. -/
def Misjudged (buffer : AesdCircularBuffer) (seekto : AesdSeekto) : Prop :=
  seekto.writeCmd.toNat < buffer.count ∧
    (buffer.entry (Fin.ofNat _ seekto.writeCmd.toNat)).size < seekto.writeCmdOffset.toNat ∧
    seekto.writeCmdOffset.toNat ≤
      (buffer.entry (Fin.ofNat _ (buffer.outOffs + seekto.writeCmd.toNat))).size

theorem seekWalk_eq (buffer : AesdCircularBuffer) :
    ∀ steps start offset : Nat,
      offset + ((Ring.window buffer.entry start steps).map (·.size)).sum < 2 ^ 63 →
      seekWalk buffer steps (Fin.ofNat _ start) offset = (Fin.ofNat _ (start + steps),
        ((offset + ((Ring.window buffer.entry start steps).map (·.size)).sum : Nat) : Int)) := by
  intro steps
  induction steps with
  | zero => intro start offset _; rfl
  | succ steps ih =>
      intro start offset hsum
      rw [Ring.window_succ, List.map_cons, List.sum_cons] at hsum ⊢
      have hnext : Ring.next (Fin.ofNat maxWriteOperationsSupported start) =
          Fin.ofNat _ (start + 1) := Fin.ext (Nat.mod_add_mod start _ 1)
      rw [seekWalk, hnext, loffT_natCast_add (by omega), ih (start + 1) _ (by omega)]
      rw [Nat.add_assoc start, Nat.add_comm 1 steps, Nat.add_assoc offset]

theorem seekTarget_le {kernel : Kernel} {seekto : AesdSeekto}
    (haddresses : Addresses kernel seekto) : seekTarget kernel seekto ≤ kernel.content.length := by
  obtain ⟨hlt, hle⟩ := haddresses
  calc
    seekTarget kernel seekto ≤ ((kernel.commands.take seekto.writeCmd.toNat).map List.length).sum +
        kernel.commands[seekto.writeCmd.toNat].length := Nat.add_le_add_left hle _
    _ = ((kernel.commands.take (seekto.writeCmd.toNat + 1)).map List.length).sum := by
      rw [List.take_succ_eq_append_getElem hlt, List.map_append, List.sum_append]
      simp
    _ ≤ kernel.content.length := by
      rw [Kernel.content, List.length_flatten, List.map_take]
      exact (Nat.le_add_right _ _).trans (List.sum_take_add_sum_drop _ _).le

namespace Represents

variable {kernel : Kernel} {entries : List AesdBufferEntry} {log : Log} {lost : Finset Ptr}

/-- The first check, on the slot with the command's number. -/
theorem seekRejected_eq (h : Represents kernel entries log lost) (seekto : AesdSeekto) :
    seekRejected kernel.dev.circularBuffer seekto = true ↔
      (seekto.writeCmd.toNat < kernel.commands.length →
        (kernel.dev.circularBuffer.entry (Fin.ofNat _ seekto.writeCmd.toNat)).size <
          seekto.writeCmdOffset.toNat) := by
  have hcount := h.length_commands_le
  unfold seekRejected
  by_cases hslot : seekto.writeCmd.toNat < maxWriteOperationsSupported
  · have hindex : (⟨seekto.writeCmd.toNat, hslot⟩ : Slot) = Fin.ofNat _ seekto.writeCmd.toNat :=
      Fin.ext (Nat.mod_eq_of_lt hslot).symm
    have hnone := h.buffptr_eq_none_iff ⟨seekto.writeCmd.toNat, hslot⟩
    simp only [dif_pos hslot, decide_eq_true_eq, hnone, ← hindex]
    rw [← Nat.not_lt]
    exact Decidable.imp_iff_not_or.symm
  · have hage : ¬ seekto.writeCmd.toNat < kernel.commands.length := fun hlt =>
      hslot (Nat.lt_of_lt_of_le hlt hcount)
    simp [hslot, hage]

theorem seekWalk_of_lt (h : Represents kernel entries log lost) {steps : Nat}
    (hlt : steps < kernel.commands.length) :
    seekWalk kernel.dev.circularBuffer steps kernel.dev.circularBuffer.outOffs 0 =
      (Fin.ofNat _ (kernel.dev.circularBuffer.outOffs + steps),
        ((((kernel.commands.take steps).map List.length).sum : Nat) : Int)) := by
  have hcontent := h.length_content_lt
  have hwindow : (Ring.window kernel.dev.circularBuffer.entry
      kernel.dev.circularBuffer.outOffs steps).map (·.size) =
      (kernel.commands.take steps).map List.length := by
    rw [List.map_take, ← h.sizes_eq, AesdCircularBuffer.stored, ← List.map_take,
      Ring.take_window _ _ (by rw [h.count_eq]; exact hlt.le)]
  have hsum : ((kernel.commands.take steps).map List.length).sum ≤ kernel.content.length := by
    rw [Kernel.content, List.length_flatten,
      ← List.sum_take_add_sum_drop (kernel.commands.map List.length) steps, List.map_take]
    exact Nat.le_add_right _ _
  have hwalk := seekWalk_eq kernel.dev.circularBuffer steps kernel.dev.circularBuffer.outOffs 0
    (by rw [hwindow]; omega)
  rw [hwindow, Nat.zero_add, Fin.ofNat_val_eq_self] at hwalk
  exact hwalk

theorem addresses_iff (h : Represents kernel entries log lost) {seekto : AesdSeekto}
    (hlt : seekto.writeCmd.toNat < kernel.commands.length) :
    Addresses kernel seekto ↔ seekto.writeCmdOffset.toNat ≤ (kernel.dev.circularBuffer.entry
      (Fin.ofNat _ (kernel.dev.circularBuffer.outOffs + seekto.writeCmd.toNat))).size := by
  obtain ⟨block, hentry, -⟩ := h.stores_slot hlt
  rw [hentry]
  exact ⟨fun ⟨_, hle⟩ => hle, fun hle => ⟨hlt, hle⟩⟩

theorem ioctl_of_accepted (h : Represents kernel entries log lost) {seekto : AesdSeekto}
    (hrejected : seekRejected kernel.dev.circularBuffer seekto ≠ true)
    (haddresses : Addresses kernel seekto) (fPos : Int) :
    aesdUnlockedIoctl ⟨true, true⟩ kernel fPos AESDCHAR_IOCSEEKTO seekto =
      ⟨0, kernel, seekTarget kernel seekto⟩ := by
  have hcontent := h.length_content_lt
  have htarget := seekTarget_le haddresses
  obtain ⟨hlt, hle⟩ := haddresses
  obtain ⟨block, hentry, -⟩ := h.stores_slot hlt
  have haccepted : ¬(kernel.commands[seekto.writeCmd.toNat].length <
      seekto.writeCmdOffset.toNat) := Nat.not_lt.mpr hle
  unfold aesdUnlockedIoctl
  simp only [ne_eq, not_true_eq_false, if_false, Bool.true_eq_false, if_neg hrejected,
    h.seekWalk_of_lt hlt, hentry, reduceCtorEq, false_or, haccepted]
  rw [loffT_natCast_add (Nat.lt_of_le_of_lt htarget hcontent)]
  rfl

theorem ioctl_of_not_accepted (h : Represents kernel entries log lost) {seekto : AesdSeekto}
    (hnot : seekRejected kernel.dev.circularBuffer seekto = true ∨ ¬ Addresses kernel seekto)
    (fPos : Int) :
    aesdUnlockedIoctl ⟨true, true⟩ kernel fPos AESDCHAR_IOCSEEKTO seekto =
      ⟨-EINVAL, kernel, fPos⟩ := by
  unfold aesdUnlockedIoctl
  by_cases hrejected : seekRejected kernel.dev.circularBuffer seekto = true
  · simp only [ne_eq, not_true_eq_false, if_false, Bool.true_eq_false, if_pos hrejected]
  -- the first check lets only existing commands through
  have hlt : seekto.writeCmd.toNat < kernel.commands.length := by
    by_contra hnlt
    exact hrejected ((h.seekRejected_eq seekto).mpr fun hlt => absurd hlt hnlt)
  have hshort := (h.addresses_iff hlt).not.mp (hnot.resolve_left hrejected)
  simp only [ne_eq, not_true_eq_false, if_false, Bool.true_eq_false, if_neg hrejected,
    h.seekWalk_of_lt hlt]
  rw [if_pos (Or.inr (Nat.lt_of_not_le hshort))]

theorem misjudged_iff (h : Represents kernel entries log lost) (seekto : AesdSeekto) :
    Misjudged kernel.dev.circularBuffer seekto ↔
      Addresses kernel seekto ∧ seekRejected kernel.dev.circularBuffer seekto = true := by
  unfold Misjudged
  rw [h.count_eq, h.seekRejected_eq]
  constructor
  · rintro ⟨hlt, hslot, hage⟩
    exact ⟨(h.addresses_iff hlt).mpr hage, fun _ => hslot⟩
  · rintro ⟨haddresses, hslot⟩
    have hlt := haddresses.1
    exact ⟨hlt, hslot hlt, (h.addresses_iff hlt).mp haddresses⟩

end Represents

/-- **The ioctl seeks by age exactly when it does not misjudge the command**, in every state the
driver can be in. -/
theorem ioctl_seeksByAge_iff (config : KmallocConfig) (calls : List Call) (fPos : Int)
    (seekto : AesdSeekto) :
    let kernel := ((System.init config).run calls).kernel
    SeeksByAge kernel fPos seekto
        (aesdUnlockedIoctl ⟨true, true⟩ kernel fPos AESDCHAR_IOCSEEKTO seekto) ↔
      ¬ Misjudged kernel.dev.circularBuffer seekto := by
  intro kernel
  obtain ⟨entries, log, lost, h⟩ := run_represents config calls
  have hfailed : -EINVAL ≠ 0 := by decide
  rw [h.misjudged_iff]
  by_cases hrejected : seekRejected kernel.dev.circularBuffer seekto = true
  · rw [h.ioctl_of_not_accepted (Or.inl hrejected)]
    constructor
    · intro hseeks hmisjudged
      exact hfailed (hseeks.ret_eq_zero_iff.mpr hmisjudged.1)
    · intro hnot
      refine ⟨⟨fun hzero => absurd hzero hfailed, fun haddresses => ?_⟩,
        fun hzero => absurd hzero hfailed, fun _ => ⟨rfl, rfl⟩, rfl⟩
      exact absurd ⟨haddresses, hrejected⟩ hnot
  · refine iff_of_true ?_ fun hmisjudged => hrejected hmisjudged.2
    by_cases haddresses : Addresses kernel seekto
    · rw [h.ioctl_of_accepted hrejected haddresses]
      exact ⟨iff_of_true rfl haddresses, fun _ => rfl, fun hne => absurd rfl hne, rfl⟩
    · rw [h.ioctl_of_not_accepted (Or.inr haddresses)]
      exact ⟨iff_of_false hfailed haddresses, fun hzero => absurd hzero hfailed,
        fun _ => ⟨rfl, rfl⟩, rfl⟩

/-- Eleven commands, so that the newest one sits in slot 0 and the oldest one in slot 1. -/
def wrapOnce : List Call :=
  [[97, 10], [98, 99, 10], [10], [10], [10], [10], [10], [10], [10], [10], [10]].map (plainWrite 0)

/-- The third byte of the oldest command cannot be addressed, because the newest one has only one.
-/
theorem not_seeksByAge_wrapOnce :
    let kernel := ((System.init ⟨2 ^ 22, by decide, fun _ => 0⟩).run wrapOnce).kernel
    ¬ SeeksByAge kernel 0 ⟨0, 2⟩
      (aesdUnlockedIoctl ⟨true, true⟩ kernel 0 AESDCHAR_IOCSEEKTO ⟨0, 2⟩) := by
  intro kernel hseeks
  have haddresses : Addresses kernel ⟨0, 2⟩ := by
    have hcommands : kernel.commands =
        [[98, 99, 10], [10], [10], [10], [10], [10], [10], [10], [10], [10]] := by decide
    unfold Addresses
    simp [hcommands]
  have hret : (aesdUnlockedIoctl ⟨true, true⟩ kernel 0 AESDCHAR_IOCSEEKTO ⟨0, 2⟩).ret ≠ 0 := by
    decide
  exact hret (hseeks.ret_eq_zero_iff.mpr haddresses)

end AesdChar
