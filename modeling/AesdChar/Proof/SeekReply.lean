import AesdChar.Proof.Client
import AesdChar.Proof.SeekRead

/-!
# The answer to a seek command

Whether the driver has accepted the seek or not, the server sends what there is from the current
position on. After an accepted seek that is the answer; after a rejected one it is whatever the
connection's position happened to be in front of.
-/

namespace AesdChar

open Lib

/-- What a seek command is answered with when the ioctl leaves the connection at the position; the
flag is the outcome of reading it back. -/
def Kernel.answer (kernel : Kernel) (llseek : Bool) (fPos : Int) : Bytes :=
  if llseek = false ∧ fPos < 0 then [] else kernel.content.drop fPos.toNat

theorem answer_natCast (kernel : Kernel) (llseek : Bool) (pos : Nat) :
    kernel.answer llseek pos = kernel.content.drop pos :=
  if_neg fun h => absurd h.2 (Int.not_lt.mpr (Int.natCast_nonneg pos))

/-- Reading back the position clamps it, which a reader does not notice. -/
theorem Represents.contentFrom_aesdLlseek {kernel : Kernel} {entries : List AesdBufferEntry}
    {log : Log} {lost : Finset Ptr} (h : Represents kernel entries log lost) (lock : Bool)
    {fPos : Int} (hrange : InRange fPos) :
    kernel.contentFrom (aesdLlseek lock kernel fPos 0 SEEK_CUR).fPos =
      kernel.answer lock fPos := by
  have hcontent := h.length_content_lt
  cases lock with
  | false =>
      simp only [aesdLlseek_current, if_true, Kernel.contentFrom, Kernel.answer, true_and]
  | true =>
      rw [aesdLlseek_current, if_neg (by simp), Int.add_zero, loffT_of_lt hrange.1 hrange.2,
        h.size_eq, clampPos_eq hrange hcontent, Kernel.answer, if_neg (by simp),
        Kernel.contentFrom, if_neg (by simp only; omega)]
      apply List.drop_eq_drop_iff.mpr
      simp only
      omega

/-! ### One seek command -/

/-- What a client may expect of a seek command that the ioctl has answered. -/
structure AnswersSeek (before : ClientState) (ioctl : Outcome) (after : ClientState) : Prop where
  of_accepted : ioctl.ret = 0 →
    after.sent = before.sent ++ before.kernel.content.drop ioctl.fPos.toNat
  of_rejected : ioctl.ret ≠ 0 → after.sent = before.sent
  commands_eq : after.kernel.commands = before.kernel.commands
  pending_eq : after.kernel.pending = before.kernel.pending

/-- From where the connection stands there is nothing to read. -/
def NothingLeft (env : ClientEnv) (state : ClientState) : Prop :=
  state.kernel.content.length ≤ state.fPos.toNat ∨
    (env.llseek (state.clock + 1) = false ∧ state.fPos < 0)

/-- Whichever way the ioctl ends, the reply is what follows the position it leaves. -/
theorem seekReply_sends {env : ClientEnv} (henv : env.Replies) (state : ClientState)
    {entries : List AesdBufferEntry} {log : Log} {lost : Finset Ptr}
    (h : Represents state.kernel entries log lost) (hrange : InRange state.fPos)
    (seekto : AesdSeekto) :
    ∃ after, seekReply env state seekto = some after ∧ after.kernel = state.kernel ∧
      after.sent = state.sent ++ state.kernel.answer (env.llseek (state.clock + 1))
        (aesdUnlockedIoctl (env.ioctl state.clock) state.kernel state.fPos AESDCHAR_IOCSEEKTO
          seekto).fPos := by
  set ioctl := aesdUnlockedIoctl (env.ioctl state.clock) state.kernel state.fPos AESDCHAR_IOCSEEKTO
    seekto with hioctl
  have hkernel : ioctl.kernel = state.kernel := aesdUnlockedIoctl_kernel _ _ _ _ _
  have hfPos : InRange ioctl.fPos := aesdUnlockedIoctl_inRange _ _ hrange _ _
  have hcurrent : InRange (aesdLlseek (env.llseek (state.clock + 1)) state.kernel ioctl.fPos 0
      SEEK_CUR).fPos := aesdLlseek_inRange _ _ hfPos (by unfold InRange; decide) _
  -- the state in which the reply starts
  set seeked := (state.seek ioctl).seek
    (aesdLlseek (env.llseek (state.clock + 1)) ioctl.kernel ioctl.fPos 0 SEEK_CUR)
  have hseeked : seeked.kernel = state.kernel := by
    simp only [seeked, ClientState.seek_kernel, aesdLlseek_kernel, hkernel]
  obtain ⟨after, hsome, hsends⟩ := reply_sends henv seeked (hseeked ▸ h)
    (by rw [← hkernel] at hcurrent; exact hcurrent)
  refine ⟨after, hsome, hsends.kernel_eq.trans hseeked, hsends.sent_eq.trans ?_⟩
  rw [← h.contentFrom_aesdLlseek _ hfPos, hseeked, ← hkernel]
  rfl

theorem handleChunk_seekto {env : ClientEnv} (henv : env.Replies) {state : ClientState}
    {entries : List AesdBufferEntry} {log : Log} {lost : Finset Ptr}
    (h : Represents state.kernel entries log lost) (hrange : InRange state.fPos) {chunk : Bytes}
    {seekto : AesdSeekto} (hseek : IsSeekCommand (overlay state.buffer chunk))
    (hscan : scanSeekto (cString ((overlay state.buffer chunk).drop ioctlPrefixLen)) =
      some seekto) :
    ∃ after, handleChunk env state chunk = some (.next after) ∧ after.kernel = state.kernel ∧
      after.sent = state.sent ++ state.kernel.answer (env.llseek (state.clock + 1))
        (aesdUnlockedIoctl (env.ioctl state.clock) state.kernel state.fPos AESDCHAR_IOCSEEKTO
          seekto).fPos := by
  obtain ⟨after, hreply, hkernel, hsent⟩ :=
    seekReply_sends henv (state.receive chunk) h hrange seekto
  refine ⟨after, ?_, hkernel, hsent⟩
  simp only [handleChunk, ClientState.receive_buffer, hseek, if_true, hscan, hreply,
    Option.map_some]

theorem answer_eq_nil_iff (env : ClientEnv) (state : ClientState) :
    state.kernel.answer (env.llseek (state.clock + 1)) state.fPos = [] ↔ NothingLeft env state := by
  rw [Kernel.answer, ite_eq_left_iff, List.drop_eq_nil_iff, NothingLeft]
  exact Decidable.or_iff_not_imp_left.symm.trans or_comm

/-- **A seek command is answered right exactly when the driver accepts it**, or there is nothing
left to read where the connection already was. -/
theorem seek_answered_iff (config : KmallocConfig) (calls : List Call) (env : ClientEnv)
    (henv : env.Replies) (state : ClientState)
    (hkernel : state.kernel = ((System.init config).run calls).kernel) (hrange : InRange state.fPos)
    (chunk : Bytes) (seekto : AesdSeekto) (hseek : IsSeekCommand (overlay state.buffer chunk))
    (hscan : scanSeekto (cString ((overlay state.buffer chunk).drop ioctlPrefixLen)) =
      some seekto) :
    (∃ after, handleChunk env state chunk = some (.next after) ∧
        AnswersSeek state (aesdUnlockedIoctl (env.ioctl state.clock) state.kernel state.fPos
          AESDCHAR_IOCSEEKTO seekto) after) ↔
      Accepts (env.ioctl state.clock) state.kernel seekto ∨ NothingLeft env state := by
  obtain ⟨entries, log, lost, hrep⟩ := run_represents config calls
  have h : Represents state.kernel entries log lost := hkernel ▸ hrep
  obtain ⟨after, hchunk, hafter, hsent⟩ := handleChunk_seekto henv h hrange hseek hscan
  have hunique : ∀ ioctl, (∃ other, handleChunk env state chunk = some (.next other) ∧
      AnswersSeek state ioctl other) ↔ AnswersSeek state ioctl after := by
    intro ioctl
    rw [hchunk]
    simp only [Option.some.injEq, Turn.next.injEq, exists_eq_left']
  rw [hunique]
  by_cases haccepts : Accepts (env.ioctl state.clock) state.kernel seekto
  · have hioctl := h.ioctl_of_accepts haccepts state.fPos
    rw [hioctl, answer_natCast] at hsent
    rw [hioctl]
    exact iff_of_true ⟨fun _ => hsent, fun hne => absurd rfl hne, by rw [hafter], by rw [hafter]⟩
      (Or.inl haccepts)
  · obtain ⟨ret, hneg, hioctl⟩ := h.ioctl_of_not_accepts haccepts state.fPos
    rw [hioctl] at hsent
    have hnothing : after.sent = state.sent ↔ NothingLeft env state := by
      rw [hsent, List.append_right_eq_self, answer_eq_nil_iff]
    rw [hioctl, or_iff_right haccepts, ← hnothing]
    constructor
    · intro hanswers
      exact hanswers.of_rejected hneg.ne
    · intro heq
      exact ⟨fun hzero => absurd hzero hneg.ne, fun _ => heq, by rw [hafter], by rw [hafter]⟩

/-- `AESDCHAR_IOCSEEKTO:5,0`. -/
def seekToSixth : Bytes := ioctlPrefix ++ [53, 44, 48, newline]

theorem seek_answered_iff_first :
    let kernel := ((System.init ⟨2 ^ 22, by decide, fun _ => 0⟩).run [plainWrite 0 [97, 10]]).kernel
    let state : ClientState := ⟨kernel, 2, [], [], 0⟩
    ∃ after, handleChunk smoothEnv state (ioctlPrefix ++ [48, 44, 49, newline]) =
        some (.next after) ∧
      AnswersSeek state (aesdUnlockedIoctl ⟨true, true⟩ kernel 2 AESDCHAR_IOCSEEKTO ⟨0, 1⟩)
        after := by
  intro kernel state
  have hret : (aesdUnlockedIoctl ⟨true, true⟩ kernel 2 AESDCHAR_IOCSEEKTO ⟨0, 1⟩).ret = 0 := by
    decide
  refine (seek_answered_iff ⟨2 ^ 22, by decide, fun _ => 0⟩ [plainWrite 0 [97, 10]] smoothEnv
    smoothEnv_succeeds.replies state rfl (by unfold InRange; decide) _ ⟨0, 1⟩ (by decide)
    (by decide)).mpr (Or.inl ?_)
  obtain ⟨entries, log, lost, h⟩ :=
    run_represents ⟨2 ^ 22, by decide, fun _ => 0⟩ [plainWrite 0 [97, 10]]
  exact (h.accepts_iff 2).mp hret

/-- There is no sixth command, and the client gets the whole device. -/
theorem not_answersSeek_rejected :
    let kernel := ((System.init ⟨2 ^ 22, by decide, fun _ => 0⟩).run [plainWrite 0 [97, 10]]).kernel
    let state : ClientState := ⟨kernel, 0, [], [], 0⟩
    scanSeekto (seekToSixth.drop ioctlPrefixLen) = some ⟨5, 0⟩ ∧
      ¬ ∃ after, handleChunk smoothEnv state seekToSixth = some (.next after) ∧
        AnswersSeek state (aesdUnlockedIoctl ⟨true, true⟩ kernel 0 AESDCHAR_IOCSEEKTO ⟨5, 0⟩)
          after := by
  intro kernel state
  refine ⟨by decide, ?_⟩
  rintro ⟨after, hchunk, hanswers⟩
  have hsent : (handleChunk smoothEnv state seekToSixth).map (fun turn => turn.state.sent) =
      some [97, 10] := by decide
  rw [hchunk] at hsent
  have hrejected : after.sent = [] := hanswers.of_rejected (by decide)
  have hreply : after.sent = [97, 10] := Option.some.inj hsent
  rw [hrejected] at hreply
  cases hreply

end AesdChar
