import AesdChar.Server
import AesdChar.Lib.Delivery
import AesdChar.Proof.Step

/-!
# The reply

A reply reads a block and sends it, until a read finds nothing or fails. It does not look at how
much of a block was sent, so what the socket has accepted in the end is a delivery of the content
from the position on, cut off where the reads end.
-/

namespace AesdChar

open Lib

/-- What a reader at the position would get; a negative position is past the end. -/
def Kernel.contentFrom (kernel : Kernel) (fPos : Int) : Bytes :=
  if fPos < 0 then [] else kernel.content.drop fPos.toNat

theorem contentFrom_natCast (kernel : Kernel) (pos : Nat) :
    kernel.contentFrom pos = kernel.content.drop pos :=
  if_neg (Int.not_lt.mpr (Int.natCast_nonneg pos))

/-- What a reply from this state offers to the socket, and how much of it the sends accept. -/
def ClientState.delivery (env : ClientEnv) (state : ClientState) : Delivery Byte where
  whole := state.kernel.contentFrom state.fPos
  size := bufferSize
  accept i := (env.send (state.clock + 2 * i + 1)).getD 0

/-- The read of this block finds something and does not fail. -/
def Delivers (env : ClientEnv) (state : ClientState) (i : Nat) : Prop :=
  (state.delivery env).block i ≠ [] ∧ (env.read (state.clock + 2 * i)).lock = true ∧
    ∀ copy < state.kernel.touched (state.fPos.toNat + bufferSize * i) bufferSize,
      (env.read (state.clock + 2 * i)).copyToUser copy = true

/-- Neither the read of this block nor one before it ends the reply. -/
def Reaches (env : ClientEnv) (state : ClientState) (i : Nat) : Prop :=
  ∀ j ≤ i, Delivers env state j

/-- What a reply may change: the position, the clock and what the socket has accepted. -/
structure Sends (before : ClientState) (data : Bytes) (after : ClientState) : Prop where
  kernel_eq : after.kernel = before.kernel
  buffer_eq : after.buffer = before.buffer
  sent_eq : after.sent = before.sent ++ data

/-! ### One block -/

/-- The state after a block was read and sent. -/
def ClientState.afterBlock (env : ClientEnv) (state : ClientState) : ClientState :=
  { state with
    fPos := state.fPos + ((state.delivery env).block 0).length
    sent := state.sent ++ (state.delivery env).part 0
    clock := state.clock + 2 }

section Block

variable {env : ClientEnv} {state : ClientState} {entries : List AesdBufferEntry} {log : Log}
  {lost : Finset Ptr}

theorem block_zero : (state.delivery env).block 0 =
    (state.kernel.contentFrom state.fPos).take bufferSize := by
  rw [Delivery.block, Nat.mul_zero, List.drop_zero]
  rfl

theorem fPos_nonneg_of_block_ne_nil {i : Nat} (hne : (state.delivery env).block i ≠ []) :
    0 ≤ state.fPos := by
  by_contra hneg
  have hnone : state.kernel.contentFrom state.fPos = [] := if_pos (Int.not_le.mp hneg)
  rw [Delivery.block, ClientState.delivery, hnone, List.drop_nil, List.take_nil] at hne
  exact hne rfl

theorem contentFrom_afterBlock (hnonneg : 0 ≤ state.fPos) :
    (state.afterBlock env).kernel.contentFrom (state.afterBlock env).fPos =
      (state.kernel.contentFrom state.fPos).drop bufferSize := by
  obtain ⟨pos, hpos⟩ := Int.eq_ofNat_of_zero_le hnonneg
  have hafter : (state.afterBlock env).fPos =
      ((pos + ((state.kernel.content.drop pos).take bufferSize).length : Nat) : Int) := by
    rw [ClientState.afterBlock, block_zero, hpos, contentFrom_natCast, Nat.cast_add]
  rw [hafter, contentFrom_natCast, hpos, contentFrom_natCast, List.drop_drop]
  apply List.drop_eq_drop_iff.mpr
  rw [List.length_take, List.length_drop, ClientState.afterBlock]
  simp only
  omega

theorem Represents.inRange_afterBlock (h : Represents state.kernel entries log lost)
    (hdelivers : Delivers env state 0) : InRange (state.afterBlock env).fPos := by
  have hcontent := h.length_content_lt
  have hpositive := List.length_pos_iff.mpr hdelivers.1
  obtain ⟨pos, hpos⟩ := Int.eq_ofNat_of_zero_le (fPos_nonneg_of_block_ne_nil hdelivers.1)
  have hlength : ((state.delivery env).block 0).length =
      min bufferSize (state.kernel.content.length - pos) := by
    rw [block_zero, hpos, contentFrom_natCast, List.length_take, List.length_drop]
  rw [ClientState.afterBlock, hpos]
  exact ⟨by simp only; omega, by simp only; omega⟩

theorem clock_afterBlock (i : Nat) :
    (state.afterBlock env).clock + 2 * i = state.clock + 2 * (i + 1) := by
  simp only [ClientState.afterBlock]
  omega

theorem delivery_afterBlock (hnonneg : 0 ≤ state.fPos) :
    (state.afterBlock env).delivery env = (state.delivery env).tail := by
  simp only [ClientState.delivery, Delivery.tail, contentFrom_afterBlock hnonneg, clock_afterBlock]

theorem delivers_afterBlock (hnonneg : 0 ≤ state.fPos) (i : Nat) :
    Delivers env (state.afterBlock env) i ↔ Delivers env state (i + 1) := by
  unfold Delivers
  rw [delivery_afterBlock hnonneg, Delivery.block_tail, clock_afterBlock]
  apply and_congr_right
  intro hne
  have hlength : ((state.delivery env).block 0).length = bufferSize :=
    (state.delivery env).length_block_of_lt hne i.succ_pos
  have hpos : (state.afterBlock env).fPos.toNat + bufferSize * i =
      state.fPos.toNat + bufferSize * (i + 1) := by
    rw [ClientState.afterBlock, hlength, Nat.mul_succ]
    simp only
    omega
  rw [hpos]
  exact Iff.rfl

/-- A read that delivers returns its block. -/
theorem Represents.aesdRead_of_delivers (h : Represents state.kernel entries log lost)
    (hrange : InRange state.fPos) (hdelivers : Delivers env state 0) :
    aesdRead (env.read state.clock) state.kernel bufferSize state.fPos =
      some ⟨⟨((state.delivery env).block 0).length, state.kernel,
        state.fPos + ((state.delivery env).block 0).length⟩, (state.delivery env).block 0⟩ := by
  obtain ⟨hne, hlock, hcopies⟩ := hdelivers
  obtain ⟨pos, hpos⟩ := Int.eq_ofNat_of_zero_le (fPos_nonneg_of_block_ne_nil hne)
  have hhigh : pos < 2 ^ 63 := by
    have hlt := hrange.2
    omega
  rw [hpos, Int.toNat_natCast] at hcopies
  obtain ⟨copied, ret, hread, -, hcases⟩ := h.aesdRead_spec (env.read state.clock) bufferSize hhigh
  rcases hcases with ⟨hfail, -⟩ | ⟨-, hret, hcopied, -⟩ | ⟨-, -, -, copy, hcopy, hfail⟩
  · exact absurd (hlock.symm.trans hfail) (by decide)
  · have hblock : (state.kernel.content.drop pos).take copied = (state.delivery env).block 0 := by
      rw [block_zero, hpos, contentFrom_natCast, hcopied, List.take_eq_take_iff, List.length_drop]
      omega
    have hlength : ((state.delivery env).block 0).length = copied := by
      rw [← hblock, List.length_take, List.length_drop]
      omega
    rw [hpos, hread, hret, hlength, hblock, Nat.cast_add]
  · exact absurd ((hcopies copy hcopy).symm.trans hfail) (by decide)

/-- A read that does not deliver ends the reply. -/
theorem Represents.aesdRead_of_not_delivers (h : Represents state.kernel entries log lost)
    (hrange : InRange state.fPos) (hnot : ¬ Delivers env state 0) :
    ∃ outcome, aesdRead (env.read state.clock) state.kernel bufferSize state.fPos =
      some outcome ∧ outcome.ret ≤ 0 ∧ outcome.kernel = state.kernel := by
  obtain ⟨hlow, hlt⟩ := hrange
  by_cases hneg : state.fPos < 0
  · obtain ⟨ret, hret, hread⟩ := h.aesdRead_of_neg (env.read state.clock) bufferSize hlow hneg
    exact ⟨_, hread, hret, rfl⟩
  obtain ⟨pos, hpos⟩ := Int.eq_ofNat_of_zero_le (Int.not_lt.mp hneg)
  have hhigh : pos < 2 ^ 63 := by omega
  obtain ⟨copied, ret, hread, -, hcases⟩ := h.aesdRead_spec (env.read state.clock) bufferSize hhigh
  refine ⟨_, by rw [hpos, hread], ?_, rfl⟩
  rcases hcases with ⟨-, hret, -⟩ | ⟨hlock, hret, hcopied, hcopies⟩ | ⟨-, hret, -⟩
  · exact hret.le
  · by_contra hpositive
    have hcopied' : ¬ (copied : Int) ≤ 0 := hret ▸ hpositive
    refine hnot ⟨?_, hlock, ?_⟩
    · rw [block_zero, hpos, contentFrom_natCast, ← List.length_pos_iff, List.length_take,
        List.length_drop, ← hcopied]
      omega
    · rw [hpos]
      exact hcopies
  · exact hret.le

theorem replyLoop_of_delivers (h : Represents state.kernel entries log lost)
    (hrange : InRange state.fPos) (hdelivers : Delivers env state 0) (fuel : Nat) :
    replyLoop env (fuel + 1) state = replyLoop env fuel (state.afterBlock env) := by
  have hpositive : 0 < ((state.delivery env).block 0).length :=
    List.length_pos_iff.mpr hdelivers.1
  rw [replyLoop, h.aesdRead_of_delivers hrange hdelivers]
  simp only
  rw [if_pos (Int.natCast_pos.mpr hpositive), Int.toNat_natCast, List.take_length]
  simp only [ClientState.settle, if_pos (Int.natCast_nonneg _), ClientState.send]
  rfl

theorem replyLoop_of_not_delivers (h : Represents state.kernel entries log lost)
    (hrange : InRange state.fPos) (hnot : ¬ Delivers env state 0) (fuel : Nat) :
    ∃ after, replyLoop env (fuel + 1) state = some after ∧ Sends state [] after := by
  obtain ⟨outcome, hread, hret, hkernel⟩ := h.aesdRead_of_not_delivers hrange hnot
  rw [replyLoop, hread]
  exact ⟨_, if_neg (Int.not_lt.mpr hret), hkernel, rfl, (List.append_nil _).symm⟩

theorem Sends.of_afterBlock {data : Bytes} {after : ClientState}
    (h : Sends (state.afterBlock env) data after) :
    Sends state ((state.delivery env).part 0 ++ data) after where
  kernel_eq := h.kernel_eq
  buffer_eq := h.buffer_eq
  sent_eq := by
    rw [h.sent_eq, ← List.append_assoc]
    rfl

end Block

/-! ### The reply -/

theorem reaches_zero_iff {env : ClientEnv} {state : ClientState} :
    Reaches env state 0 ↔ Delivers env state 0 := by
  constructor
  · exact fun hreaches => hreaches 0 le_rfl
  · intro hdelivers j hj
    rw [Nat.le_zero.mp hj]
    exact hdelivers

theorem reaches_succ_iff {env : ClientEnv} {state : ClientState}
    (hdelivers : Delivers env state 0) (i : Nat) :
    Reaches env state (i + 1) ↔ Reaches env (state.afterBlock env) i := by
  have hnonneg := fPos_nonneg_of_block_ne_nil hdelivers.1
  constructor
  · intro hreaches j hj
    exact (delivers_afterBlock hnonneg j).mpr (hreaches (j + 1) (Nat.succ_le_succ hj))
  · intro hreaches j hj
    cases j with
    | zero => exact hdelivers
    | succ j => exact (delivers_afterBlock hnonneg j).mp (hreaches j (Nat.le_of_succ_le_succ hj))

/-- **The reply loop** sends one block after the other until a read does not deliver. -/
theorem replyLoop_received {env : ClientEnv} {entries : List AesdBufferEntry} {log : Log}
    {lost : Finset Ptr} :
    ∀ (fuel : Nat) (state : ClientState), Represents state.kernel entries log lost →
      InRange state.fPos → (state.kernel.contentFrom state.fPos).length < fuel →
      ∃ after count, replyLoop env fuel state = some after ∧
        Sends state ((state.delivery env).received count) after ∧
        ∀ i, i < count ↔ Reaches env state i := by
  intro fuel
  induction fuel with
  | zero => intro state _ _ hfuel; exact absurd hfuel (Nat.not_lt_zero _)
  | succ fuel ih =>
      intro state h hrange hfuel
      by_cases hdelivers : Delivers env state 0
      · have hnonneg := fPos_nonneg_of_block_ne_nil hdelivers.1
        have hpositive := List.length_pos_iff.mpr hdelivers.1
        have hlength : ((state.delivery env).block 0).length =
            min bufferSize (state.kernel.contentFrom state.fPos).length := by
          rw [block_zero, List.length_take]
        have hfuel' : ((state.afterBlock env).kernel.contentFrom
            (state.afterBlock env).fPos).length < fuel := by
          rw [contentFrom_afterBlock hnonneg, List.length_drop]
          omega
        obtain ⟨after, count, hloop, hsends, hcount⟩ := ih (state.afterBlock env) h
          (h.inRange_afterBlock hdelivers) hfuel'
        refine ⟨after, count + 1, ?_, ?_, ?_⟩
        · rw [replyLoop_of_delivers h hrange hdelivers, hloop]
        · rw [Delivery.received_succ_eq, ← delivery_afterBlock hnonneg]
          exact hsends.of_afterBlock
        · intro i
          cases i with
          | zero => exact iff_of_true count.succ_pos (reaches_zero_iff.mpr hdelivers)
          | succ i => rw [Nat.succ_lt_succ_iff, hcount, reaches_succ_iff hdelivers]
      · obtain ⟨after, hloop, hsends⟩ := replyLoop_of_not_delivers h hrange hdelivers fuel
        refine ⟨after, 0, hloop, hsends, ?_⟩
        intro i
        exact iff_of_false (Nat.not_lt_zero i) fun hreaches =>
          hdelivers (hreaches 0 (Nat.zero_le i))

/-- Each block has at least one byte, so the reply does not run out of fuel. -/
theorem Represents.reply_received {state : ClientState} {entries : List AesdBufferEntry}
    {log : Log} {lost : Finset Ptr} (h : Represents state.kernel entries log lost)
    (env : ClientEnv) (hrange : InRange state.fPos) :
    ∃ after count, reply env state = some after ∧
      Sends state ((state.delivery env).received count) after ∧
      ∀ i, i < count ↔ Reaches env state i := by
  apply replyLoop_received _ state h hrange
  rw [h.size_eq, Kernel.contentFrom]
  split
  · exact Nat.succ_pos _
  · rw [List.length_drop]
    omega

end AesdChar
