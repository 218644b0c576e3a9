import AesdChar.Proof.Client

/-!
# Sends that fall short

A reply does not look at how much of a block was sent: the next read has moved on. What the socket
has accepted is the beginning of what was to be sent only as long as nothing is accepted after a
send that fell short.
-/

namespace AesdChar

open Lib

/-- The reply gets to the block, and what the socket accepts of it belongs somewhere else. -/
structure LeavesHole (env : ClientEnv) (state : ClientState) (i : Nat) : Prop where
  reached : Reaches env state i
  displaced : (state.delivery env).Displaced i

/-- What the socket accepts during a reply is the beginning of what there was to send. -/
def RepliesInOrder (env : ClientEnv) (state : ClientState) : Prop :=
  ∃ after sent, reply env state = some after ∧ after.sent = state.sent ++ sent ∧
    sent <+: state.kernel.contentFrom state.fPos

/-- **A reply has no hole exactly when nothing is accepted out of place**: after a send that fell
short, later ones accept nothing, or bytes that repeat what is missing. Reads may fail. -/
theorem reply_in_order_iff (config : KmallocConfig) (calls : List Call) (env : ClientEnv)
    (state : ClientState) (hkernel : state.kernel = ((System.init config).run calls).kernel)
    (hrange : InRange state.fPos) :
    RepliesInOrder env state ↔ ∀ i, ¬ LeavesHole env state i := by
  obtain ⟨entries, log, lost, hrep⟩ := run_represents config calls
  have h : Represents state.kernel entries log lost := hkernel ▸ hrep
  obtain ⟨after, count, hreply, hsends, hcount⟩ := h.reply_received env hrange
  have hblocks : ∀ i < count, (state.delivery env).block i ≠ [] := fun i hi =>
    ((hcount i).mp hi i le_rfl).1
  calc
    RepliesInOrder env state ↔
        (state.delivery env).received count <+: (state.delivery env).whole := by
      constructor
      · rintro ⟨after', sent, hreply', hsent', hbegins⟩
        obtain rfl : after = after' := Option.some.inj (hreply.symm.trans hreply')
        rw [List.append_cancel_left (hsends.sent_eq.symm.trans hsent')]
        exact hbegins
      · exact fun hbegins => ⟨after, _, hreply, hsends.sent_eq, hbegins⟩
    _ ↔ ∀ i < count, ¬ (state.delivery env).Displaced i :=
      (state.delivery env).received_prefix_iff hblocks
    _ ↔ ∀ i, ¬ LeavesHole env state i := by
      constructor
      · exact fun hnone i hhole => hnone i ((hcount i).mpr hhole.reached) hhole.displaced
      · exact fun hnone i hi hdisplaced => hnone i ⟨(hcount i).mp hi, hdisplaced⟩

/-- Two bytes more than a block. -/
def twoBlocks : Bytes := List.replicate (bufferSize + 1) 97 ++ [newline]

/-- The second `send` accepts a single byte. -/
def lastShortEnv : ClientEnv :=
  { smoothEnv with send := fun t => if t = 3 then some 1 else some bufferSize }

/-- A send may fall short if none comes after it: the client gets all but the last byte. -/
theorem reply_in_order_iff_last_short :
    let kernel := ((System.init ⟨2 ^ 22, by decide, fun _ => 0⟩).run [plainWrite 0 twoBlocks]).kernel
    let state : ClientState := ⟨kernel, 0, [], [], 0⟩
    (reply lastShortEnv state).map (·.sent) = some (List.replicate (bufferSize + 1) 97) ∧
      RepliesInOrder lastShortEnv state := by
  intro kernel state
  have hkernel : state.kernel =
      ((System.init ⟨2 ^ 22, by decide, fun _ => 0⟩).run [plainWrite 0 twoBlocks]).kernel := by
    simp only [state, kernel]
  have hrange : InRange state.fPos := ⟨by simp [state], by simp [state]⟩
  refine ⟨by decide +kernel, (reply_in_order_iff _ _ lastShortEnv state hkernel hrange).mpr
    fun i hhole => ?_⟩
  have hlt := Delivery.lt_length_of_block_ne_nil _ (hhole.reached i le_rfl).1
  have hlength : (state.delivery lastShortEnv).whole.length = bufferSize + 2 := by decide +kernel
  have hsize : (state.delivery lastShortEnv).size = bufferSize := rfl
  rw [hlength, hsize] at hlt
  change 1024 * i < 1024 + 2 at hlt
  have hwhole : (state.delivery lastShortEnv).shortfall 1 = 0 := by decide +kernel
  have hcases : i = 0 ∨ i = 1 := by omega
  rcases hcases with rfl | rfl
  · exact absurd hhole.displaced.short (Nat.lt_irrefl 0)
  · exact absurd hhole.displaced.short (by rw [hwhole]; exact Nat.lt_irrefl 0)

/-- The first `send` accepts a single byte. -/
def shortEnv : ClientEnv :=
  { smoothEnv with send := fun t => if t = 1 then some 1 else some bufferSize }

/-- One byte more than a block. -/
def longCommand : Bytes := List.replicate bufferSize 97 ++ [newline]

/-- The client gets the first byte and the last. -/
theorem not_repliesInOrder_short_send :
    let kernel :=
      ((System.init ⟨2 ^ 22, by decide, fun _ => 0⟩).run [plainWrite 0 longCommand]).kernel
    ¬ RepliesInOrder shortEnv ⟨kernel, 0, [], [], 0⟩ := by
  intro kernel
  set state : ClientState := ⟨kernel, 0, [], [], 0⟩
  have hreply : (reply shortEnv state).map (·.sent) = some (state.sent ++ [97, newline]) := by
    decide +kernel
  have hcontent : state.kernel.contentFrom state.fPos = longCommand := by decide +kernel
  have htake : longCommand.take [97, newline].length = [97, 97] := rfl
  rintro ⟨after, sent, hafter, hsent, hbegins⟩
  rw [hafter, Option.map_some, hsent, Option.some.injEq] at hreply
  rw [List.append_cancel_left hreply, hcontent, List.prefix_iff_eq_take, htake] at hbegins
  exact absurd hbegins (by decide)

end AesdChar
