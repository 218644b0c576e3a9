import AesdChar.Proof.Step

/-!
# Reading a slice in pieces

A read copies one command after the other and moves the position along with every copy. If all
copies succeed it does not matter how many commands, or how many reads, a slice is spread over. If
one fails the read reports an error, but the position stays where the copies before it have moved
it.
-/

namespace AesdChar

open Lib

/-! ### Successive reads -/

theorem Represents.receivedBy_read {system : System} {entries : List AesdBufferEntry} {log : Log}
    {lost : Finset Ptr} (h : Represents system.kernel entries log lost) {env : ReadEnv}
    (henv : env.Succeeds) (count : Nat) {file pos : Nat} (hpos : system.fPos file = pos)
    (hlt : pos < 2 ^ 63) :
    system.receivedBy file (.read file env count) = (system.kernel.content.drop pos).take count ∧
      system.step (.read file env count) = ⟨system.kernel, Function.update system.fPos file
        ((pos + ((system.kernel.content.drop pos).take count).length : Nat) : Int)⟩ := by
  have hread := h.aesdRead_of_success henv count hlt
  simp only [System.receivedBy, System.step, System.settle, hpos, hread, if_true,
    if_pos (Int.natCast_nonneg _)]
  trivial

/-- **Successive reads** deliver the slice as long as all of them together. -/
theorem Represents.received_reads {file : Nat} {reads : List (ReadEnv × Nat)}
    (hreads : ∀ read ∈ reads, read.1.Succeeds) {system : System} {entries : List AesdBufferEntry}
    {log : Log} {lost : Finset Ptr} (h : Represents system.kernel entries log lost) {pos : Nat}
    (hpos : system.fPos file = pos) (hlt : pos < 2 ^ 63) :
    system.received file (reads.map fun read => .read file read.1 read.2) =
      (system.kernel.content.drop pos).take (reads.map Prod.snd).sum := by
  induction reads generalizing system pos with
  | nil => exact List.take_zero.symm
  | cons read reads ih =>
      obtain ⟨hhead, htail⟩ := List.forall_mem_cons.mp hreads
      obtain ⟨hreceived, hstep⟩ := h.receivedBy_read hhead read.2 hpos hlt
      have hcontent := h.length_content_lt
      have hlength : ((system.kernel.content.drop pos).take read.2).length =
          min read.2 (system.kernel.content.length - pos) := by
        rw [List.length_take, List.length_drop]
      set copied := ((system.kernel.content.drop pos).take read.2).length
      have hrest : (system.step (.read file read.1 read.2)).received file
          (reads.map fun read => .read file read.1 read.2) =
          ((system.step (.read file read.1 read.2)).kernel.content.drop (pos + copied)).take
            (reads.map Prod.snd).sum := by
        apply ih htail
        · rw [hstep]
          exact h
        · rw [hstep]
          exact Function.update_self _ _ _
        · omega
      -- a read that stops short has reached the end, and so has the next one
      have hend : system.kernel.content.drop (pos + copied) =
          (system.kernel.content.drop pos).drop read.2 := by
        rw [List.drop_drop]
        exact List.drop_eq_drop_iff.mpr (by omega)
      calc
        system.received file (.read file read.1 read.2 ::
            reads.map fun read => .read file read.1 read.2) =
            (system.kernel.content.drop pos).take read.2 ++
              (system.step (.read file read.1 read.2)).received file
                (reads.map fun read => .read file read.1 read.2) :=
          congrArg (· ++ _) hreceived
        _ = (system.kernel.content.drop pos).take read.2 ++
            ((system.kernel.content.drop pos).drop read.2).take (reads.map Prod.snd).sum := by
          rw [hrest, hstep, hend]
        _ = (system.kernel.content.drop pos).take (read.2 + (reads.map Prod.snd).sum) :=
          List.take_add.symm

/-- **Reads return the exact slice, however they are chunked.** Each lookup inside the content finds
a byte to copy, so the read ends; it returns as many bytes as there are, and any reads one after the
other deliver what one read of their total does. -/
theorem reads_are_slices (config : KmallocConfig) (calls : List Call) (pos : Nat)
    (hpos : pos < 2 ^ 63) (env : ReadEnv) (henv : env.Succeeds) (count : Nat)
    (reads : List (ReadEnv × Nat)) (hreads : ∀ read ∈ reads, read.1.Succeeds) (file : Nat) :
    let kernel := ((System.init config).run calls).kernel
    let copied := min count (kernel.content.length - pos)
    let system : System := ⟨kernel, fun _ => pos⟩
    (∀ at' < kernel.content.length, ∃ index offset,
      aesdCircularBufferFindEntryOffsetForFpos kernel.dev.circularBuffer (sizeTOfInt at') 0 =
          (some index, offset) ∧
        0 < sizeTSub (kernel.dev.circularBuffer.entry index).size offset) ∧
    aesdRead env kernel count pos = some ⟨⟨copied, kernel, ((pos + copied : Nat) : Int)⟩,
      (kernel.content.drop pos).take copied⟩ ∧
    ((kernel.content.drop pos).take copied).length = copied ∧
    system.received file (reads.map fun read => .read file read.1 read.2) =
      system.received file [.read file env (reads.map Prod.snd).sum] := by
  intro kernel copied system
  obtain ⟨entries, log, lost, h⟩ := run_represents config calls
  have hcontent := h.length_content_lt
  have hlength : ((kernel.content.drop pos).take copied).length = copied := by
    rw [List.length_take, List.length_drop]
    omega
  have hlengthCount : ((kernel.content.drop pos).take count).length = copied := by
    rw [List.length_take, List.length_drop]
  have htake : (kernel.content.drop pos).take count = (kernel.content.drop pos).take copied := by
    rw [List.take_eq_take_iff, List.length_drop]
    omega
  refine ⟨fun at' hat => ?_, ?_, hlength, ?_⟩
  · obtain ⟨index, offset, hfind, hoffset, hsize, -⟩ := h.find_eq_some hat 0
    refine ⟨index, offset, ?_, ?_⟩
    · rw [sizeTOfInt_of_lt (Nat.lt_trans hat (Nat.lt_trans hcontent (by decide)))]
      exact hfind
    · rw [sizeTSub_of_le hoffset.le hsize]
      exact Nat.sub_pos_of_lt hoffset
  · rw [h.aesdRead_of_success henv count hpos, hlengthCount, htake]
  · have hsystem : Represents system.kernel entries log lost := h
    have hone : ∀ read ∈ [(env, (reads.map Prod.snd).sum)], read.1.Succeeds :=
      List.forall_mem_singleton.mpr henv
    have htogether : system.received file [.read file env (reads.map Prod.snd).sum] =
        (kernel.content.drop pos).take [(reads.map Prod.snd).sum].sum :=
      hsystem.received_reads hone rfl hpos
    rw [List.sum_singleton] at htogether
    exact (hsystem.received_reads hreads rfl hpos).trans htogether.symm

/-- The slice is the end of one command and the start of the next. -/
theorem reads_are_slices_three_bytes :
    let kernel := ((System.init ⟨2 ^ 22, by decide, fun _ => 0⟩).run
      [plainWrite 0 [97, 10], plainWrite 0 [98, 99, 10]]).kernel
    let env : ReadEnv := ⟨true, fun _ => true⟩
    let system : System := ⟨kernel, fun _ => 1⟩
    ∃ outcome, aesdRead env kernel 3 1 = some outcome ∧ outcome.buf = [10, 98, 99] ∧
      system.received 0 [.read 0 env 1, .read 0 env 2] = system.received 0 [.read 0 env 3] := by
  intro kernel env system
  obtain ⟨-, hread, -, hreceived⟩ := reads_are_slices ⟨2 ^ 22, by decide, fun _ => 0⟩
    [plainWrite 0 [97, 10], plainWrite 0 [98, 99, 10]] 1 (by decide) env ⟨rfl, fun _ => rfl⟩ 3
    [(env, 1), (env, 2)] (by simp [env, ReadEnv.Succeeds]) 0
  exact ⟨_, hread, by decide, hreceived⟩

/-! ### A read that fails -/

/-- What a caller may expect of the position after a read. -/
structure KeepsPosition (kernel : Kernel) (fPos : Int) (outcome : ReadOutcome) : Prop where
  of_failure : outcome.ret < 0 → outcome.fPos = fPos
  of_success : 0 ≤ outcome.ret → outcome.fPos = fPos + outcome.ret ∧
    outcome.buf = (kernel.content.drop fPos.toNat).take outcome.ret.toNat ∧
    outcome.buf.length = outcome.ret

/-- A copy after the first fails, of those the read needs: one for each command it reads from. -/
def FaultsLate (env : ReadEnv) (kernel : Kernel) (count : Nat) (fPos : Int) : Prop :=
  env.lock = true ∧ 0 ≤ fPos ∧ env.copyToUser 0 = true ∧
    ∃ i < kernel.touched fPos.toNat count, env.copyToUser i = false

theorem keepsPosition_of_slice {kernel kernel' : Kernel} {pos copied : Nat}
    (hcopied : copied ≤ kernel.content.length - pos) :
    KeepsPosition kernel pos
      ⟨⟨copied, kernel', ((pos + copied : Nat) : Int)⟩, (kernel.content.drop pos).take copied⟩ := by
  have hlength : ((kernel.content.drop pos).take copied).length = copied := by
    rw [List.length_take, List.length_drop, Nat.min_eq_left hcopied]
  refine ⟨fun hneg => ?_, fun _ => ⟨Int.natCast_add pos copied, rfl, ?_⟩⟩
  · exact absurd hneg (Int.not_lt.mpr (Int.natCast_nonneg copied))
  · exact congrArg Int.ofNat hlength

theorem keepsPosition_of_failure_iff {kernel kernel' : Kernel} {ret fPos fPos' : Int} {buf : Bytes}
    (hret : ret < 0) :
    KeepsPosition kernel fPos ⟨⟨ret, kernel', fPos'⟩, buf⟩ ↔ fPos' = fPos := by
  constructor
  · intro h
    exact h.of_failure hret
  · intro heq
    exact ⟨fun _ => heq, fun hnonneg => absurd hnonneg (Int.not_le.mpr hret)⟩

/-- **A failed read leaves the position alone exactly when its first copy fails**, or it fails
before any copy. A read that succeeds advances it by what it delivers. -/
theorem read_keepsPosition_iff (config : KmallocConfig) (calls : List Call) (env : ReadEnv)
    (count : Nat) (fPos : Int) (hrange : InRange fPos) :
    let kernel := ((System.init config).run calls).kernel
    (∃ outcome, aesdRead env kernel count fPos = some outcome ∧ KeepsPosition kernel fPos outcome) ↔
      ¬ FaultsLate env kernel count fPos := by
  intro kernel
  obtain ⟨entries, log, lost, hrep⟩ := run_represents config calls
  have h : Represents kernel entries log lost := hrep
  rcases lt_or_ge fPos 0 with hneg | hnonneg
  · obtain ⟨ret, hret, hread⟩ := h.aesdRead_of_neg env count hrange.1 hneg
    refine iff_of_true ⟨_, hread, fun _ => rfl, fun hle => ?_⟩ fun hlate => ?_
    · obtain rfl : ret = 0 := le_antisymm hret hle
      exact ⟨(Int.add_zero fPos).symm, rfl, rfl⟩
    · exact absurd hlate.2.1 (Int.not_le.mpr hneg)
  obtain ⟨pos, rfl⟩ := Int.eq_ofNat_of_zero_le hnonneg
  have hpos : pos < 2 ^ 63 := by
    have hhigh := hrange.2
    omega
  obtain ⟨copied, ret, hread, hcopied, hcases⟩ := h.aesdRead_spec env count hpos
  have hunique : (∃ outcome, aesdRead env kernel count pos = some outcome ∧
      KeepsPosition kernel pos outcome) ↔ KeepsPosition kernel pos
        ⟨⟨ret, kernel, ((pos + copied : Nat) : Int)⟩, (kernel.content.drop pos).take copied⟩ := by
    rw [hread]
    simp only [Option.some.injEq, exists_eq_left']
  refine hunique.trans ?_
  rcases hcases with ⟨hlock, hret, rfl⟩ | ⟨-, rfl, -, hall⟩ | ⟨hlock, hret, hfirst, hfail⟩
  · refine iff_of_true ((keepsPosition_of_failure_iff hret).mpr rfl) fun hlate => ?_
    rw [hlate.1] at hlock
    cases hlock
  · refine iff_of_true (keepsPosition_of_slice hcopied) fun ⟨_, _, _, i, hi, hfail⟩ => ?_
    rw [hall i hi] at hfail
    cases hfail
  · rw [keepsPosition_of_failure_iff hret]
    have hmoved : ((pos + copied : Nat) : Int) = pos ↔ copied = 0 := by omega
    rw [hmoved, hfirst]
    constructor
    · intro hfalse hlate
      rw [hlate.2.2.1] at hfalse
      cases hfalse
    · intro hnot
      by_contra htrue
      exact hnot ⟨hlock, hnonneg, by simpa using htrue, hfail⟩

/-- The read copies a command, fails at the second one, and has moved past the first. -/
theorem not_keepsPosition_second_copy :
    let kernel := ((System.init ⟨2 ^ 22, by decide, fun _ => 0⟩).run
      [plainWrite 0 [97, 10], plainWrite 0 [98, 10]]).kernel
    ¬ ∃ outcome, aesdRead ⟨true, fun i => i = 0⟩ kernel 4 0 = some outcome ∧
      KeepsPosition kernel 0 outcome := by
  rintro kernel ⟨outcome, hread, hkeeps⟩
  have houtcome : (aesdRead ⟨true, fun i => i = 0⟩ kernel 4 0).map (fun outcome =>
      (outcome.ret, outcome.fPos)) = some (-14, 2) := by decide
  rw [hread] at houtcome
  obtain ⟨hret, hpos⟩ := Prod.mk.inj (Option.some.inj houtcome)
  have hzero := hkeeps.of_failure (by rw [hret]; decide)
  rw [hpos] at hzero
  exact absurd hzero (by decide)

theorem read_keepsPosition_iff_first_copy :
    let kernel := ((System.init ⟨2 ^ 22, by decide, fun _ => 0⟩).run
      [plainWrite 0 [97, 10], plainWrite 0 [98, 10]]).kernel
    ∃ outcome, aesdRead ⟨true, fun i => i ≠ 0⟩ kernel 4 0 = some outcome ∧
      KeepsPosition kernel 0 outcome := by
  intro kernel
  exact (read_keepsPosition_iff ⟨2 ^ 22, by decide, fun _ => 0⟩
    [plainWrite 0 [97, 10], plainWrite 0 [98, 10]] ⟨true, fun i => i ≠ 0⟩ 4 0
    (by unfold InRange; decide)).mpr fun hlate => absurd hlate.2.2.1 (by decide)

end AesdChar
