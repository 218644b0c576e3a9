import AesdChar.Proof.Client

/-!
# Packets and segments

TCP may deliver a packet in any pieces. The server looks for the seek command at the start of its
buffer after each piece, so that a piece is taken for a command when the buffer happens to begin
like one, be it that the piece does or that an earlier piece left the rest of the prefix behind.
Whether a packet can be cut so is a property of its bytes. If it can, the same packet one byte at a
time is all data, and the two store different commands; if it cannot, all cuttings do the same.
-/

namespace AesdChar

open Lib

/-- The chunks are a way for the packet to arrive. -/
def Segments (packet : Bytes) (chunks : List Bytes) : Prop :=
  chunks.flatten = packet ∧ ∀ chunk ∈ chunks, 1 ≤ chunk.length ∧ chunk.length ≤ bufferSize

def zeroBuffer : Bytes := List.replicate bufferSize 0

/-- Both connections end the same way: the device stores the same, and the clients got the same. -/
def SameEffect (first second : Option Turn) : Prop :=
  ∃ state₁ state₂, first = some (.finished state₁) ∧ second = some (.finished state₂) ∧
    state₁.kernel.commands = state₂.kernel.commands ∧
    state₁.kernel.pending = state₂.kernel.pending ∧ state₁.sent = state₂.sent

/-! ### Buffers that do not look like a seek command -/

theorem newline_notMem_ioctlPrefix : newline ∉ ioctlPrefix := by decide

theorem not_isSeekCommand_of_mem {buffer chunk : Bytes} (hnewline : newline ∈ chunk)
    (hshort : chunk.length ≤ ioctlPrefixLen) : ¬ IsSeekCommand (overlay buffer chunk) := by
  intro hseek
  apply newline_notMem_ioctlPrefix
  rw [← hseek, overlay, List.take_append, List.take_of_length_le hshort]
  exact List.mem_append_left _ hnewline

theorem not_isSeekCommand_singleton {buffer : Bytes} (hsecond : buffer[1]? = some 0) (byte : Byte) :
    ¬ IsSeekCommand (overlay buffer [byte]) := by
  intro hseek
  have hprefix : (overlay buffer [byte])[1]? = some 69 := by
    rw [← List.getElem?_take_of_lt (by decide : 1 < ioctlPrefixLen), hseek]
    rfl
  have hbuffer : (overlay buffer [byte])[1]? = buffer[1]? := by
    simp [overlay]
  rw [hbuffer, hsecond] at hprefix
  exact absurd hprefix (by decide)

theorem allData_singletons (bytes : Bytes) {buffer : Bytes} (hsecond : buffer[1]? = some 0) :
    AllData buffer (singletons bytes) := by
  induction bytes generalizing buffer with
  | nil => trivial
  | cons byte bytes ih =>
      refine ⟨not_isSeekCommand_singleton hsecond byte, ih ?_⟩
      rw [← hsecond]
      simp [overlay]

/-! ### Buffers that can be made to look like one -/

theorem not_holdsFrom_zeroBuffer : ∀ i < ioctlPrefixLen, ¬ HoldsFrom ioctlPrefix zeroBuffer i := by
  unfold HoldsFrom
  decide

theorem assembles_of_not_allData {body : Bytes} {chunks : List Bytes}
    (hflatten : chunks.flatten = body ++ [newline]) (hnot : ¬ AllData zeroBuffer chunks) :
    Assembles ioctlPrefix ioctlPrefixLen body := by
  have hassembles : Assembles ioctlPrefix ioctlPrefixLen chunks.flatten :=
    assembles_of_not_neverShows le_rfl not_holdsFrom_zeroBuffer hnot
  exact hassembles.of_concat newline_notMem_ioctlPrefix le_rfl hflatten

theorem exists_not_allData_of_assembles {body : Bytes}
    (h : Assembles ioctlPrefix ioctlPrefixLen body) :
    ∃ front : List Bytes, front.flatten = body ∧
      (∀ chunk ∈ front, 1 ≤ chunk.length ∧ chunk.length ≤ bufferSize) ∧
      ¬ AllData zeroBuffer front := by
  have hbuffer : HoldsFrom ioctlPrefix zeroBuffer ioctlPrefixLen := rfl
  obtain ⟨front, hflatten, hsizes, hnot⟩ := h.exists_cutting (by decide) le_rfl hbuffer
  refine ⟨front, hflatten, fun chunk hchunk => ?_, hnot⟩
  obtain ⟨hpositive, hle⟩ := hsizes chunk hchunk
  exact ⟨hpositive, hle.trans (by decide)⟩

/-! ### Cuttings of a packet -/

section Packet

variable {body : Bytes} {chunks : List Bytes}

theorem Segments.exists_last (h : Segments (body ++ [newline]) chunks) :
    ∃ front lead, chunks = front ++ [lead ++ [newline]] ∧ body = front.flatten ++ lead := by
  obtain ⟨hflatten, hsizes⟩ := h
  have hne : chunks ≠ [] := by
    rintro rfl
    simp at hflatten
  obtain ⟨front, last, rfl⟩ := (List.eq_nil_or_concat' chunks).resolve_left hne
  have hlast : last ≠ [] := List.length_pos_iff.mp (hsizes last (by simp)).1
  obtain ⟨lead, byte, rfl⟩ := (List.eq_nil_or_concat' last).resolve_left hlast
  rw [List.flatten_concat, ← List.append_assoc] at hflatten
  obtain ⟨hbody, hbyte⟩ := List.append_inj' hflatten rfl
  obtain rfl : byte = newline := List.singleton_inj.mp hbyte
  exact ⟨front, lead, rfl, hbody.symm⟩

theorem Segments.front (hbody : newline ∉ body) (h : Segments (body ++ [newline]) chunks)
    {front : List Bytes} {lead : Bytes} (hchunks : chunks = front ++ [lead ++ [newline]])
    (hsplit : body = front.flatten ++ lead) : ∀ chunk ∈ front, chunk ≠ [] ∧ newline ∉ chunk := by
  intro chunk hchunk
  have hmem : chunk ∈ chunks := by
    rw [hchunks]
    exact List.mem_append_left _ hchunk
  refine ⟨List.length_pos_iff.mp (h.2 chunk hmem).1, fun hnewline => hbody ?_⟩
  rw [hsplit]
  exact List.mem_append_left _ (List.mem_flatten.mpr ⟨chunk, hchunk, hnewline⟩)

theorem segments_concat_newline {front : List Bytes} (hflatten : front.flatten = body)
    (hsizes : ∀ chunk ∈ front, 1 ≤ chunk.length ∧ chunk.length ≤ bufferSize) :
    Segments (body ++ [newline]) (front ++ [[newline]]) := by
  refine ⟨by rw [List.flatten_concat, hflatten], fun chunk hchunk => ?_⟩
  rcases List.mem_append.mp hchunk with hold | hlast
  · exact hsizes chunk hold
  · obtain rfl := List.mem_singleton.mp hlast
    exact ⟨le_rfl, by decide⟩

theorem handleClient_of_allData {env : ClientEnv} (henv : env.Succeeds) {kernel : Kernel}
    {log : Log} {lost : Finset Ptr} (hrefines : Refines kernel log lost) (hbody : newline ∉ body)
    (h : Segments (body ++ [newline]) chunks) (hdata : AllData zeroBuffer chunks)
    (hroom : log.pending.length + (body ++ [newline]).length ≤ kernel.heap.limit) :
    ∃ state lost', handleClient env kernel zeroBuffer chunks = some (.finished state) ∧
      Refines state.kernel ⟨log.committed ++ [log.pending ++ (body ++ [newline])], []⟩ lost' ∧
      state.sent = state.kernel.content := by
  obtain ⟨front, lead, hchunks, hsplit⟩ := h.exists_last
  have hfront := h.front hbody hchunks hsplit
  rw [hchunks] at hdata
  obtain ⟨hall, hlast, -⟩ := (along_append _ _ _).mp hdata
  rw [← h.1, hchunks] at hroom
  obtain ⟨state, kept, lost', hclient, hrefines', hsent, -⟩ :=
    handleClient_spec henv hrefines zeroBuffer hfront (by simp) hlast hroom
  obtain ⟨hkept, hcontent⟩ := hsent hall
  refine ⟨state, lost', by rw [hchunks, hclient], ?_, hcontent⟩
  rw [hsplit, List.append_assoc, ← List.append_assoc log.pending, ← hkept]
  exact hrefines'

/-- Front chunks and then the newline on its own: what is committed depends on what was data. -/
theorem handleClient_newline_last {env : ClientEnv} (henv : env.Succeeds) {kernel : Kernel}
    {log : Log} {lost : Finset Ptr} (hrefines : Refines kernel log lost) (hbody : newline ∉ body)
    {front : List Bytes} (h : Segments (body ++ [newline]) (front ++ [[newline]]))
    (hroom : log.pending.length + (body ++ [newline]).length ≤ kernel.heap.limit) :
    ∃ state kept, handleClient env kernel zeroBuffer (front ++ [[newline]]) =
        some (.finished state) ∧
      state.kernel.commands.getLast? = some (log.pending ++ kept ++ [newline]) ∧
      (AllData zeroBuffer front → kept.length = body.length) ∧
      (¬ AllData zeroBuffer front → kept.length < body.length) := by
  have hflatten : front.flatten = body := by
    have heq := h.1
    rw [List.flatten_concat] at heq
    exact List.append_cancel_right heq
  have hchunks : front ++ [[newline]] = front ++ [[] ++ [newline]] := rfl
  have hfront := h.front hbody hchunks (by rw [hflatten, List.append_nil])
  have hlast : ¬ IsSeekCommand (overlay (run overlay zeroBuffer front) [newline]) :=
    not_isSeekCommand_of_mem (by simp) (by decide)
  rw [← h.1] at hroom
  obtain ⟨state, kept, lost', hclient, hrefines', hall, hsome⟩ :=
    handleClient_spec henv hrefines zeroBuffer hfront (by simp) hlast hroom
  refine ⟨state, kept, hclient, ?_, fun hdata => ?_, ?_⟩
  · rw [hrefines.commands_of_committed hrefines', List.getLast?_concat]
  · rw [(hall hdata).1, hflatten]
  · rw [← hflatten]
    exact hsome

end Packet

/-- **All cuttings of a packet have the same effect exactly when its bytes do not assemble the seek
command's prefix.** -/
theorem segmentation_independent_iff (config : KmallocConfig) (calls : List Call)
    (env₁ env₂ : ClientEnv) (henv₁ : env₁.Succeeds) (henv₂ : env₂.Succeeds) (body : Bytes)
    (hbody : newline ∉ body)
    (hroom : ((System.init config).run calls).kernel.pending.length + (body ++ [newline]).length ≤
      ((System.init config).run calls).kernel.heap.limit) :
    let kernel := ((System.init config).run calls).kernel
    (∀ chunks₁ chunks₂, Segments (body ++ [newline]) chunks₁ →
        Segments (body ++ [newline]) chunks₂ →
        SameEffect (handleClient env₁ kernel zeroBuffer chunks₁)
          (handleClient env₂ kernel zeroBuffer chunks₂)) ↔
      ¬ Assembles ioctlPrefix ioctlPrefixLen body := by
  intro kernel
  obtain ⟨log, lost, hfollows, -, -⟩ := run_follows config calls
  have hrefines : Refines kernel log lost := hfollows.refines
  rw [hrefines.pending_eq] at hroom
  constructor
  · intro hsame hassembles
    obtain ⟨front, hflatten, hsizes, hfront⟩ := exists_not_allData_of_assembles hassembles
    -- that cutting, and the same packet one byte at a time
    have hsegments : Segments (body ++ [newline]) (front ++ [[newline]]) :=
      segments_concat_newline hflatten hsizes
    have hsingle : Segments (body ++ [newline]) (singletons body ++ [[newline]]) := by
      apply segments_concat_newline (flatten_singletons body)
      intro chunk hchunk
      obtain ⟨byte, -, rfl⟩ := mem_singletons hchunk
      exact ⟨le_rfl, (by decide : 1 ≤ bufferSize)⟩
    obtain ⟨state₁, kept₁, hclient₁, hlast₁, -, hlt⟩ :=
      handleClient_newline_last henv₁ hrefines hbody hsegments hroom
    obtain ⟨state₂, kept₂, hclient₂, hlast₂, heq, -⟩ :=
      handleClient_newline_last henv₂ hrefines hbody hsingle hroom
    obtain ⟨_, _, hfinished₁, hfinished₂, hcommands, -, -⟩ := hsame _ _ hsegments hsingle
    rw [hclient₁] at hfinished₁
    rw [hclient₂] at hfinished₂
    cases hfinished₁
    cases hfinished₂
    rw [hcommands, hlast₂] at hlast₁
    have hlength := congrArg List.length (Option.some.inj hlast₁)
    simp only [List.length_append] at hlength
    have hless := hlt hfront
    have hsame := heq (allData_singletons body (by decide))
    omega
  · intro hnot chunks₁ chunks₂ hchunks₁ hchunks₂
    have hall : ∀ chunks, Segments (body ++ [newline]) chunks → AllData zeroBuffer chunks := by
      intro chunks hchunks
      by_contra hshows
      exact hnot (assembles_of_not_allData hchunks.1 hshows)
    obtain ⟨state₁, lost₁, hclient₁, hrefines₁, hsent₁⟩ :=
      handleClient_of_allData henv₁ hrefines hbody hchunks₁ (hall chunks₁ hchunks₁) hroom
    obtain ⟨state₂, lost₂, hclient₂, hrefines₂, hsent₂⟩ :=
      handleClient_of_allData henv₂ hrefines hbody hchunks₂ (hall chunks₂ hchunks₂) hroom
    have hcommands : state₁.kernel.commands = state₂.kernel.commands := by
      rw [hrefines₁.commands_eq, hrefines₂.commands_eq]
    refine ⟨state₁, state₂, hclient₁, hclient₂, hcommands, ?_, ?_⟩
    · rw [hrefines₁.pending_eq, hrefines₂.pending_eq]
    · rw [hsent₁, hsent₂, Kernel.content, Kernel.content, hcommands]

theorem segmentation_independent_iff_short :
    let kernel := ((System.init ⟨2 ^ 22, by decide, fun _ => 0⟩).run []).kernel
    SameEffect (handleClient smoothEnv kernel zeroBuffer [[97, 10]])
      (handleClient smoothEnv kernel zeroBuffer [[97], [10]]) := by
  intro kernel
  have hnot : ¬ Assembles ioctlPrefix ioctlPrefixLen [97] := fun hassembles =>
    absurd (hassembles.le_length le_rfl) (by decide)
  exact (segmentation_independent_iff ⟨2 ^ 22, by decide, fun _ => 0⟩ [] smoothEnv smoothEnv
    smoothEnv_succeeds smoothEnv_succeeds [97] (by decide) (by decide)).mpr hnot _ _
      ⟨rfl, by decide⟩ ⟨rfl, by decide⟩

/-- The seek command `AESDCHAR_IOCSEEKTO:0,0`, without its newline. -/
def seekToFirst : Bytes := ioctlPrefix ++ [48, 44, 48]

/-- Arriving whole it is a command; arriving in two pieces, the first of ten bytes, it is text that
gets stored. -/
theorem segmentation_matters :
    let kernel := ((System.init ⟨2 ^ 22, by decide, fun _ => 0⟩).run []).kernel
    let packet := seekToFirst ++ [newline]
    Segments packet [packet] ∧ Segments packet [packet.take 10, packet.drop 10] ∧
      ¬ SameEffect (handleClient smoothEnv kernel zeroBuffer [packet])
        (handleClient smoothEnv kernel zeroBuffer [packet.take 10, packet.drop 10]) := by
  intro kernel packet
  refine ⟨⟨rfl, by decide⟩, ⟨rfl, by decide⟩, ?_⟩
  rintro ⟨state₁, state₂, hclient₁, hclient₂, hcommands, -, -⟩
  have hwhole : (handleClient smoothEnv kernel zeroBuffer [packet]).map (fun turn =>
      match turn with
      | .finished state => state.kernel.commands
      | _ => []) = some [] := by decide
  have hpieces : (handleClient smoothEnv kernel zeroBuffer [packet.take 10, packet.drop 10]).map
      (fun turn => match turn with
      | .finished state => state.kernel.commands
      | _ => []) = some [packet] := by decide
  rw [hclient₁] at hwhole
  rw [hclient₂] at hpieces
  have hnone : state₁.kernel.commands = [] := Option.some.inj hwhole
  have hone : state₂.kernel.commands = [packet] := Option.some.inj hpieces
  rw [hnone, hone] at hcommands
  exact absurd hcommands (List.cons_ne_nil _ _).symm

end AesdChar
