import AesdChar.Proof.Client
import AesdChar.Proof.Scan

/-!
# What a chunk leaves to the bytes behind it

The prefix test and the scan of the numbers run on the receive buffer, not on the bytes received,
and the scan does not end with the buffer either. A chunk that is a proper beginning of the prefix
leaves it to the rest of the buffer whether it is a command. One that ends inside the numbers leaves
it to the rest which numbers they are, unless they cannot change any more. How little of the buffer
is enough for that depends on the bytes behind it. All other chunks are acted upon in the same way
whatever follows them in the buffer.
-/

namespace AesdChar

open Lib

/-! ### Two runs of one turn -/

def ClientState.withBuffer (state : ClientState) (buffer : Bytes) : ClientState :=
  { state with buffer := buffer }

def Turn.withBuffer (buffer : Bytes) : Turn → Turn
  | .next state => .next (state.withBuffer buffer)
  | .finished state => .finished (state.withBuffer buffer)
  | .exited state => .exited (state.withBuffer buffer)

/-- The turn of a chunk does not tell the two contents of the buffer apart. -/
structure ActsAlike (env : ClientEnv) (state : ClientState) (chunk left₁ left₂ : Bytes) : Prop where
  decision : IsSeekCommand (overlay left₁ chunk) ↔ IsSeekCommand (overlay left₂ chunk)
  seekto : IsSeekCommand (overlay left₁ chunk) →
    scanSeekto (cString ((overlay left₁ chunk).drop ioctlPrefixLen)) =
      scanSeekto (cString ((overlay left₂ chunk).drop ioctlPrefixLen))
  written : (overlay left₁ chunk).take chunk.length = (overlay left₂ chunk).take chunk.length
  /-- The kernel, the position, the bytes sent and how the turn ends. -/
  turn : (handleChunk env (state.withBuffer left₁) chunk).map (Turn.withBuffer []) =
    (handleChunk env (state.withBuffer left₂) chunk).map (Turn.withBuffer [])

section WithBuffer

variable (env : ClientEnv) (state : ClientState) (buffer : Bytes)

@[simp] theorem ClientState.withBuffer_kernel : (state.withBuffer buffer).kernel = state.kernel :=
  rfl

@[simp] theorem ClientState.withBuffer_fPos : (state.withBuffer buffer).fPos = state.fPos := rfl

@[simp] theorem ClientState.withBuffer_clock : (state.withBuffer buffer).clock = state.clock := rfl

@[simp] theorem ClientState.withBuffer_buffer : (state.withBuffer buffer).buffer = buffer := rfl

@[simp] theorem ClientState.receive_withBuffer (chunk : Bytes) :
    (state.withBuffer buffer).receive chunk = state.withBuffer (overlay buffer chunk) := rfl

@[simp] theorem ClientState.settle_withBuffer (outcome : Outcome) :
    (state.withBuffer buffer).settle outcome = (state.settle outcome).withBuffer buffer := rfl

@[simp] theorem ClientState.seek_withBuffer (outcome : Outcome) :
    (state.withBuffer buffer).seek outcome = (state.seek outcome).withBuffer buffer := rfl

@[simp] theorem ClientState.send_withBuffer (data : Bytes) :
    (state.withBuffer buffer).send env data = (state.send env data).withBuffer buffer := rfl

theorem replyLoop_withBuffer (fuel : Nat) :
    replyLoop env fuel (state.withBuffer buffer) =
      (replyLoop env fuel state).map (·.withBuffer buffer) := by
  induction fuel generalizing state with
  | zero => rfl
  | succ fuel ih =>
      simp only [replyLoop, ClientState.withBuffer_kernel, ClientState.withBuffer_fPos,
        ClientState.withBuffer_clock, ClientState.settle_withBuffer,
        ClientState.send_withBuffer, ih]
      cases aesdRead (env.read state.clock) state.kernel bufferSize state.fPos with
      | none => rfl
      | some outcome =>
          by_cases hmore : 0 < outcome.ret
          · simp only [if_pos hmore]
          · simp only [if_neg hmore, Option.map_some]

theorem reply_withBuffer :
    reply env (state.withBuffer buffer) = (reply env state).map (·.withBuffer buffer) :=
  replyLoop_withBuffer env state buffer _

theorem seekReply_withBuffer (seekto : AesdSeekto) :
    seekReply env (state.withBuffer buffer) seekto =
      (seekReply env state seekto).map (·.withBuffer buffer) := by
  simp only [seekReply, ClientState.seek_withBuffer, reply_withBuffer,
    ClientState.withBuffer_kernel, ClientState.withBuffer_fPos, ClientState.withBuffer_clock]

/-- What a command does, but for the buffer. -/
theorem handleChunk_withBuffer_of_seek {chunk : Bytes}
    (hseek : IsSeekCommand (overlay buffer chunk)) :
    (handleChunk env (state.withBuffer buffer) chunk).map (Turn.withBuffer []) =
      ((scanSeekto (cString ((overlay buffer chunk).drop ioctlPrefixLen))).elim (some state)
        (seekReply env state)).map fun after => .next (after.withBuffer []) := by
  simp only [handleChunk, ClientState.receive_withBuffer, ClientState.withBuffer_buffer, hseek,
    if_true]
  cases scanSeekto (cString ((overlay buffer chunk).drop ioctlPrefixLen)) with
  | none => rfl
  | some seekto =>
      simp only [seekReply_withBuffer, Option.map_map]
      rfl

/-- What data do, in any two buffers. -/
theorem handleChunk_withBuffer_of_not_seek {chunk other : Bytes}
    (hdata : ¬ IsSeekCommand (overlay buffer chunk))
    (hother : ¬ IsSeekCommand (overlay other chunk)) :
    (handleChunk env (state.withBuffer buffer) chunk).map (Turn.withBuffer []) =
      (handleChunk env (state.withBuffer other) chunk).map (Turn.withBuffer []) := by
  simp only [handleChunk, ClientState.receive_withBuffer, ClientState.withBuffer_buffer, hdata,
    hother, if_false, take_overlay, ClientState.withBuffer_kernel, ClientState.withBuffer_fPos,
    ClientState.withBuffer_clock, ClientState.settle_withBuffer, ClientState.seek_withBuffer,
    reply_withBuffer]
  by_cases hshort : (aesdWrite (env.write state.clock) state.kernel (some chunk) state.fPos).ret ≠
      chunk.length
  · simp only [if_pos hshort]
    rfl
  by_cases hnewline : newline ∈ chunk
  · simp only [if_neg hshort, if_pos hnewline, Option.map_map]
    rfl
  · simp only [if_neg hshort, if_neg hnewline]
    rfl

end WithBuffer

/-- The buffer enters a turn through the decision and the numbers only. -/
theorem actsAlike_iff {env : ClientEnv} {state : ClientState} {chunk left₁ left₂ : Bytes} :
    ActsAlike env state chunk left₁ left₂ ↔
      (IsSeekCommand (overlay left₁ chunk) ↔ IsSeekCommand (overlay left₂ chunk)) ∧
      (IsSeekCommand (overlay left₁ chunk) →
        scanSeekto (cString ((overlay left₁ chunk).drop ioctlPrefixLen)) =
          scanSeekto (cString ((overlay left₂ chunk).drop ioctlPrefixLen))) := by
  constructor
  · intro h
    exact ⟨h.decision, h.seekto⟩
  rintro ⟨hdecision, hseekto⟩
  refine ⟨hdecision, hseekto, by rw [take_overlay, take_overlay], ?_⟩
  by_cases hseek : IsSeekCommand (overlay left₁ chunk)
  · rw [handleChunk_withBuffer_of_seek env state left₁ hseek,
      handleChunk_withBuffer_of_seek env state left₂ (hdecision.mp hseek), hseekto hseek]
  · exact handleChunk_withBuffer_of_not_seek env state left₁ hseek fun h => hseek (hdecision.mpr h)

/-! ### Which chunks decide -/

/-- One more digit does not change the number. -/
def Saturated (input : Bytes) : Prop :=
  2 ^ 64 ≤ 10 * digitsValue (digitsOf input) ∧ numberOf input = UInt32.ofNat (2 ^ 64 - 1)

/-- How many bytes a text that the first conversion reads to its end lacks for two numbers. -/
def missing (text : Bytes) : Nat := if digitsOf text = [] then 3 else 2

/-- The first conversion reads the text to its end, and two numbers may yet come about: in the
buffer, with the second one behind it, with the comma behind it, or with both of them behind it. -/
def FirstOpen (text : Bytes) (room : Nat) (behind : Bytes) : Prop :=
  restOf text = [] ∧ 0 < room ∧
    (missing text ≤ room ∨ (missing text ≤ room + 1 ∧ digitsOf behind ≠ []) ∨
      (∃ second, behind.dropWhile isDigit = 44 :: second ∧ digitsOf second ≠ []) ∨
      (text.dropWhile isSpace = [] ∧ scanSeekto behind ≠ none))

/-- The second conversion reads the text to its end, and another digit makes a difference. -/
def SecondOpen (text : Bytes) (room : Nat) (behind : Bytes) : Prop :=
  restOf text = [] ∧ 0 < room ∧
    (digitsOf text = [] ∨ (1 < room ∧ ¬ Saturated text) ∨
      -- the digit is the buffer's last byte, and the number goes on behind it
      (room = 1 ∧ ∃ digit, isDigit digit = true ∧
        numberOf (text ++ digit :: behind) ≠ numberOf text))

def LeftOpen (text : Bytes) (room : Nat) (behind : Bytes) : Prop :=
  FirstOpen text room behind ∨
    ∃ second, digitsOf text ≠ [] ∧ restOf text = 44 :: second ∧ SecondOpen second room behind

/-- The chunk ends inside the prefix, or behind it where a number could go on. -/
def Undecided (chunk behind : Bytes) : Prop :=
  (chunk.length < ioctlPrefixLen ∧ chunk <+: ioctlPrefix) ∨
    (ioctlPrefix <+: chunk ∧
      LeftOpen (chunk.drop ioctlPrefixLen) (bufferSize - chunk.length) behind)

/-! ### Texts that are not open -/

section Append

variable {text tail behind : Bytes}

theorem numberOf_append_of_saturated (hrest : restOf text = []) (hdigits : digitsOf text ≠ [])
    (hsaturated : Saturated text) : numberOf (text ++ tail) = numberOf text := by
  rw [numberOf_append_of_open hrest hdigits]
  by_cases hmore : tail.takeWhile isDigit = []
  · rw [hmore, List.append_nil, numberOf]
  · obtain ⟨hlarge, hnumber⟩ := hsaturated
    rw [strtoul, if_pos (hlarge.trans (le_digitsValue_append _ hmore)), hnumber]

/-- A number that is not open keeps its value in front of any bytes of the buffer. -/
theorem numberOf_append_of_closed (hroom : tail ≠ []) (hrest : restOf text = [])
    (h : ¬ SecondOpen text tail.length behind) :
    digitsOf text ≠ [] ∧ numberOf (text ++ (tail ++ behind)) = numberOf text := by
  have hpos : 0 < tail.length := List.length_pos_iff.mpr hroom
  have hclosed := fun hopen => h ⟨hrest, hpos, hopen⟩
  have hdigits : digitsOf text ≠ [] := fun hnone => hclosed (Or.inl hnone)
  refine ⟨hdigits, ?_⟩
  obtain ⟨byte, rest, rfl⟩ := List.exists_cons_of_ne_nil hroom
  by_cases hdigit : isDigit byte = true
  · by_cases hlast : rest = []
    · subst hlast
      exact not_not.mp fun hne => hclosed (Or.inr (Or.inr ⟨rfl, byte, hdigit, hne⟩))
    · have hlong : 1 < (byte :: rest).length := by
        rw [List.length_cons]
        exact Nat.succ_lt_succ (List.length_pos_iff.mpr hlast)
      exact numberOf_append_of_saturated hrest hdigits
        (not_not.mp fun hnot => hclosed (Or.inr (Or.inl ⟨hlong, hnot⟩)))
  · rw [numberOf_append_of_open hrest hdigits, List.cons_append,
      List.takeWhile_cons_of_neg hdigit, List.append_nil, numberOf]

/-- What the second conversion makes of a text that is not open. -/
theorem second_append (hroom : tail ≠ []) (h : ¬ SecondOpen text tail.length behind) :
    (digitsOf (text ++ (tail ++ behind)) = [] ↔ digitsOf text = []) ∧
      (digitsOf text ≠ [] → numberOf (text ++ (tail ++ behind)) = numberOf text) := by
  by_cases hrest : restOf text = []
  · obtain ⟨hdigits, hnumber⟩ := numberOf_append_of_closed hroom hrest h
    exact ⟨iff_of_false (digitsOf_append_ne_nil hrest hdigits _) hdigits, fun _ => hnumber⟩
  · rw [digitsOf_append_of_stops hrest]
    exact ⟨Iff.rfl, fun _ => numberOf_append_of_stops hrest⟩

/-- Two numbers have a comma between them. -/
theorem exists_of_scanSeekto_ne_none {input : Bytes} (h : scanSeekto input ≠ none) :
    digitsOf input ≠ [] ∧ ∃ second, restOf input = 44 :: second ∧ digitsOf second ≠ [] := by
  have hdigits : digitsOf input ≠ [] := fun hnone => h (scanSeekto_eq_none (Or.inl hnone))
  have hcomma : ∃ second, restOf input = 44 :: second := by
    by_contra hnone
    exact h (scanSeekto_eq_none (Or.inr (not_exists.mp hnone)))
  obtain ⟨second, hsecond⟩ := hcomma
  refine ⟨hdigits, second, hsecond, fun hnone => h ?_⟩
  rw [scanSeekto_of_comma hdigits hsecond, if_pos hnone]

/-- White space in front of the numbers is skipped. -/
theorem scanSeekto_append_of_spaces (hspaces : text.dropWhile isSpace = []) (input : Bytes) :
    scanSeekto (text ++ input) = scanSeekto input := by
  have hdrop : unsignedText (text ++ input) = unsignedText input := by
    rw [unsignedText, List.dropWhile_append, hspaces, List.isEmpty_nil, if_pos rfl, unsignedText]
  have hfirst : scanUnsigned (text ++ input) = scanUnsigned input := by
    rw [scanUnsigned_eq, scanUnsigned_eq, digitsOf, signOf, restOf, hdrop, digitsOf, signOf, restOf]
  rw [scanSeekto, hfirst, scanSeekto]

/-- The bytes of the buffer that both conversions use up. -/
theorem missing_le_of_comma {second : Bytes} (hrest : restOf text = [])
    (hdigits : digitsOf (text ++ tail) ≠ []) (hcomma : restOf (text ++ tail) = 44 :: second) :
    missing text + second.length ≤ tail.length + 1 := by
  have hlength := length_unsignedText_append_le text tail
  rw [← digitsOf_append_restOf, List.length_append, hcomma, List.length_cons,
    unsignedText_of_restOf_eq_nil hrest] at hlength
  have hfirst : 0 < (digitsOf (text ++ tail)).length := List.length_pos_iff.mpr hdigits
  unfold missing
  split
  · rename_i hnone
    rw [hnone, List.length_nil] at hlength
    omega
  · rename_i hsome
    rw [digitsOf_append_of_open hrest (Or.inl hsome), List.length_append] at hlength
    omega

/-- Behind a text with digits or a sign at its end the digits go on. -/
theorem restOf_append_of_not_spaces (hrest : restOf text = [])
    (hspaces : text.dropWhile isSpace ≠ []) : restOf (text ++ tail) = tail.dropWhile isDigit := by
  rw [restOf, unsignedText_append (Or.inl hspaces), unsignedText_of_restOf_eq_nil hrest,
    List.dropWhile_append_of_pos fun _ => isDigit_of_mem_digitsOf]

theorem dropWhile_isSpace_of_append (h : (text ++ tail).dropWhile isSpace = []) :
    text.dropWhile isSpace = [] := by
  rw [List.dropWhile_eq_nil_iff] at h ⊢
  exact fun byte hbyte => h byte (List.mem_append_left _ hbyte)

/-- Two numbers come about in the ways that an open text names. -/
theorem firstOpen_of_scanSeekto_ne_none (hroom : tail ≠ []) (hrest : restOf text = [])
    (h : scanSeekto (text ++ tail ++ behind) ≠ none) : FirstOpen text tail.length behind := by
  refine ⟨hrest, List.length_pos_iff.mpr hroom, ?_⟩
  obtain ⟨hdigits, second, hcomma, hsecond⟩ := exists_of_scanSeekto_ne_none h
  by_cases hstops : restOf (text ++ tail) = []
  · by_cases hspaces : (text ++ tail).dropWhile isSpace = []
    · rw [scanSeekto_append_of_spaces hspaces] at h
      exact Or.inr (Or.inr (Or.inr ⟨dropWhile_isSpace_of_append hspaces, h⟩))
    · rw [restOf_append_of_not_spaces hstops hspaces] at hcomma
      exact Or.inr (Or.inr (Or.inl ⟨second, hcomma, hsecond⟩))
  · -- the comma is in the buffer
    rw [digitsOf_append_of_stops hstops] at hdigits
    rw [restOf_append_of_stops hstops, List.append_eq_cons_iff] at hcomma
    obtain ⟨hnil, -⟩ | ⟨begun, hbegun, rfl⟩ := hcomma
    · exact absurd hnil hstops
    have hlength := missing_le_of_comma hrest hdigits hbegun
    by_cases hnone : begun = []
    · subst hnone
      exact Or.inr (Or.inl ⟨hlength, hsecond⟩)
    · have hpos : 0 < begun.length := List.length_pos_iff.mpr hnone
      exact Or.inl (by omega)

/-- **A text that is not open is scanned as if nothing were behind it.** -/
theorem scanSeekto_append (hroom : tail ≠ []) (h : ¬ LeftOpen text tail.length behind) :
    scanSeekto (text ++ tail ++ behind) = scanSeekto text := by
  obtain ⟨hfirst, hsecond⟩ := not_or.mp h
  by_cases hrest : restOf text = []
  · have hnone : scanSeekto (text ++ tail ++ behind) = none :=
      not_not.mp fun hsome => hfirst (firstOpen_of_scanSeekto_ne_none hroom hrest hsome)
    rw [hnone, scanSeekto_eq_none (Or.inr ?_)]
    intro second hcomma
    rw [hrest] at hcomma
    cases hcomma
  rw [List.append_assoc]
  have hdigitsOf := digitsOf_append_of_stops hrest (tail ++ behind)
  have hrestOf := restOf_append_of_stops hrest (tail ++ behind)
  by_cases hdigits : digitsOf text = []
  · rw [scanSeekto_eq_none (Or.inl hdigits),
      scanSeekto_eq_none (Or.inl (by rw [hdigitsOf, hdigits]))]
  by_cases hcomma : ∃ second, restOf text = 44 :: second
  · obtain ⟨second, hcomma⟩ := hcomma
    have hclosed : ¬ SecondOpen second tail.length behind := fun hopen =>
      hsecond ⟨second, hdigits, hcomma, hopen⟩
    obtain ⟨hiff, hnumber⟩ := second_append hroom hclosed
    rw [hcomma, List.cons_append] at hrestOf
    rw [scanSeekto_of_comma hdigits hcomma,
      scanSeekto_of_comma (by rw [hdigitsOf]; exact hdigits) hrestOf,
      numberOf_append_of_stops hrest]
    by_cases hnone : digitsOf second = []
    · rw [if_pos hnone, if_pos (hiff.mpr hnone)]
    · rw [if_neg hnone, if_neg (hiff.not.mpr hnone), hnumber hnone]
  · rw [scanSeekto_eq_none (Or.inr (not_exists.mp hcomma)), scanSeekto_eq_none (Or.inr ?_)]
    intro second hsome
    rw [hrestOf, List.append_eq_cons_iff] at hsome
    rcases hsome with ⟨hnil, -⟩ | ⟨second, hsome, -⟩
    · exact hrest hnil
    · exact hcomma ⟨second, hsome⟩

end Append

/-! ### Tails that make a difference -/

theorem exists_digit_of_not_saturated {text : Bytes} (hrest : restOf text = [])
    (hdigits : digitsOf text ≠ []) (hnot : ¬ Saturated text) :
    ∃ digit, isDigit digit = true ∧ numberOf (text ++ [digit]) ≠ numberOf text := by
  have hnumber : ∀ digit, isDigit digit = true → numberOf (text ++ [digit]) =
      UInt32.ofNat (strtoul (signOf text) (digitsOf text ++ [digit])) := by
    intro digit hdigit
    rw [numberOf_append_of_open hrest hdigits, List.takeWhile_cons_of_pos hdigit,
      List.takeWhile_nil]
  have hzero : digitsValue (digitsOf text ++ [48]) = 10 * digitsValue (digitsOf text) :=
    digitsValue_concat _ 48
  have hone : digitsValue (digitsOf text ++ [49]) = 10 * digitsValue (digitsOf text) + 1 :=
    digitsValue_concat _ 49
  by_cases hlarge : 2 ^ 64 ≤ 10 * digitsValue (digitsOf text)
  · refine ⟨48, by decide, fun hsame => hnot ⟨hlarge, ?_⟩⟩
    rw [← hsame, hnumber 48 (by decide), strtoul, hzero, if_pos hlarge]
  · -- two digits that lead to different numbers cannot both leave it as it was
    by_contra hnone
    have hall : ∀ digit, isDigit digit = true → numberOf (text ++ [digit]) = numberOf text :=
      fun digit hdigit => not_not.mp fun hne => hnone ⟨digit, hdigit, hne⟩
    have hsame := (hall 48 (by decide)).trans (hall 49 (by decide)).symm
    have hsmall : ¬ 2 ^ 64 ≤ 10 * digitsValue (digitsOf text) + 1 := by omega
    rw [hnumber 48 (by decide), hnumber 49 (by decide), ← UInt32.toNat_inj, UInt32.toNat_ofNat',
      UInt32.toNat_ofNat', strtoul, strtoul, hzero, hone, if_neg hlarge, if_neg hsmall] at hsame
    cases hsign : signOf text with
    | false =>
        simp only [hsign, Bool.false_eq_true, if_false] at hsame
        omega
    | true =>
        simp only [hsign, if_true] at hsame
        omega

/-- A comma and a number behind a text that is read to its end, with a digit between if it has
none. -/
theorem scanSeekto_append_comma_ne_none {text second : Bytes} (hrest : restOf text = [])
    (hsecond : digitsOf second ≠ []) :
    scanSeekto (text ++ ((if digitsOf text = [] then [49] else []) ++ 44 :: second)) ≠ none := by
  have hone : isDigit 49 = true := by decide
  by_cases hdigits : digitsOf text = []
  · have hrest' : restOf (text ++ 49 :: 44 :: second) = 44 :: second :=
      restOf_append_of_open hrest (Or.inr (bare_of_isDigit hone _))
    rw [if_pos hdigits, List.singleton_append,
      scanSeekto_of_comma (digitsOf_append_digit_ne_nil hrest hone _) hrest', if_neg hsecond]
    simp
  · have hrest' : restOf (text ++ 44 :: second) = 44 :: second :=
      restOf_append_of_open hrest (Or.inl hdigits)
    rw [if_neg hdigits, List.nil_append,
      scanSeekto_of_comma (digitsOf_append_ne_nil hrest hdigits _) hrest', if_neg hsecond]
    simp

theorem length_filler (text : Bytes) :
    (if digitsOf text = [] then [49] else ([] : Bytes)).length + 2 = missing text := by
  unfold missing
  split
  · rfl
  · rfl

theorem FirstOpen.exists_tail {text behind : Bytes} {room : Nat} (h : FirstOpen text room behind) :
    ∃ tail : Bytes, tail.length = room ∧
      scanSeekto (text ++ tail ++ behind) ≠ scanSeekto text := by
  obtain ⟨hrest, hroom, hways⟩ := h
  have hbare : scanSeekto text = none := by
    apply scanSeekto_eq_none
    simp [hrest]
  have hlength := length_filler text
  rw [hbare]
  by_cases hfits : missing text ≤ room
  · have hempty : restOf [] = [] := rfl
    have hsecond : digitsOf (49 :: (List.replicate (room - missing text) 0 ++ behind)) ≠ [] :=
      digitsOf_append_digit_ne_nil hempty (by decide) _
    refine ⟨(if digitsOf text = [] then [49] else []) ++
      44 :: 49 :: List.replicate (room - missing text) 0, ?_, ?_⟩
    · simp only [List.length_append, List.length_cons, List.length_replicate]
      omega
    · simpa only [List.append_assoc, List.cons_append] using
        scanSeekto_append_comma_ne_none hrest hsecond
  rcases hways with hfits' | ⟨hfits', hsecond⟩ | ⟨second, hcomma, hsecond⟩ | ⟨hspaces, hbehind⟩
  · exact absurd hfits' hfits
  · refine ⟨(if digitsOf text = [] then [49] else []) ++ [44], ?_, ?_⟩
    · simp only [List.length_append, List.length_cons, List.length_nil]
      omega
    · simpa only [List.append_assoc, List.cons_append, List.nil_append] using
        scanSeekto_append_comma_ne_none hrest hsecond
  · -- the first number goes on to the comma
    obtain ⟨count, rfl⟩ := Nat.exists_eq_succ_of_ne_zero hroom.ne'
    have hdigits : ∀ byte ∈ List.replicate (count + 1) (49 : Byte), isDigit byte = true := by
      intro byte hbyte
      rw [List.eq_of_mem_replicate hbyte]
      decide
    have hbare' : Bare (List.replicate (count + 1) 49) := bare_of_isDigit (by decide) _
    have hsome : digitsOf (text ++ List.replicate (count + 1) 49) ≠ [] :=
      digitsOf_append_digit_ne_nil hrest (by decide) _
    have hend : restOf (text ++ List.replicate (count + 1) 49) = [] := by
      rw [restOf_append_of_open hrest (Or.inr hbare'), List.dropWhile_eq_nil_iff]
      exact hdigits
    have hrest' : restOf (text ++ List.replicate (count + 1) 49 ++ behind) = 44 :: second := by
      rw [restOf_append_of_open hend (Or.inl hsome), hcomma]
    refine ⟨List.replicate (count + 1) 49, List.length_replicate, ?_⟩
    rw [scanSeekto_of_comma (digitsOf_append_ne_nil hend hsome _) hrest', if_neg hsecond]
    simp
  · refine ⟨List.replicate room 32, List.length_replicate, ?_⟩
    rw [scanSeekto_append_of_spaces ?_]
    · exact hbehind
    · rw [List.dropWhile_eq_nil_iff]
      intro byte hbyte
      rcases List.mem_append.mp hbyte with htext | hspace
      · exact List.dropWhile_eq_nil_iff.mp hspaces byte htext
      · rw [List.eq_of_mem_replicate hspace]
        decide

/-- Bytes that change the second number, or make one of nothing. -/
theorem SecondOpen.exists_tail {second behind : Bytes} {room : Nat}
    (h : SecondOpen second room behind) :
    ∃ tail : Bytes, tail.length = room ∧ digitsOf (second ++ (tail ++ behind)) ≠ [] ∧
      (digitsOf second ≠ [] → numberOf (second ++ (tail ++ behind)) ≠ numberOf second) := by
  obtain ⟨hrest, hroom, hopen⟩ := h
  obtain ⟨count, rfl⟩ := Nat.exists_eq_succ_of_ne_zero hroom.ne'
  have hlength : ∀ digit : Byte, (digit :: List.replicate count 0).length = count + 1 := by
    simp
  by_cases hdigits : digitsOf second = []
  · exact ⟨49 :: List.replicate count 0, hlength 49,
      digitsOf_append_digit_ne_nil hrest (by decide) _, fun hne => absurd hdigits hne⟩
  rcases hopen.resolve_left hdigits with ⟨hlong, hnot⟩ | ⟨hlast, digit, -, hchanged⟩
  · obtain ⟨digit, hdigit, hchanged⟩ := exists_digit_of_not_saturated hrest hdigits hnot
    refine ⟨digit :: List.replicate count 0, hlength digit,
      digitsOf_append_ne_nil hrest hdigits _, fun _ => ?_⟩
    -- the zero byte behind the digit ends the number
    obtain ⟨more, rfl⟩ := Nat.exists_eq_succ_of_ne_zero (by omega : count ≠ 0)
    rw [numberOf_append_of_open hrest hdigits] at hchanged ⊢
    rwa [List.cons_append, List.takeWhile_cons_of_pos hdigit, List.replicate_succ,
      List.cons_append, List.takeWhile_cons_of_neg (by decide),
      ← List.takeWhile_nil (p := isDigit), ← List.takeWhile_cons_of_pos hdigit]
  · obtain rfl : count = 0 := by omega
    exact ⟨[digit], rfl, digitsOf_append_ne_nil hrest hdigits _, fun _ => hchanged⟩

theorem LeftOpen.exists_tail {text behind : Bytes} {room : Nat} (h : LeftOpen text room behind) :
    ∃ tail : Bytes, tail.length = room ∧
      scanSeekto (text ++ tail ++ behind) ≠ scanSeekto text := by
  rcases h with hfirst | ⟨second, hdigits, hcomma, hopen⟩
  · exact hfirst.exists_tail
  have hstops : restOf text ≠ [] := by simp [hcomma]
  obtain ⟨tail, hlength, hsome, hchanged⟩ := hopen.exists_tail
  have hdigits' : digitsOf (text ++ (tail ++ behind)) ≠ [] := by
    rw [digitsOf_append_of_stops hstops]
    exact hdigits
  have hcomma' : restOf (text ++ (tail ++ behind)) = 44 :: (second ++ (tail ++ behind)) := by
    rw [restOf_append_of_stops hstops, hcomma, List.cons_append]
  refine ⟨tail, hlength, ?_⟩
  rw [List.append_assoc, scanSeekto_of_comma hdigits hcomma, scanSeekto_of_comma hdigits' hcomma',
    if_neg hsome]
  by_cases hnone : digitsOf second = []
  · simp [hnone]
  · simp [hnone, hchanged hnone]

/-! ### All chunks -/

theorem isSeekCommand_iff_begins (buffer : Bytes) :
    IsSeekCommand buffer ↔ ioctlPrefix <+: buffer := by
  rw [List.prefix_iff_eq_take, eq_comm]
  exact Iff.rfl

/-- Whether a chunk is a command is left open by the proper beginnings of the prefix only. -/
theorem isSeekCommand_overlay_iff {chunk : Bytes}
    (hdecided : ¬ (chunk.length < ioctlPrefixLen ∧ chunk <+: ioctlPrefix)) (left : Bytes) :
    IsSeekCommand (overlay left chunk) ↔ ioctlPrefix <+: chunk := by
  rw [isSeekCommand_iff_begins, overlay]
  constructor
  · intro hbegins
    have hchunk : chunk <+: chunk ++ left.drop chunk.length := List.prefix_append _ _
    by_cases hshort : chunk.length < ioctlPrefixLen
    · exact absurd ⟨hshort, List.prefix_of_prefix_length_le hchunk hbegins hshort.le⟩ hdecided
    · exact List.prefix_of_prefix_length_le hbegins hchunk (Nat.not_lt.mp hshort)
  · exact fun hbegins => hbegins.trans (List.prefix_append _ _)

/-- A buffer with the tail behind the chunk and zero bytes elsewhere. -/
def leftover (chunk tail : Bytes) : Bytes :=
  List.replicate chunk.length 0 ++ tail ++
    List.replicate (bufferSize - chunk.length - tail.length) 0

theorem length_leftover {chunk tail : Bytes} (hle : chunk.length + tail.length ≤ bufferSize) :
    (leftover chunk tail).length = bufferSize := by
  simp only [leftover, List.length_append, List.length_replicate]
  omega

theorem drop_leftover (chunk tail behind : Bytes) :
    (leftover chunk tail ++ behind).drop chunk.length =
      tail ++ (List.replicate (bufferSize - chunk.length - tail.length) 0 ++ behind) := by
  have hlength : (List.replicate chunk.length (0 : Byte)).length = chunk.length :=
    List.length_replicate
  rw [leftover, List.append_assoc, List.append_assoc]
  nth_rewrite 1 [← hlength]
  exact List.drop_left

/-- Behind a beginning of the prefix the rest of it makes a command, and zero bytes do not. -/
theorem not_actsAlike_of_prefix (env : ClientEnv) (state : ClientState) {chunk rest : Bytes}
    (behind : Bytes) (hbegins : chunk ++ rest = ioctlPrefix) (hne : rest ≠ []) :
    ¬ ActsAlike env state chunk (leftover chunk rest ++ behind) (leftover chunk [] ++ behind) := by
  intro halike
  have hcommand : IsSeekCommand (overlay (leftover chunk rest ++ behind) chunk) := by
    rw [isSeekCommand_iff_begins, overlay, drop_leftover, ← List.append_assoc, hbegins]
    exact List.prefix_append _ _
  have hzeros := (isSeekCommand_iff_begins _).mp (halike.decision.mp hcommand)
  rw [overlay, drop_leftover, List.nil_append, ← hbegins, List.prefix_append_right_inj] at hzeros
  have hroom : rest.length ≤ bufferSize - chunk.length - ([] : Bytes).length := by
    have hlength := congrArg List.length hbegins
    have hbuffer : ioctlPrefix.length ≤ bufferSize := by decide
    rw [List.length_append] at hlength
    rw [List.length_nil]
    omega
  have hzeros' := List.prefix_of_prefix_length_le hzeros (List.prefix_append _ behind)
    (by rw [List.length_replicate]; exact hroom)
  obtain ⟨byte, rest', rfl⟩ := List.exists_cons_of_ne_nil hne
  have hbyte : byte = 0 := List.eq_of_mem_replicate (hzeros'.subset List.mem_cons_self)
  have hmem : byte ∈ ioctlPrefix := by simp [← hbegins]
  rw [hbyte] at hmem
  exact absurd hmem (by decide)

/-- A zero byte ends the numbers. -/
theorem scanSeekto_append_zero (text behind : Bytes) :
    scanSeekto (text ++ 0 :: behind) = scanSeekto text := by
  have hstring : cString (text ++ 0 :: behind) = cString (text ++ List.replicate 1 0) := by
    rw [cString, cString, List.takeWhile_append, List.takeWhile_append]
    rfl
  rw [← scanSeekto_cString, hstring, scanSeekto_cString, scanSeekto_append_zeros]

/-- Behind an open text the tail that makes a difference changes the numbers. -/
theorem not_actsAlike_of_scan (env : ClientEnv) (state : ClientState) {text tail behind : Bytes}
    (hroom : 0 < bufferSize - (ioctlPrefix ++ text).length)
    (hlength : tail.length = bufferSize - (ioctlPrefix ++ text).length)
    (htail : scanSeekto (text ++ tail ++ behind) ≠ scanSeekto text) :
    ¬ ActsAlike env state (ioctlPrefix ++ text) (leftover (ioctlPrefix ++ text) tail ++ behind)
      (leftover (ioctlPrefix ++ text) [] ++ behind) := by
  intro halike
  have hscan := halike.seekto (isSeekCommand_overlay _ _)
  obtain ⟨count, hcount⟩ := Nat.exists_eq_succ_of_ne_zero hroom.ne'
  rw [drop_overlay_ioctlPrefix, drop_overlay_ioctlPrefix, drop_leftover, drop_leftover,
    scanSeekto_cString, scanSeekto_cString, hlength, Nat.sub_self, List.replicate_zero,
    List.nil_append, List.nil_append, List.length_nil, Nat.sub_zero, hcount, List.replicate_succ,
    List.cons_append, scanSeekto_append_zero, ← List.append_assoc] at hscan
  exact htail hscan

theorem LeftOpen.pos {text behind : Bytes} {room : Nat} (h : LeftOpen text room behind) :
    0 < room := by
  rcases h with hfirst | ⟨_, -, -, hsecond⟩
  · exact hfirst.2.1
  · exact hsecond.2.1

/-- What is scanned behind a whole prefix, if the chunk is not undecided. -/
theorem scanSeekto_of_decided {text left behind : Bytes} (hleft : left.length = bufferSize)
    (hclosed : ¬ LeftOpen text (bufferSize - (ioctlPrefix ++ text).length) behind) :
    scanSeekto (cString ((overlay (left ++ behind) (ioctlPrefix ++ text)).drop ioctlPrefixLen)) =
      if (ioctlPrefix ++ text).length < bufferSize then scanSeekto text
      else scanSeekto (text ++ behind.drop ((ioctlPrefix ++ text).length - bufferSize)) := by
  have hlength : (left.drop (ioctlPrefix ++ text).length).length =
      bufferSize - (ioctlPrefix ++ text).length := by
    rw [List.length_drop, hleft]
  rw [drop_overlay_ioctlPrefix, scanSeekto_cString, List.drop_append, hleft]
  split
  · rename_i hroom
    rw [Nat.sub_eq_zero_of_le hroom.le, List.drop_zero, ← List.append_assoc]
    apply scanSeekto_append
    · rw [← List.length_pos_iff, hlength]
      exact Nat.sub_pos_of_lt hroom
    · rw [hlength]
      exact hclosed
  · rename_i hfull
    rw [List.drop_eq_nil_of_le (by rw [hleft]; exact Nat.not_lt.mp hfull), List.nil_append]

/-- **A chunk is acted upon in the same way whatever the rest of the buffer holds exactly when it
is not undecided**: when it does not end inside the prefix, nor where a number could go on. The
bytes behind the buffer are the same in both turns, and `sscanf` may read them. -/
theorem acts_on_received_iff (env : ClientEnv) (state : ClientState) (chunk behind : Bytes) :
    (∀ left₁ left₂ : Bytes, left₁.length = bufferSize → left₂.length = bufferSize →
        ActsAlike env state chunk (left₁ ++ behind) (left₂ ++ behind)) ↔
      ¬ Undecided chunk behind := by
  constructor
  · rintro halike (⟨hshort, rest, hbegins⟩ | ⟨⟨text, rfl⟩, hopen⟩)
    · have hlength := congrArg List.length hbegins
      rw [List.length_append] at hlength
      change _ = ioctlPrefixLen at hlength
      have hbuffer : ioctlPrefixLen ≤ bufferSize := by decide
      refine not_actsAlike_of_prefix env state behind hbegins ?_ (halike _ _ (length_leftover ?_)
        (length_leftover ?_))
      · rintro rfl
        rw [List.length_nil] at hlength
        omega
      · exact hlength.le.trans hbuffer
      · rw [List.length_nil]
        omega
    · have hroom := hopen.pos
      obtain ⟨tail, hlength, htail⟩ := hopen.exists_tail
      rw [drop_ioctlPrefix] at htail
      refine not_actsAlike_of_scan env state hroom hlength htail (halike _ _ (length_leftover ?_)
        (length_leftover ?_))
      · omega
      · rw [List.length_nil]
        omega
  · intro hdecided left₁ left₂ hleft₁ hleft₂
    obtain ⟨hbegins, hclosed⟩ := not_or.mp hdecided
    rw [actsAlike_iff, isSeekCommand_overlay_iff hbegins, isSeekCommand_overlay_iff hbegins]
    refine ⟨Iff.rfl, ?_⟩
    rintro ⟨text, rfl⟩
    rw [drop_ioctlPrefix] at hclosed
    have hopen : ¬ LeftOpen text (bufferSize - (ioctlPrefix ++ text).length) behind :=
      fun hopen => hclosed ⟨List.prefix_append _ _, hopen⟩
    rw [scanSeekto_of_decided hleft₁ hopen, scanSeekto_of_decided hleft₂ hopen]

/-- The byte `A` is a seek command where an earlier chunk has left the rest of one behind it, and
data where the buffer is clear. -/
theorem not_actsAlike_first_byte :
    let kernel := ((System.init ⟨2 ^ 22, by decide, fun _ => 0⟩).run [plainWrite 0 [97, 10]]).kernel
    let state : ClientState := ⟨kernel, 0, [], [], 0⟩
    let left := leftover [65] (ioctlPrefix.tail ++ [48, 44, 48])
    let clear := leftover [65] []
    left.length = bufferSize ∧ clear.length = bufferSize ∧
      IsSeekCommand (overlay (left ++ [0]) [65]) ∧ ¬ IsSeekCommand (overlay (clear ++ [0]) [65]) ∧
      ¬ ActsAlike smoothEnv state [65] (left ++ [0]) (clear ++ [0]) := by
  intro kernel state left clear
  have hseek : IsSeekCommand (overlay (left ++ [0]) [65]) := by decide
  have hdata : ¬ IsSeekCommand (overlay (clear ++ [0]) [65]) := by decide
  exact ⟨length_leftover (by decide), length_leftover (by decide), hseek, hdata,
    fun halike => hdata (halike.decision.mp hseek)⟩

end AesdChar
