import AesdChar.Server
import Mathlib.Data.List.TakeWhile

/-!
# What sscanf reads of its input

A conversion looks at white space, a sign and digits, in this order, and stops at the first byte
that is neither. What it makes of an input is therefore settled by any beginning of the input that
it does not read to the end; of one that it does read to the end it can go on behind it.
-/

namespace AesdChar

open Lib

/-- The sign and what follows it. -/
def unsignedText (input : Bytes) : Bool × Bytes := scanSign (input.dropWhile isSpace)

def signOf (input : Bytes) : Bool := (unsignedText input).1

def digitsOf (input : Bytes) : Bytes := (unsignedText input).2.takeWhile isDigit

/-- Where the conversion stops. -/
def restOf (input : Bytes) : Bytes := (unsignedText input).2.dropWhile isDigit

theorem scanUnsigned_eq (input : Bytes) :
    scanUnsigned input =
      if digitsOf input = [] then none
      else some (UInt32.ofNat (strtoul (signOf input) (digitsOf input)), restOf input) := rfl

/-- The input does not begin with anything that a conversion skips. -/
def Bare (input : Bytes) : Prop :=
  ∀ byte ∈ input.head?, isSpace byte = false ∧ byte ≠ 45 ∧ byte ≠ 43

theorem bare_nil : Bare [] := by simp [Bare]

theorem bare_cons {byte : Byte} {rest : Bytes} :
    Bare (byte :: rest) ↔ isSpace byte = false ∧ byte ≠ 45 ∧ byte ≠ 43 := by
  simp [Bare]

/-! ### One conversion -/

theorem scanSign_append {text : Bytes} (hne : text ≠ []) (tail : Bytes) :
    scanSign (text ++ tail) = ((scanSign text).1, (scanSign text).2 ++ tail) := by
  obtain ⟨byte, rest, rfl⟩ := List.exists_cons_of_ne_nil hne
  rw [List.cons_append]
  unfold scanSign
  split
  · rename_i heq
    obtain ⟨rfl, rfl⟩ := List.cons.inj heq
    rfl
  · rename_i heq
    obtain ⟨rfl, rfl⟩ := List.cons.inj heq
    rfl
  · rename_i hminus hplus
    have hminus' : byte ≠ 45 := fun h => hminus _ (by rw [h])
    have hplus' : byte ≠ 43 := fun h => hplus _ (by rw [h])
    split
    · rename_i heq
      exact absurd (List.cons.inj heq).1 hminus'
    · rename_i heq
      exact absurd (List.cons.inj heq).1 hplus'
    · rfl

theorem scanSign_of_bare {text : Bytes} (hbare : Bare text) : scanSign text = (false, text) := by
  unfold scanSign
  split
  · exact absurd rfl (bare_cons.mp hbare).2.1
  · exact absurd rfl (bare_cons.mp hbare).2.2
  · rfl

theorem length_scanSign_le (text : Bytes) : (scanSign text).2.length ≤ text.length := by
  unfold scanSign
  split
  · exact Nat.le_succ _
  · exact Nat.le_succ _
  · exact le_rfl

theorem dropWhile_isSpace_of_bare {text : Bytes} (hbare : Bare text) :
    text.dropWhile isSpace = text := by
  cases text with
  | nil => rfl
  | cons byte rest => rw [List.dropWhile_cons_of_neg (by simp [(bare_cons.mp hbare).1])]

/-- Behind white space and a sign, or if it begins with neither, a tail changes nothing. -/
theorem unsignedText_append {text tail : Bytes} (h : text.dropWhile isSpace ≠ [] ∨ Bare tail) :
    unsignedText (text ++ tail) = ((unsignedText text).1, (unsignedText text).2 ++ tail) := by
  unfold unsignedText
  rw [List.dropWhile_append]
  by_cases hspaces : text.dropWhile isSpace = []
  · have hbare := h.resolve_left (not_not.mpr hspaces)
    rw [hspaces, List.isEmpty_nil, if_pos rfl, dropWhile_isSpace_of_bare hbare,
      scanSign_of_bare hbare, scanSign_of_bare bare_nil, List.nil_append]
  · rw [if_neg (by rw [List.isEmpty_iff]; exact hspaces), scanSign_append hspaces]

theorem length_unsignedText_append_le (text tail : Bytes) :
    (unsignedText (text ++ tail)).2.length ≤ (unsignedText text).2.length + tail.length := by
  by_cases hspaces : text.dropWhile isSpace = []
  · have hdrop : (text ++ tail).dropWhile isSpace = tail.dropWhile isSpace := by
      rw [List.dropWhile_append, hspaces, List.isEmpty_nil, if_pos rfl]
    rw [unsignedText, hdrop]
    calc
      (scanSign (tail.dropWhile isSpace)).2.length ≤ (tail.dropWhile isSpace).length :=
        length_scanSign_le _
      _ ≤ tail.length := (List.dropWhile_suffix _).length_le
      _ ≤ (unsignedText text).2.length + tail.length := Nat.le_add_left _ _
  · rw [unsignedText_append (Or.inl hspaces), List.length_append]

theorem digitsOf_append_restOf (input : Bytes) :
    digitsOf input ++ restOf input = (unsignedText input).2 := List.takeWhile_append_dropWhile

theorem isDigit_of_mem_digitsOf {input : Bytes} {byte : Byte} (h : byte ∈ digitsOf input) :
    isDigit byte = true := List.mem_takeWhile_imp h

section Append

variable {text : Bytes}

/-- Where a conversion stops inside the text, the tail is not looked at. -/
theorem unsignedText_append_of_stops (hrest : restOf text ≠ []) (tail : Bytes) :
    unsignedText (text ++ tail) = ((unsignedText text).1, (unsignedText text).2 ++ tail) := by
  apply unsignedText_append
  refine Or.inl fun hspaces => hrest ?_
  rw [restOf, unsignedText, hspaces]
  rfl

theorem signOf_append_of_stops (hrest : restOf text ≠ []) (tail : Bytes) :
    signOf (text ++ tail) = signOf text := by
  rw [signOf, unsignedText_append_of_stops hrest, signOf]

theorem digitsOf_append_of_stops (hrest : restOf text ≠ []) (tail : Bytes) :
    digitsOf (text ++ tail) = digitsOf text := by
  have hshort : ((unsignedText text).2.takeWhile isDigit).length ≠
      (unsignedText text).2.length := by
    intro hlength
    have hsplit := congrArg List.length (digitsOf_append_restOf text)
    rw [List.length_append, digitsOf, hlength] at hsplit
    exact hrest (List.length_eq_zero_iff.mp (by omega))
  rw [digitsOf, unsignedText_append_of_stops hrest, List.takeWhile_append, if_neg hshort, digitsOf]

theorem restOf_append_of_stops (hrest : restOf text ≠ []) (tail : Bytes) :
    restOf (text ++ tail) = restOf text ++ tail := by
  rw [restOf, unsignedText_append_of_stops hrest, List.dropWhile_append,
    if_neg (by rw [List.isEmpty_iff]; exact hrest), restOf]

/-- A text that is read to its end ends with the digits. -/
theorem unsignedText_of_restOf_eq_nil (hrest : restOf text = []) :
    (unsignedText text).2 = digitsOf text := by
  rw [← digitsOf_append_restOf, hrest, List.append_nil]

theorem unsignedText_append_of_open {tail : Bytes} (hrest : restOf text = [])
    (h : digitsOf text ≠ [] ∨ Bare tail) :
    unsignedText (text ++ tail) = (signOf text, digitsOf text ++ tail) := by
  rw [unsignedText_append, unsignedText_of_restOf_eq_nil hrest, signOf]
  refine h.imp_left fun hdigits hspaces => hdigits ?_
  rw [digitsOf, unsignedText, hspaces]
  rfl

theorem digitsOf_append_of_open {tail : Bytes} (hrest : restOf text = [])
    (h : digitsOf text ≠ [] ∨ Bare tail) :
    digitsOf (text ++ tail) = digitsOf text ++ tail.takeWhile isDigit := by
  rw [digitsOf, unsignedText_append_of_open hrest h,
    List.takeWhile_append_of_pos fun _ => isDigit_of_mem_digitsOf]

theorem restOf_append_of_open {tail : Bytes} (hrest : restOf text = [])
    (h : digitsOf text ≠ [] ∨ Bare tail) :
    restOf (text ++ tail) = tail.dropWhile isDigit := by
  rw [restOf, unsignedText_append_of_open hrest h,
    List.dropWhile_append_of_pos fun _ => isDigit_of_mem_digitsOf]

end Append

/-! ### The number -/

/-- The number that a conversion stores. -/
def numberOf (input : Bytes) : UInt32 := UInt32.ofNat (strtoul (signOf input) (digitsOf input))

section Number

variable {text tail : Bytes}

theorem numberOf_append_of_stops (hrest : restOf text ≠ []) :
    numberOf (text ++ tail) = numberOf text := by
  rw [numberOf, signOf_append_of_stops hrest, digitsOf_append_of_stops hrest, numberOf]

theorem numberOf_append_of_open (hrest : restOf text = []) (hdigits : digitsOf text ≠ []) :
    numberOf (text ++ tail) =
      UInt32.ofNat (strtoul (signOf text) (digitsOf text ++ tail.takeWhile isDigit)) := by
  rw [numberOf, digitsOf_append_of_open hrest (Or.inl hdigits), signOf,
    unsignedText_append_of_open hrest (Or.inl hdigits)]

end Number

theorem digitsValue_append (digits more : Bytes) :
    digitsValue (digits ++ more) = digitsValue digits * 10 ^ more.length + digitsValue more := by
  have hfold : ∀ (start : Nat) (l : Bytes),
      l.foldl (fun value digit => 10 * value + (digit.toNat - 48)) start =
        start * 10 ^ l.length + digitsValue l := by
    intro start l
    induction l generalizing start with
    | nil => simp [digitsValue]
    | cons digit l ih =>
        rw [digitsValue, List.foldl_cons, List.foldl_cons, ih, ih, List.length_cons]
        ring
  rw [digitsValue, List.foldl_append]
  exact hfold _ more

theorem digitsValue_concat (digits : Bytes) (digit : Byte) :
    digitsValue (digits ++ [digit]) = 10 * digitsValue digits + (digit.toNat - 48) := by
  rw [digitsValue, List.foldl_concat]
  rfl

theorem le_digitsValue_append (digits : Bytes) {more : Bytes} (hne : more ≠ []) :
    10 * digitsValue digits ≤ digitsValue (digits ++ more) := by
  have hpow : 10 ^ 1 ≤ 10 ^ more.length :=
    Nat.pow_le_pow_right (by decide) (List.length_pos_iff.mpr hne)
  calc
    10 * digitsValue digits = digitsValue digits * 10 ^ 1 := by ring
    _ ≤ digitsValue digits * 10 ^ more.length := Nat.mul_le_mul_left _ hpow
    _ ≤ digitsValue (digits ++ more) := by
      rw [digitsValue_append]
      exact Nat.le_add_right _ _

/-! ### Both conversions -/

theorem scanSeekto_of_comma {input second : Bytes} (hdigits : digitsOf input ≠ [])
    (hrest : restOf input = 44 :: second) :
    scanSeekto input =
      if digitsOf second = [] then none else some ⟨numberOf input, numberOf second⟩ := by
  have hfirst : scanUnsigned input = some (numberOf input, 44 :: second) := by
    rw [scanUnsigned_eq, if_neg hdigits, hrest, numberOf]
  rw [scanSeekto, hfirst]
  change (scanUnsigned second).map _ = _
  rw [scanUnsigned_eq]
  split
  · rfl
  · rfl

theorem scanSeekto_eq_none {input : Bytes}
    (h : digitsOf input = [] ∨ ∀ second, restOf input ≠ 44 :: second) :
    scanSeekto input = none := by
  unfold scanSeekto
  rw [scanUnsigned_eq]
  split
  · rename_i second hfirst
    rw [Option.ite_none_left_eq_some] at hfirst
    obtain ⟨hdigits, hsome⟩ := hfirst
    exact absurd (Prod.ext_iff.mp (Option.some.inj hsome)).2 (h.resolve_left hdigits second)
  · rfl

/-! ### Numerals -/

/-- A natural number as it is written in decimal. -/
structure IsNumeral (digits : Bytes) : Prop where
  ne_nil : digits ≠ []
  all_digits : ∀ byte ∈ digits, isDigit byte = true

theorem bare_of_isDigit {byte : Byte} (hdigit : isDigit byte = true) (rest : Bytes) :
    Bare (byte :: rest) := by
  rw [bare_cons]
  simp only [isDigit, isSpace, Bool.and_eq_true, decide_eq_true_eq, Bool.or_eq_false_iff,
    Bool.and_eq_false_iff, decide_eq_false_iff_not, UInt8.le_iff_toNat_le, ne_eq,
    ← UInt8.toNat_inj, UInt8.toNat_ofNat] at hdigit ⊢
  omega

theorem digitsOf_append_ne_nil {text : Bytes} (hrest : restOf text = [])
    (hdigits : digitsOf text ≠ []) (tail : Bytes) : digitsOf (text ++ tail) ≠ [] := by
  rw [digitsOf_append_of_open hrest (Or.inl hdigits)]
  exact List.append_ne_nil_of_left_ne_nil hdigits _

theorem digitsOf_append_digit_ne_nil {text : Bytes} (hrest : restOf text = []) {digit : Byte}
    (hdigit : isDigit digit = true) (tail : Bytes) : digitsOf (text ++ digit :: tail) ≠ [] := by
  rw [digitsOf_append_of_open hrest (Or.inr (bare_of_isDigit hdigit tail)),
    List.takeWhile_cons_of_pos hdigit]
  exact List.append_ne_nil_of_right_ne_nil _ (List.cons_ne_nil _ _)

section Numeral

variable {digits : Bytes} (h : IsNumeral digits)
include h

theorem IsNumeral.unsignedText_eq : unsignedText digits = (false, digits) := by
  obtain ⟨byte, rest, rfl⟩ := List.exists_cons_of_ne_nil h.ne_nil
  have hbare := bare_of_isDigit (h.all_digits byte List.mem_cons_self) rest
  rw [unsignedText, dropWhile_isSpace_of_bare hbare, scanSign_of_bare hbare]

theorem IsNumeral.digitsOf_eq : digitsOf digits = digits := by
  rw [digitsOf, h.unsignedText_eq, List.takeWhile_eq_self_iff]
  exact h.all_digits

theorem IsNumeral.restOf_eq : restOf digits = [] := by
  rw [restOf, h.unsignedText_eq, List.dropWhile_eq_nil_iff]
  exact h.all_digits

/-- A numeral is read to its end and no further. -/
theorem IsNumeral.scan_append {byte : Byte} (hbyte : isDigit byte = false) (rest : Bytes) :
    signOf (digits ++ byte :: rest) = false ∧ digitsOf (digits ++ byte :: rest) = digits ∧
      restOf (digits ++ byte :: rest) = byte :: rest := by
  have hdigits : digitsOf digits ≠ [] := by
    rw [h.digitsOf_eq]
    exact h.ne_nil
  refine ⟨?_, ?_, ?_⟩
  · rw [signOf, unsignedText_append_of_open h.restOf_eq (Or.inl hdigits), signOf,
      h.unsignedText_eq]
  · rw [digitsOf_append_of_open h.restOf_eq (Or.inl hdigits), h.digitsOf_eq,
      List.takeWhile_cons_of_neg (by simp [hbyte]), List.append_nil]
  · rw [restOf_append_of_open h.restOf_eq (Or.inl hdigits),
      List.dropWhile_cons_of_neg (by simp [hbyte])]

end Numeral

/-! ### The end of the string

No conversion reads over a zero byte, so it does not matter that the string ends there. -/

theorem cString_cons {byte : Byte} (hne : byte ≠ 0) (rest : Bytes) :
    cString (byte :: rest) = byte :: cString rest :=
  List.takeWhile_cons_of_pos (by simp [hne])

theorem cString_append {text : Bytes} (hzero : 0 ∉ text) (tail : Bytes) :
    cString (text ++ tail) = text ++ cString tail := by
  apply List.takeWhile_append_of_pos
  intro byte hbyte
  have hne : byte ≠ 0 := fun h => hzero (h ▸ hbyte)
  simp [hne]

theorem dropWhile_cString {p : Byte → Bool} (hzero : p 0 = false) (input : Bytes) :
    (cString input).dropWhile p = cString (input.dropWhile p) := by
  induction input with
  | nil => rfl
  | cons byte rest ih =>
      by_cases hne : byte = 0
      · rw [hne, List.dropWhile_cons_of_neg (by simp [hzero])]
        rfl
      rw [cString_cons hne]
      by_cases hp : p byte = true
      · rw [List.dropWhile_cons_of_pos hp, List.dropWhile_cons_of_pos hp, ih]
      · rw [List.dropWhile_cons_of_neg hp, List.dropWhile_cons_of_neg hp, cString_cons hne]

theorem takeWhile_cString {p : Byte → Bool} (hzero : p 0 = false) (input : Bytes) :
    (cString input).takeWhile p = input.takeWhile p := by
  rw [cString, List.takeWhile_takeWhile]
  congr 1
  funext byte
  by_cases hbyte : byte = 0
  · simp [hbyte, hzero]
  · simp [hbyte]

theorem scanSign_cString (input : Bytes) :
    scanSign (cString input) = ((scanSign input).1, cString (scanSign input).2) := by
  cases input with
  | nil => rfl
  | cons byte rest =>
      by_cases hne : byte = 0
      · subst hne
        rfl
      have hsign := scanSign_append (List.cons_ne_nil byte []) rest
      have hsign' := scanSign_append (List.cons_ne_nil byte []) (cString rest)
      rw [List.singleton_append] at hsign hsign'
      have hzero : 0 ∉ (scanSign [byte]).2 := by
        intro hmem
        unfold scanSign at hmem
        split at hmem <;> simp_all
      rw [cString_cons hne, hsign', hsign, cString_append hzero]

theorem unsignedText_cString (input : Bytes) :
    unsignedText (cString input) = (signOf input, cString (unsignedText input).2) := by
  have hspace : isSpace 0 = false := by decide
  rw [unsignedText, dropWhile_cString hspace, scanSign_cString]
  rfl

theorem digitsOf_cString (input : Bytes) : digitsOf (cString input) = digitsOf input := by
  have hdigit : isDigit 0 = false := by decide
  rw [digitsOf, unsignedText_cString, takeWhile_cString hdigit, digitsOf]

theorem restOf_cString (input : Bytes) : restOf (cString input) = cString (restOf input) := by
  have hdigit : isDigit 0 = false := by decide
  rw [restOf, unsignedText_cString, dropWhile_cString hdigit, restOf]

theorem numberOf_cString (input : Bytes) : numberOf (cString input) = numberOf input := by
  have hsign : signOf (cString input) = signOf input := by
    rw [signOf, unsignedText_cString]
  rw [numberOf, hsign, digitsOf_cString, numberOf]

theorem scanSeekto_cString (input : Bytes) : scanSeekto (cString input) = scanSeekto input := by
  by_cases hdigits : digitsOf input = []
  · rw [scanSeekto_eq_none (Or.inl hdigits),
      scanSeekto_eq_none (Or.inl (by rw [digitsOf_cString, hdigits]))]
  by_cases hcomma : ∃ second, restOf input = 44 :: second
  · obtain ⟨second, hrest⟩ := hcomma
    have hrest' : restOf (cString input) = 44 :: cString second := by
      rw [restOf_cString, hrest, cString_cons (by decide)]
    rw [scanSeekto_of_comma hdigits hrest,
      scanSeekto_of_comma (by rw [digitsOf_cString]; exact hdigits) hrest', digitsOf_cString,
      numberOf_cString, numberOf_cString]
  · rw [scanSeekto_eq_none (Or.inr (not_exists.mp hcomma)), scanSeekto_eq_none]
    refine Or.inr fun second hrest => hcomma ?_
    rw [restOf_cString] at hrest
    obtain ⟨tail, hbegins⟩ := List.takeWhile_prefix (l := restOf input) (· ≠ (0 : Byte))
    change cString (restOf input) ++ tail = _ at hbegins
    rw [hrest, List.cons_append] at hbegins
    exact ⟨_, hbegins.symm⟩

/-- Zero bytes end the string. -/
theorem scanSeekto_append_zeros (text : Bytes) (count : Nat) :
    scanSeekto (text ++ List.replicate count 0) = scanSeekto text := by
  have hzeros : (List.replicate count (0 : Byte)).takeWhile (· ≠ 0) = [] := by
    cases count with
    | zero => rfl
    | succ count => exact List.takeWhile_cons_of_neg (by simp)
  have hstring : cString (text ++ List.replicate count 0) = cString text := by
    rw [cString, List.takeWhile_append, hzeros, List.append_nil, cString]
    split
    · rename_i hlength
      exact ((List.takeWhile_prefix _).eq_of_length hlength).symm
    · rfl
  rw [← scanSeekto_cString, hstring, scanSeekto_cString]

/-! ### The text of a command -/

theorem isSeekCommand_overlay (buffer text : Bytes) :
    IsSeekCommand (overlay buffer (ioctlPrefix ++ text)) := by
  have hlength : ioctlPrefix.length = ioctlPrefixLen := rfl
  rw [IsSeekCommand, overlay, List.append_assoc, ← hlength, List.take_left]

theorem drop_ioctlPrefix (text : Bytes) : (ioctlPrefix ++ text).drop ioctlPrefixLen = text := by
  have hlength : ioctlPrefix.length = ioctlPrefixLen := rfl
  rw [← hlength, List.drop_left]

/-- The text is followed by what was in the buffer behind it. -/
theorem drop_overlay_ioctlPrefix (buffer text : Bytes) :
    (overlay buffer (ioctlPrefix ++ text)).drop ioctlPrefixLen =
      text ++ buffer.drop (ioctlPrefix ++ text).length := by
  rw [overlay, List.append_assoc, drop_ioctlPrefix]

end AesdChar
