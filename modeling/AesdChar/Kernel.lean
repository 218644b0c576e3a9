import AesdChar.Lib.BlockHeap

/-!
# What the driver takes from C and from the kernel

LP64 integers, error numbers, and the memory functions, each with the environment's choice of its
outcome as an argument. Sizes are naturals and file positions integers; wherever the code's own type
could wrap, the wrap is written out.
-/

namespace AesdChar

abbrev Byte := UInt8

abbrev Bytes := List Byte

def newline : Byte := 10

/-! ### Integer types -/

def sizeT (x : Nat) : Nat := x % 2 ^ 64

/-- Subtraction in `size_t`. -/
def sizeTSub (x y : Nat) : Nat := (x + 2 ^ 64 - y) % 2 ^ 64

def sizeTOfInt (x : Int) : Nat := (x % 2 ^ 64).toNat

/-- Both `loff_t` and `ssize_t`. -/
def loffT (x : Int) : Int := x.bmod (2 ^ 64)

def u8 (x : Nat) : Nat := x % 2 ^ 8

theorem sizeT_of_lt {x : Nat} (hlt : x < 2 ^ 64) : sizeT x = x := Nat.mod_eq_of_lt hlt

theorem sizeTSub_of_le {x y : Nat} (hle : y ≤ x) (hlt : x < 2 ^ 64) : sizeTSub x y = x - y := by
  unfold sizeTSub
  omega

theorem sizeTOfInt_of_lt {x : Nat} (hlt : x < 2 ^ 64) : sizeTOfInt (x : Int) = x := by
  unfold sizeTOfInt
  omega

theorem loffT_of_lt {x : Int} (hlow : -2 ^ 63 ≤ x) (hhigh : x < 2 ^ 63) : loffT x = x := by
  unfold loffT
  rw [Int.bmod_def]
  split <;> omega

theorem loffT_natCast {x : Nat} (hlt : x < 2 ^ 63) : loffT (x : Int) = x :=
  loffT_of_lt (by omega) (by omega)

theorem loffT_natCast_add {x y : Nat} (hlt : x + y < 2 ^ 63) :
    loffT ((x : Int) + y) = ((x + y : Nat) : Int) := by
  rw [← Int.natCast_add, loffT_natCast hlt]

theorem u8_of_lt {x : Nat} (hlt : x < 2 ^ 8) : u8 x = x := Nat.mod_eq_of_lt hlt

/-! ### Error numbers -/

def EFAULT : Int := 14

def EINVAL : Int := 22

def ENOMEM : Int := 12

def ENOTTY : Int := 25

def ERESTARTSYS : Int := 512

/-! ### Memory -/

/-- The allocator's only promise besides handing out fresh blocks: `kmalloc` refuses requests above
`KMALLOC_MAX_SIZE`, which depends on the configuration and lies far below the 64-bit address space.
-/
structure KmallocConfig where
  maxSize : Nat
  maxSize_lt : maxSize < 2 ^ 59
  junk : Nat → Byte

abbrev Heap := Lib.BlockHeap Byte

abbrev Ptr := Nat

def kmalloc (heap : Heap) (ok : Bool) (size : Nat) : Option Ptr × Heap := heap.alloc ok size

def krealloc (heap : Heap) (outcome : Lib.ReallocOutcome) (old : Option Ptr) (size : Nat) :
    Option Ptr × Heap := heap.realloc outcome old size

def kfree (heap : Heap) : Option Ptr → Heap
  | none => heap
  | some block => heap.free block

def readBytes (heap : Heap) (src : Option Ptr) (offset length : Nat) : Bytes × Heap :=
  match src with
  | none => ([], heap.report (.nullAccess offset length))
  | some block => (heap.load block offset length, heap.check block offset length)

def memcpy (heap : Heap) (dst : Ptr) (dstOffset : Nat) (src : Option Ptr) (length : Nat) : Heap :=
  let (data, heap) := readBytes heap src 0 length
  heap.store dst dstOffset data

/-- The offset of the first occurrence of `byte` among the first `length` bytes of a block. -/
def memchr (heap : Heap) (src : Option Ptr) (byte : Byte) (length : Nat) : Option Nat × Heap :=
  let (data, heap) := readBytes heap src 0 length
  (data.findIdx? (· = byte), heap)

@[simp] theorem limit_kfree (heap : Heap) (block : Option Ptr) :
    (kfree heap block).limit = heap.limit := by
  cases block with
  | none => rfl
  | some block => exact heap.limit_free block

section Memory

variable {heap : Heap} {src dst : Ptr} {contents data : Bytes}

theorem readBytes_of_view (hview : heap.view src = some contents) {offset length : Nat}
    (hbound : offset + length ≤ contents.length) :
    readBytes heap (some src) offset length = ((contents.drop offset).take length, heap) := by
  rw [readBytes, heap.load_of_view hview, heap.check_of_view hview hbound]

theorem readBytes_all (hview : heap.view src = some contents) :
    readBytes heap (some src) 0 contents.length = (contents, heap) := by
  rw [readBytes_of_view hview (Nat.zero_add _).le, List.drop_zero, List.take_length]

theorem memchr_of_view (hview : heap.view src = some contents) (byte : Byte) :
    memchr heap (some src) byte contents.length = (contents.findIdx? (· = byte), heap) := by
  rw [memchr, readBytes_all hview]

theorem becomes_memcpy (hwf : heap.WellFormed) (hsrc : heap.view src = some data)
    (hdst : heap.view dst = some contents) {offset : Nat}
    (hbound : offset + data.length ≤ contents.length) :
    heap.Becomes (memcpy heap dst offset (some src) data.length) (Function.update heap.view dst
      (some (contents.take offset ++ data ++ contents.drop (offset + data.length)))) := by
  rw [memcpy, readBytes_all hsrc]
  exact heap.becomes_store hwf hdst hbound

theorem becomes_memcpy_all (hwf : heap.WellFormed) (hsrc : heap.view src = some data)
    (hdst : heap.view dst = some contents) (hlength : contents.length = data.length) :
    heap.Becomes (memcpy heap dst 0 (some src) data.length)
      (Function.update heap.view dst (some data)) := by
  apply (becomes_memcpy hwf hsrc hdst (by omega)).congr
  rw [List.take_zero, List.nil_append, Nat.zero_add, List.drop_of_length_le hlength.le,
    List.append_nil]

theorem becomes_kfree (hwf : heap.WellFormed) {gone : Option Ptr}
    (hlive : ∀ block ∈ gone, heap.view block ≠ none) :
    heap.Becomes (kfree heap gone) (Lib.BlockHeap.without heap.view gone) := by
  cases gone with
  | none => exact .refl hwf
  | some block =>
      obtain ⟨contents, hview⟩ := Option.ne_none_iff_exists'.mp (hlive block rfl)
      exact heap.becomes_free hwf hview

end Memory

end AesdChar
