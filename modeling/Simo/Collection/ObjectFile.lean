import Simo.Support.Bytes

/-!
# Sections of object files

A file is loaded as a collection only if it has a section of a certain name.  On Linux the section
is looked for by reading the tables of an ELF64 file with `pread`.  What is read is exactly what the
file has at that place, and a file of any other shape is told apart before the tables are used.
The sizes of the tables come from the file itself.
-/

namespace Simo

open Bytes

/-- A regular file: its bytes, no more than the largest offset. -/
structure RegularFile where
  bytes : List UInt8
  length_lt : bytes.length < 2 ^ 63

/-! ## Reading -/

/-- How one piece of a range is transferred.  Calls can be interrupted before; then at least one
byte is transferred, and at most one more than `most`. -/
inductive Transfer where
  | interrupted (again : Transfer)
  | transferred (most : ℕ)

/-- `pread`, when it is not interrupted; `none` when it fails.  An offset from 2 ^ 63 on is
negative. -/
def pread (file : RegularFile) (most count offset : ℕ) : Option (List UInt8) :=
  if 2 ^ 63 ≤ offset then none
  else some (slice file.bytes offset (min (most + 1) count))

/-- The loop of `read_exact`, with the bytes in the buffer so far; `call` counts the transfers. -/
def readExactLoop (file : RegularFile) (kernel : ℕ → Transfer) (size offset : ℕ) (call : ℕ)
    (transfer : Transfer) (out : List UInt8) : Option (List UInt8) :=
  if out.length < size then
    match transfer with
    | .interrupted again => readExactLoop file kernel size offset call again out
    | .transferred most =>
        match pread file most (size - out.length) ((offset + out.length) % 2 ^ 64) with
        | none => none
        | some [] => none
        | some (byte :: bytes) =>
            readExactLoop file kernel size offset (call + 1) (kernel (call + 1))
              (out ++ byte :: bytes)
  else some out
termination_by (size - out.length, transfer)
decreasing_by
  · apply Prod.Lex.right
    simp
  · apply Prod.Lex.left
    rw [List.length_append, List.length_cons]
    omega

/-- `read_exact`: the bytes that fill the buffer, if it can be filled. -/
def readExact (file : RegularFile) (kernel : ℕ → Transfer) (size offset : ℕ) :
    Option (List UInt8) :=
  readExactLoop file kernel size offset 0 (kernel 0) []

section Reading

variable {file : RegularFile} {kernel : ℕ → Transfer} {size offset most : ℕ}
  {out : List UInt8}

/-- The position of the next byte does not wrap around. -/
theorem next_position (bounded : offset < 2 ^ 64)
    (short : out.length ≤ file.bytes.length - offset) :
    (offset + out.length) % 2 ^ 64 = offset + out.length := by
  have small := file.length_lt
  apply Nat.mod_eq_of_lt
  omega

/-- A call reads on from the position. -/
theorem append_of_pread {bytes : List UInt8} (read : out <+: file.bytes.drop offset)
    (done : pread file most (size - out.length) (offset + out.length) = some bytes)
    (room : out.length < size) :
    (out ++ bytes) <+: file.bytes.drop offset ∧ (out ++ bytes).length ≤ size := by
  obtain ⟨rest, split⟩ := read
  have remains : file.bytes.drop (offset + out.length) = rest := by
    rw [← List.drop_drop, ← split, List.drop_left]
  rw [pread, Option.ite_none_left_eq_some, slice, remains, Option.some_inj] at done
  obtain ⟨-, rfl⟩ := done
  constructor
  · rw [← split]
    exact (List.prefix_append_right_inj out).mpr (List.take_prefix _ _)
  · have length := List.length_take_le (min (most + 1) (size - out.length)) rest
    rw [List.length_append]
    omega

/-- Where a call fails or reads nothing, the bytes that are wanted are not there. -/
theorem short_of_pread (none_or_nil : pread file most (size - out.length) (offset + out.length) =
    none ∨ pread file most (size - out.length) (offset + out.length) = some [])
    (room : out.length < size) : ¬ size ≤ file.bytes.length - offset := by
  have small := file.length_lt
  rw [pread] at none_or_nil
  split at none_or_nil
  next negative => omega
  next =>
    have length : (slice file.bytes (offset + out.length)
        (min (most + 1) (size - out.length))).length = 0 := by simpa using none_or_nil
    rw [slice, List.length_take, List.length_drop] at length
    omega

theorem readExactLoop_eq (bounded : offset < 2 ^ 64) {call : ℕ} {transfer : Transfer}
    (read : out <+: file.bytes.drop offset) (short : out.length ≤ size) :
    readExactLoop file kernel size offset call transfer out =
      if size ≤ file.bytes.length - offset then some (slice file.bytes offset size) else none := by
  have position {out : List UInt8} (read : out <+: file.bytes.drop offset) :
      (offset + out.length) % 2 ^ 64 = offset + out.length :=
    next_position bounded (by simpa using read.length_le)
  fun_induction readExactLoop file kernel size offset call transfer out with
  | case1 call out room again induction => exact induction read short
  | case2 call out room most failed =>
      rw [position read] at failed
      rw [if_neg (short_of_pread (.inl failed) room)]
  | case3 call out room most nothing =>
      rw [position read] at nothing
      rw [if_neg (short_of_pread (.inr nothing) room)]
  | case4 call out room most byte bytes done induction =>
      rw [position read] at done
      obtain ⟨read', short'⟩ := append_of_pread read done room
      exact induction read' short'
  | case5 call transfer out full =>
      have length : out.length = size := by omega
      have there := read.length_le
      rw [List.length_drop] at there
      rw [if_pos (by omega), slice, ← length, ← List.prefix_iff_eq_take.mp read]

/-- `read_exact` gives the bytes of the range if they all lie in the file, however they are
transferred. -/
theorem readExact_eq (kernel : ℕ → Transfer) (bounded : offset < 2 ^ 64) (positive : 0 < size) :
    readExact file kernel size offset =
      if offset + size ≤ file.bytes.length then some (slice file.bytes offset size) else none := by
  rw [readExact, readExactLoop_eq bounded (List.nil_prefix) (Nat.zero_le _)]
  congr 1
  rw [eq_iff_iff]
  omega

end Reading

/-! ## Buffers and tables -/

/-- What ends the function other than a result.  The library is built without exceptions, and an
access outside a buffer is undefined. -/
inductive Fault where
  | lengthError
  | badAlloc
  | outOfBounds
deriving DecidableEq

/-- A call of the function: the vectors that it constructs, with the size of an element and the
number of elements, and its end. -/
structure Scan where
  vectors : List (ℕ × ℕ)
  result : Except Fault Bool

namespace Scan

def returns (found : Bool) : Scan := ⟨[], .ok found⟩

def fails (fault : Fault) : Scan := ⟨[], .error fault⟩

/-- `if (!read_exact(...)) return false;` and the rest of the function. -/
def ifRead (read : Option (List UInt8)) (rest : List UInt8 → Scan) : Scan :=
  match read with
  | none => returns false
  | some buffer => rest buffer

@[simp]
theorem ifRead_none (rest : List UInt8 → Scan) : ifRead none rest = returns false := rfl

@[simp]
theorem ifRead_some (buffer : List UInt8) (rest : List UInt8 → Scan) :
    ifRead (some buffer) rest = rest buffer := rfl

/-- `max_size` of a vector. -/
def maxSize (sizeOfElement : ℕ) : ℕ := (2 ^ 63 - 1) / sizeOfElement

/-- The construction of a vector and the rest of the function; `grants` says how many bytes can be
allocated. -/
def withVector (grants : ℕ → Bool) (sizeOfElement count : ℕ) (rest : Scan) : Scan :=
  if maxSize sizeOfElement < count then ⟨[(sizeOfElement, count)], .error .lengthError⟩
  else if !grants (sizeOfElement * count) then ⟨[(sizeOfElement, count)], .error .badAlloc⟩
  else ⟨(sizeOfElement, count) :: rest.vectors, rest.result⟩

theorem withVector_of_granted {grants : ℕ → Bool} {sizeOfElement count : ℕ}
    (fits : count ≤ maxSize sizeOfElement) (granted : grants (sizeOfElement * count) = true)
    (rest : Scan) : withVector grants sizeOfElement count rest =
      ⟨(sizeOfElement, count) :: rest.vectors, rest.result⟩ := by
  rw [withVector, if_neg (by omega), granted]
  rfl

/-- A vector is constructed with its size before anything can go wrong. -/
theorem mem_vectors_withVector (grants : ℕ → Bool) (sizeOfElement count : ℕ) (rest : Scan) :
    (sizeOfElement, count) ∈ (withVector grants sizeOfElement count rest).vectors := by
  rw [withVector]
  split_ifs <;> exact List.mem_cons_self

end Scan

/-- `EI_NIDENT` and the sizes of `Elf64_Ehdr` and `Elf64_Shdr`. -/
def identSize : ℕ := 16
@[inherit_doc identSize] def ehdrSize : ℕ := 64
@[inherit_doc identSize] def shdrSize : ℕ := 64

/-- The first bytes of an ELF64 file: the magic and `ELFCLASS64`. -/
def elf64Ident : List UInt8 := [0x7f, 0x45, 0x4c, 0x46, 2]

/-- The fields of the header that are used. -/
structure Ehdr where
  shoff : ℕ
  shnum : ℕ
  shstrndx : ℕ

def Ehdr.ofBytes (order : Order) (bytes : List UInt8) : Ehdr where
  shoff := order.field bytes 40 8
  shnum := order.field bytes 60 2
  shstrndx := order.field bytes 62 2

/-- The fields of a section record that are used. -/
structure Shdr where
  name : ℕ
  offset : ℕ
  size : ℕ

def Shdr.ofBytes (order : Order) (bytes : List UInt8) : Shdr where
  name := order.field bytes 0 4
  offset := order.field bytes 24 8
  size := order.field bytes 32 8

/-! ## The search -/

/-- `std::memcmp` of a part of the table with a text, for equality. -/
def memcmpEqual (table : List UInt8) (offset : ℕ) (expected : List UInt8) : Except Fault Bool :=
  if table.length < offset + expected.length then .error .outOfBounds
  else .ok (slice table offset expected.length == expected)

def elfStringAtEquals (table : List UInt8) (offset : ℕ) (expected : List UInt8) :
    Except Fault Bool :=
  if table.length ≤ offset then .ok false
  else
    let remaining := table.length - offset
    if remaining ≤ expected.length then .ok false
    else
      match memcmpEqual table offset expected with
      | .error fault => .error fault
      | .ok false => .ok false
      | .ok true =>
          match table[offset + expected.length]? with
          | none => .error .outOfBounds
          | some byte => .ok (byte == 0)

/-- The loop over the sections. -/
def searchSections (names expected : List UInt8) : List Shdr → Except Fault Bool
  | [] => .ok false
  | section_ :: rest =>
      match elfStringAtEquals names section_.name expected with
      | .error fault => .error fault
      | .ok true => .ok true
      | .ok false => searchSections names expected rest

/-- The part of `object_file_has_section_named_impl` after the construction of the vector for the
section records. -/
def searchTables (order : Order) (kernel : ℕ → ℕ → Transfer) (grants : ℕ → Bool)
    (file : RegularFile) (sectionName : List UInt8) (ehdr : Ehdr) : Scan :=
  .ifRead (readExact file (kernel 2) (ehdr.shnum * shdrSize) ehdr.shoff) fun buffer =>
  let sections := (List.range ehdr.shnum).map fun index =>
    Shdr.ofBytes order (slice buffer (index * shdrSize) shdrSize)
  match sections[ehdr.shstrndx]? with
  | none => .fails .outOfBounds
  | some sectionNameTable =>
      if sectionNameTable.size = 0 then .returns false else
      .withVector grants 1 sectionNameTable.size <|
      .ifRead (readExact file (kernel 3) sectionNameTable.size sectionNameTable.offset)
        fun names => ⟨[], searchSections names sectionName sections⟩

/-- `object_file_has_section_named_impl` for ELF files.  The transfers of the four reads are given
by `kernel`. -/
def objectFileHasSectionNamedImpl (order : Order) (kernel : ℕ → ℕ → Transfer) (grants : ℕ → Bool)
    (file : RegularFile) (sectionName : List UInt8) : Scan :=
  .ifRead (readExact file (kernel 0) identSize 0) fun ident =>
  if ident.take 5 ≠ elf64Ident then .returns false else
  .ifRead (readExact file (kernel 1) ehdrSize 0) fun buffer =>
  let ehdr := Ehdr.ofBytes order buffer
  if ehdr.shoff = 0 ∨ ehdr.shnum = 0 ∨ ehdr.shstrndx = 0 ∨ ehdr.shnum ≤ ehdr.shstrndx then
    .returns false
  else
  .withVector grants shdrSize ehdr.shnum (searchTables order kernel grants file sectionName ehdr)

section Search

variable {expected : List UInt8}

/-- The comparison stays in the table. -/
theorem elfStringAtEquals_eq (table : List UInt8) (offset : ℕ) (expected : List UInt8) :
    elfStringAtEquals table offset expected =
      .ok (decide (expected.length < (table.drop offset).length ∧
        (table.drop offset).take expected.length = expected ∧
        (table.drop offset)[expected.length]? = some 0)) := by
  rw [elfStringAtEquals, List.length_drop, List.getElem?_drop]
  split
  next beyond =>
    rw [decide_eq_false]
    rintro ⟨room, -⟩
    omega
  next =>
    dsimp only
    split
    next tight =>
      rw [decide_eq_false]
      rintro ⟨room, -⟩
      omega
    next =>
      have bound : offset + expected.length < table.length := by omega
      rw [memcmpEqual, if_neg (by omega), slice, List.getElem?_eq_getElem bound]
      have room : expected.length < table.length - offset := by omega
      simp only [room, true_and, Option.some_inj]
      by_cases same : (table.drop offset).take expected.length = expected
      · simp [same, Bool.beq_eq_decide_eq]
      · have differs : ((table.drop offset).take expected.length == expected) = false :=
          beq_eq_false_iff_ne.mpr same
        rw [differs]
        simp [same]

/-- The search comes to an end, and it finds a name without zero bytes if and only if one of the
sections has it. -/
theorem searchSections_eq (names expected : List UInt8) (sections : List Shdr) :
    ∃ found, searchSections names expected sections = .ok found ∧ (0 ∉ expected →
      (found = true ↔ ∃ sect ∈ sections, StartsWithString (names.drop sect.name) expected)) := by
  induction sections with
  | nil => exact ⟨false, rfl, by simp⟩
  | cons sect rest induction =>
      obtain ⟨found, later, iff⟩ := induction
      have here (plain : 0 ∉ expected) : StartsWithString (names.drop sect.name) expected ↔ _ :=
        startsWithString_iff plain
      rw [searchSections, elfStringAtEquals_eq]
      split
      next failed => cases failed
      next equal =>
        refine ⟨true, rfl, fun plain => ?_⟩
        simp only [List.mem_cons, exists_eq_or_imp, here plain]
        exact iff_of_true trivial (.inl (of_decide_eq_true (Except.ok.inj equal)))
      next different =>
        refine ⟨found, later, fun plain => ?_⟩
        simp only [List.mem_cons, exists_eq_or_imp, here plain, iff plain]
        exact (or_iff_right (of_decide_eq_false (Except.ok.inj different))).symm

end Search

end Simo
