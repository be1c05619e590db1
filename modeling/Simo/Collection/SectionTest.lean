import Simo.Collection.ObjectFile

/-!
# The test for a section

Where the buffers can be allocated, the test returns whether the file is an ELF64 file with a
section of the name.  But the sizes of the buffers are fields of the file, and nothing compares them
with its length before the buffers are constructed.
-/

namespace Simo

open Bytes

/-! ## The shape of a file -/

section Shape

/-- The section record at an index. -/
def record (order : Order) (bytes : List UInt8) (index : ℕ) : Shdr :=
  .ofBytes order (slice bytes ((Ehdr.ofBytes order bytes).shoff + index * shdrSize) shdrSize)

/-- The section record of the table of section names. -/
def nameTable (order : Order) (bytes : List UInt8) : Shdr :=
  record order bytes (Ehdr.ofBytes order bytes).shstrndx

/-- The file starts with the ELF magic and the class of 64 bits, and has a complete header with a
section table and an index into it. -/
structure HeaderAccepted (order : Order) (bytes : List UInt8) : Prop where
  ident : bytes.take 5 = elf64Ident
  complete : ehdrSize ≤ bytes.length
  shoff : (Ehdr.ofBytes order bytes).shoff ≠ 0
  shnum : (Ehdr.ofBytes order bytes).shnum ≠ 0
  shstrndx : 0 < (Ehdr.ofBytes order bytes).shstrndx
  inTable : (Ehdr.ofBytes order bytes).shstrndx < (Ehdr.ofBytes order bytes).shnum

/-- The section records lie inside the file. -/
def RecordsInside (order : Order) (bytes : List UInt8) : Prop :=
  (Ehdr.ofBytes order bytes).shoff + (Ehdr.ofBytes order bytes).shnum * shdrSize ≤ bytes.length

/-- The section names lie inside the file. -/
def NamesInside (order : Order) (bytes : List UInt8) : Prop :=
  (nameTable order bytes).offset + (nameTable order bytes).size ≤ bytes.length

instance decidableRecordsInside (order : Order) (bytes : List UInt8) :
    Decidable (RecordsInside order bytes) := inferInstanceAs (Decidable (_ ≤ _))

instance decidableNamesInside (order : Order) (bytes : List UInt8) :
    Decidable (NamesInside order bytes) := inferInstanceAs (Decidable (_ ≤ _))

/-- The file is an ELF64 file with a section of the name. -/
structure HasSection (order : Order) (bytes sectionName : List UInt8) : Prop where
  header : HeaderAccepted order bytes
  records : RecordsInside order bytes
  nonempty : (nameTable order bytes).size ≠ 0
  names : NamesInside order bytes
  named : ∃ index < (Ehdr.ofBytes order bytes).shnum,
    StartsWithString ((slice bytes (nameTable order bytes).offset
      (nameTable order bytes).size).drop (record order bytes index).name) sectionName

variable {order : Order} {bytes : List UInt8}

theorem ehdr_slice (order : Order) (bytes : List UInt8) :
    Ehdr.ofBytes order (slice bytes 0 ehdrSize) = .ofBytes order bytes := by
  rw [Ehdr.ofBytes, Ehdr.ofBytes, Order.field_slice order (by decide),
    Order.field_slice order (by decide), Order.field_slice order (by decide), Nat.zero_add,
    Nat.zero_add, Nat.zero_add]

theorem shdr_slice {index : ℕ} (inTable : index < (Ehdr.ofBytes order bytes).shnum) :
    Shdr.ofBytes order (slice (slice bytes (Ehdr.ofBytes order bytes).shoff
      ((Ehdr.ofBytes order bytes).shnum * shdrSize)) (index * shdrSize) shdrSize) =
      record order bytes index := by
  have inside : index * shdrSize + shdrSize ≤ (Ehdr.ofBytes order bytes).shnum * shdrSize := by
    rw [← Nat.succ_mul]
    exact Nat.mul_le_mul_right _ inTable
  rw [slice_slice inside, record]

theorem headerAccepted_iff_slice (complete : ehdrSize ≤ bytes.length) :
    HeaderAccepted order bytes ↔ (slice bytes 0 identSize).take 5 = elf64Ident ∧
      ¬ ((Ehdr.ofBytes order bytes).shoff = 0 ∨ (Ehdr.ofBytes order bytes).shnum = 0 ∨
        (Ehdr.ofBytes order bytes).shstrndx = 0 ∨
        (Ehdr.ofBytes order bytes).shnum ≤ (Ehdr.ofBytes order bytes).shstrndx) := by
  have front : (slice bytes 0 identSize).take 5 = bytes.take 5 := by
    rw [slice, List.drop_zero, List.take_take]
    rfl
  rw [front]
  simp only [not_or, not_le]
  constructor
  · rintro ⟨ident, -, shoff, shnum, shstrndx, inTable⟩
    exact ⟨ident, shoff, shnum, shstrndx.ne', inTable⟩
  · rintro ⟨ident, shoff, shnum, shstrndx, inTable⟩
    exact ⟨ident, complete, shoff, shnum, Nat.pos_of_ne_zero shstrndx, inTable⟩

end Shape

/-! ## What the function does -/

section Scan

variable {order : Order} {kernel : ℕ → ℕ → Transfer} {grants : ℕ → Bool} {file : RegularFile}
  {sectionName : List UInt8}

/-- The rest of a scan after the vector for the records. -/
def scanTables (order : Order) (grants : ℕ → Bool) (bytes sectionName : List UInt8) : Scan :=
  if RecordsInside order bytes then
    if (nameTable order bytes).size = 0 then .returns false
    else .withVector grants 1 (nameTable order bytes).size <|
      if NamesInside order bytes then
        ⟨[], searchSections
          (slice bytes (nameTable order bytes).offset (nameTable order bytes).size) sectionName
          ((List.range (Ehdr.ofBytes order bytes).shnum).map (record order bytes))⟩
      else .returns false
  else .returns false

/-- What is done after the first vector, for a valid header. -/
theorem searchTables_eq (shnum : (Ehdr.ofBytes order file.bytes).shnum ≠ 0)
    (inTable : (Ehdr.ofBytes order file.bytes).shstrndx < (Ehdr.ofBytes order file.bytes).shnum) :
    searchTables order kernel grants file sectionName (Ehdr.ofBytes order file.bytes) =
      scanTables order grants file.bytes sectionName := by
  have shoff : (Ehdr.ofBytes order file.bytes).shoff < 2 ^ 64 := Order.field_lt order _ _ _
  have positive : 0 < (Ehdr.ofBytes order file.bytes).shnum * shdrSize :=
    Nat.mul_pos (Nat.pos_of_ne_zero shnum) (by decide)
  rw [searchTables, readExact_eq (kernel 2) shoff positive, scanTables]
  change Scan.ifRead (if RecordsInside order file.bytes then _ else _) _ = _
  by_cases inside : RecordsInside order file.bytes
  · rw [if_pos inside, if_pos inside, Scan.ifRead_some]
    have sections : ((List.range (Ehdr.ofBytes order file.bytes).shnum).map fun index =>
        Shdr.ofBytes order (slice (slice file.bytes (Ehdr.ofBytes order file.bytes).shoff
          ((Ehdr.ofBytes order file.bytes).shnum * shdrSize)) (index * shdrSize) shdrSize)) =
        (List.range (Ehdr.ofBytes order file.bytes).shnum).map (record order file.bytes) :=
      List.map_congr_left fun index member => shdr_slice (List.mem_range.mp member)
    have table : ((List.range (Ehdr.ofBytes order file.bytes).shnum).map
        (record order file.bytes))[(Ehdr.ofBytes order file.bytes).shstrndx]? =
        some (nameTable order file.bytes) := by
      rw [List.getElem?_map, List.getElem?_range inTable]
      rfl
    rw [sections]
    simp only [table]
    split
    next => rfl
    next nonempty =>
      have offset : (nameTable order file.bytes).offset < 2 ^ 64 := Order.field_lt order _ _ _
      rw [readExact_eq (kernel 3) offset (Nat.pos_of_ne_zero nonempty)]
      change Scan.withVector _ _ _ (Scan.ifRead (if NamesInside order file.bytes then _ else _) _) =
        _
      by_cases names : NamesInside order file.bytes
      · rw [if_pos names, if_pos names, Scan.ifRead_some]
      · rw [if_neg names, if_neg names, Scan.ifRead_none]
  · rw [if_neg inside, if_neg inside, Scan.ifRead_none]

/-- What is done after the header has been read. -/
theorem scan_eq_of_complete (complete : ehdrSize ≤ file.bytes.length) :
    objectFileHasSectionNamedImpl order kernel grants file sectionName =
      if (slice file.bytes 0 identSize).take 5 ≠ elf64Ident then .returns false
      else if (Ehdr.ofBytes order file.bytes).shoff = 0 ∨
          (Ehdr.ofBytes order file.bytes).shnum = 0 ∨
          (Ehdr.ofBytes order file.bytes).shstrndx = 0 ∨
          (Ehdr.ofBytes order file.bytes).shnum ≤ (Ehdr.ofBytes order file.bytes).shstrndx then
        .returns false
      else .withVector grants shdrSize (Ehdr.ofBytes order file.bytes).shnum
        (scanTables order grants file.bytes sectionName) := by
  have ident : 0 + identSize ≤ file.bytes.length := Nat.le_trans (by decide) complete
  have header : 0 + ehdrSize ≤ file.bytes.length := by rwa [Nat.zero_add]
  rw [objectFileHasSectionNamedImpl, readExact_eq (kernel 0) (by decide) (by decide), if_pos ident,
    Scan.ifRead_some, readExact_eq (kernel 1) (by decide) (by decide), if_pos header,
    Scan.ifRead_some, ehdr_slice]
  split
  next => rfl
  next =>
    dsimp only
    split
    next => rfl
    next valid =>
      simp only [not_or, not_le] at valid
      rw [searchTables_eq valid.2.1 valid.2.2.2]

theorem scan_of_rejected (rejected : ¬ HeaderAccepted order file.bytes) :
    objectFileHasSectionNamedImpl order kernel grants file sectionName = .returns false := by
  by_cases complete : ehdrSize ≤ file.bytes.length
  · rw [headerAccepted_iff_slice complete, not_and_or, not_not] at rejected
    rw [scan_eq_of_complete complete]
    rcases rejected with other | invalid
    · rw [if_pos other]
    · rw [if_pos invalid, ite_self]
  · rw [objectFileHasSectionNamedImpl, readExact_eq (kernel 1) (by decide) (by decide),
      if_neg (by simpa using complete)]
    simp only [Scan.ifRead, ite_self]
    split <;> rfl

theorem scan_of_accepted (accepted : HeaderAccepted order file.bytes) :
    objectFileHasSectionNamedImpl order kernel grants file sectionName =
      .withVector grants shdrSize (Ehdr.ofBytes order file.bytes).shnum
        (scanTables order grants file.bytes sectionName) := by
  obtain ⟨ident, valid⟩ := (headerAccepted_iff_slice accepted.complete).mp accepted
  rw [scan_eq_of_complete accepted.complete, if_neg (not_not.mpr ident), if_neg valid]

theorem shnum_le_maxSize (order : Order) (bytes : List UInt8) :
    (Ehdr.ofBytes order bytes).shnum ≤ Scan.maxSize shdrSize := by
  have bound : (Ehdr.ofBytes order bytes).shnum < 256 ^ 2 := Order.field_lt order _ _ _
  exact bound.le.trans (by decide)

/-- The buffers that a file needs can be allocated. -/
structure Allocatable (order : Order) (grants : ℕ → Bool) (bytes : List UInt8) : Prop where
  records : HeaderAccepted order bytes →
    grants (shdrSize * (Ehdr.ofBytes order bytes).shnum) = true
  names : HeaderAccepted order bytes → RecordsInside order bytes →
    (nameTable order bytes).size ≠ 0 →
    (nameTable order bytes).size ≤ Scan.maxSize 1 ∧
      grants (1 * (nameTable order bytes).size) = true

/-- What the part after the records returns, if the buffer for the names can be allocated. -/
theorem result_scanTables (records : RecordsInside order file.bytes) (plain : 0 ∉ sectionName)
    (allocatable : (nameTable order file.bytes).size ≠ 0 →
      (nameTable order file.bytes).size ≤ Scan.maxSize 1 ∧
        grants (1 * (nameTable order file.bytes).size) = true)
    (accepted : HeaderAccepted order file.bytes) :
    ∃ found, (scanTables order grants file.bytes sectionName).result = .ok found ∧
      (found = true ↔ HasSection order file.bytes sectionName) := by
  rw [scanTables, if_pos records]
  split
  next empty => exact ⟨false, rfl, iff_of_false (by decide) fun has => has.nonempty empty⟩
  next nonempty =>
    obtain ⟨fits, granted⟩ := allocatable nonempty
    rw [Scan.withVector_of_granted fits granted]
    split
    next inside =>
      obtain ⟨found, searched, iff⟩ := searchSections_eq
        (slice file.bytes (nameTable order file.bytes).offset (nameTable order file.bytes).size)
        sectionName
        ((List.range (Ehdr.ofBytes order file.bytes).shnum).map (record order file.bytes))
      refine ⟨found, searched, (iff plain).trans ?_⟩
      constructor
      · rintro ⟨sect, member, named⟩
        obtain ⟨index, inTable, rfl⟩ := List.mem_map.mp member
        exact ⟨accepted, records, nonempty, inside, index, List.mem_range.mp inTable, named⟩
      · rintro ⟨-, -, -, -, index, inTable, named⟩
        exact ⟨_, List.mem_map_of_mem (List.mem_range.mpr inTable), named⟩
    next outside => exact ⟨false, rfl, iff_of_false (by decide) fun has => outside has.names⟩

/-- The function returns whether the section is there, if its buffers can be allocated. -/
theorem result_of_allocatable (kernel : ℕ → ℕ → Transfer) (plain : 0 ∉ sectionName)
    (allocatable : Allocatable order grants file.bytes) :
    ∃ found, (objectFileHasSectionNamedImpl order kernel grants file sectionName).result =
        .ok found ∧ (found = true ↔ HasSection order file.bytes sectionName) := by
  by_cases accepted : HeaderAccepted order file.bytes
  · rw [scan_of_accepted accepted, Scan.withVector_of_granted (shnum_le_maxSize order file.bytes)
      (allocatable.records accepted)]
    by_cases records : RecordsInside order file.bytes
    · exact result_scanTables records plain (allocatable.names accepted records) accepted
    · rw [scanTables, if_neg records]
      exact ⟨false, rfl, iff_of_false (by decide) fun has => records has.records⟩
  · rw [scan_of_rejected accepted]
    exact ⟨false, rfl, iff_of_false (by decide) fun has => accepted has.header⟩

/-- For every file, and every name without zero bytes for which the buffers can be allocated, the
function returns whether the file is an ELF64 file with a section of that name, however the reads
are transferred. -/
theorem sectionTest_iff (order : Order) (kernel : ℕ → ℕ → Transfer) (file : RegularFile)
    (plain : 0 ∉ sectionName) (allocatable : Allocatable order grants file.bytes) :
    ∃ found, (objectFileHasSectionNamedImpl order kernel grants file sectionName).result =
        .ok found ∧ (found = true ↔ HasSection order file.bytes sectionName) :=
  result_of_allocatable kernel plain allocatable

/-! ## The sizes of the buffers -/

/-- Every vector has no more elements than the file has bytes and than a vector can have, and the
function returns. -/
structure Bounded (file : RegularFile) (scan : Scan) : Prop where
  vectors : ∀ vector ∈ scan.vectors,
    vector.2 ≤ file.bytes.length ∧ vector.2 ≤ Scan.maxSize vector.1
  returns : ∃ found, scan.result = .ok found

/-- With an accepted header, the file has as many bytes as section records; and if these lie inside
the file, it has as many bytes as the table of section names. -/
structure TablesFit (order : Order) (bytes : List UInt8) : Prop where
  records : HeaderAccepted order bytes → (Ehdr.ofBytes order bytes).shnum ≤ bytes.length
  names : HeaderAccepted order bytes → RecordsInside order bytes →
    (nameTable order bytes).size ≤ bytes.length

/-- The first vector is granted if it has no more elements than the file has bytes. -/
theorem scan_of_fits (accepted : HeaderAccepted order file.bytes)
    (fits : (Ehdr.ofBytes order file.bytes).shnum ≤ file.bytes.length)
    (generous : ∀ size ≤ shdrSize * file.bytes.length, grants size = true) :
    objectFileHasSectionNamedImpl order kernel grants file sectionName =
      ⟨(shdrSize, (Ehdr.ofBytes order file.bytes).shnum) ::
          (scanTables order grants file.bytes sectionName).vectors,
        (scanTables order grants file.bytes sectionName).result⟩ := by
  rw [scan_of_accepted accepted, Scan.withVector_of_granted (shnum_le_maxSize order file.bytes)
    (generous _ (Nat.mul_le_mul_left _ fits))]

/-- The tables are scanned with bounded vectors if the names fit into the file. -/
theorem bounded_scanTables (sectionName : List UInt8)
    (generous : ∀ size ≤ shdrSize * file.bytes.length, grants size = true)
    (fits : RecordsInside order file.bytes →
      (nameTable order file.bytes).size ≤ file.bytes.length) :
    Bounded file (scanTables order grants file.bytes sectionName) := by
  have nothing : Bounded file (.returns false) :=
    ⟨fun _ member => (List.not_mem_nil member).elim, false, rfl⟩
  rw [scanTables]
  split
  next records =>
    split
    next => exact nothing
    next =>
      have length := fits records
      have small : (nameTable order file.bytes).size ≤ Scan.maxSize 1 := by
        have short := file.length_lt
        rw [Scan.maxSize]
        omega
      have granted : grants (1 * (nameTable order file.bytes).size) = true := by
        apply generous
        rw [shdrSize]
        omega
      rw [Scan.withVector_of_granted small granted]
      split
      next =>
        obtain ⟨found, searched, -⟩ := searchSections_eq
          (slice file.bytes (nameTable order file.bytes).offset (nameTable order file.bytes).size)
          sectionName
          ((List.range (Ehdr.ofBytes order file.bytes).shnum).map (record order file.bytes))
        exact ⟨by simpa using ⟨length, small⟩, found, searched⟩
      next => exact ⟨by simpa [Scan.returns] using ⟨length, small⟩, false, rfl⟩
  next => exact nothing

/-- For every file and every allocator that grants buffers of the file's length: the vectors are
bounded and the function returns if and only if the tables fit. -/
theorem bounded_iff (order : Order) (kernel : ℕ → ℕ → Transfer) (file : RegularFile)
    (sectionName : List UInt8)
    (generous : ∀ size ≤ shdrSize * file.bytes.length, grants size = true) :
    Bounded file (objectFileHasSectionNamedImpl order kernel grants file sectionName) ↔
      TablesFit order file.bytes := by
  constructor
  · intro bounded
    have records (accepted : HeaderAccepted order file.bytes) :
        (Ehdr.ofBytes order file.bytes).shnum ≤ file.bytes.length := by
      rw [scan_of_accepted accepted] at bounded
      exact (bounded.vectors _ (Scan.mem_vectors_withVector _ _ _ _)).1
    refine ⟨records, fun accepted inside => ?_⟩
    rcases eq_or_ne (nameTable order file.bytes).size 0 with empty | nonempty
    · rw [empty]
      exact Nat.zero_le _
    · rw [scan_of_fits accepted (records accepted) generous, scanTables, if_pos inside,
        if_neg nonempty] at bounded
      exact (bounded.vectors _ (List.mem_cons_of_mem _ (Scan.mem_vectors_withVector _ _ _ _))).1
  · rintro ⟨records, names⟩
    by_cases accepted : HeaderAccepted order file.bytes
    · have tables := bounded_scanTables sectionName generous (names accepted)
      rw [scan_of_fits accepted (records accepted) generous]
      exact ⟨List.forall_mem_cons.mpr ⟨⟨records accepted, shnum_le_maxSize order file.bytes⟩,
        tables.vectors⟩, tables.returns⟩
    · rw [scan_of_rejected accepted]
      exact ⟨fun _ member => (List.not_mem_nil member).elim, false, rfl⟩

end Scan

/-! ## Small files -/

/-- A file with a header, an empty section record and the record of a table of names at its end,
with the size that is given in the record. -/
def smallBytes (size names : List UInt8) : List UInt8 :=
  elf64Ident ++ List.replicate 35 0 ++ [64] ++ List.replicate 19 0 ++ [2, 0, 1, 0] ++
    List.replicate 64 0 ++ List.replicate 24 0 ++ [192] ++ List.replicate 7 0 ++ size ++
    List.replicate 24 0 ++ names

/-- The file with the right size. -/
def smallFile : RegularFile :=
  ⟨smallBytes [3, 0, 0, 0, 0, 0, 0, 0] [0x61, 0x62, 0], by decide +kernel⟩

/-- The file with the largest size. -/
def hostileFile : RegularFile :=
  ⟨smallBytes (List.replicate 8 0xff) [0x61, 0x62, 0], by decide +kernel⟩

/-- Reads that are interrupted first and then transferred in pieces of at most seven bytes. -/
def slowKernel (_ _ : ℕ) : Transfer := .interrupted (.transferred 6)

theorem sectionTest_iff_smallFile :
    HasSection .little smallFile.bytes [0x61, 0x62] ∧
      ∃ found, (objectFileHasSectionNamedImpl .little slowKernel (fun _ => true) smallFile
          [0x61, 0x62]).result = .ok found ∧
        (found = true ↔ HasSection .little smallFile.bytes [0x61, 0x62]) := by
  refine ⟨⟨⟨?_, ?_, ?_, ?_, ?_, ?_⟩, ?_, ?_, ?_, 0, ?_, ?_, ?_⟩,
    sectionTest_iff .little slowKernel smallFile (by decide)
      ⟨fun _ => rfl, fun _ _ _ => ⟨?_, rfl⟩⟩⟩ <;> decide +kernel

theorem bounded_iff_smallFile :
    Bounded smallFile (objectFileHasSectionNamedImpl .little slowKernel (fun _ => true) smallFile
        [0x61, 0x62]) ↔ TablesFit .little smallFile.bytes :=
  bounded_iff .little slowKernel smallFile [0x61, 0x62] fun _ _ => rfl

/-- A file of 195 bytes from which a vector of 2 ^ 64 - 1 elements is constructed. -/
theorem not_bounded_hostileFile :
    hostileFile.bytes.length = 195 ∧
      (objectFileHasSectionNamedImpl .little slowKernel (fun _ => true) hostileFile
        [0x61, 0x62]).vectors = [(shdrSize, 2), (1, 2 ^ 64 - 1)] ∧
      (objectFileHasSectionNamedImpl .little slowKernel (fun _ => true) hostileFile
        [0x61, 0x62]).result = .error .lengthError ∧
      ¬ Bounded hostileFile (objectFileHasSectionNamedImpl .little slowKernel (fun _ => true)
        hostileFile [0x61, 0x62]) := by
  have accepted : HeaderAccepted .little hostileFile.bytes := by
    constructor <;> decide +kernel
  have records : RecordsInside .little hostileFile.bytes := by decide +kernel
  have shnum : (Ehdr.ofBytes .little hostileFile.bytes).shnum = 2 := by decide +kernel
  have size : (nameTable .little hostileFile.bytes).size = 2 ^ 64 - 1 := by decide +kernel
  have tables : scanTables .little (fun _ => true) hostileFile.bytes [0x61, 0x62] =
      ⟨[(1, 2 ^ 64 - 1)], .error .lengthError⟩ := by
    rw [scanTables, if_pos records, size]
    rfl
  have scan : objectFileHasSectionNamedImpl .little slowKernel (fun _ => true) hostileFile
      [0x61, 0x62] = ⟨[(shdrSize, 2), (1, 2 ^ 64 - 1)], .error .lengthError⟩ := by
    rw [scan_of_fits accepted (by decide +kernel) fun _ _ => rfl, tables, shnum]
  rw [scan]
  refine ⟨by decide +kernel, rfl, rfl, fun bounded => ?_⟩
  obtain ⟨found, returned⟩ := bounded.returns
  cases returned

end Simo
