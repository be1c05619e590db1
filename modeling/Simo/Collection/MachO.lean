import Simo.Collection.ObjectFile
import Simo.Support.Walk

/-!
# Sections of Mach-O files

On macOS the section is looked for by following the load commands of a 64-bit Mach-O file.  Each
command has its own size, and the commands for segments are followed by the records of their
sections; both the sizes and the counts come from the file.
-/

namespace Simo

namespace MachO

open Bytes

/-- `sizeof(mach_header_64)`, `sizeof(load_command)` and so on. -/
def machHeader64Size : ℕ := 32
@[inherit_doc machHeader64Size] def loadCommandSize : ℕ := 8
@[inherit_doc machHeader64Size] def segmentCommand64Size : ℕ := 72
@[inherit_doc machHeader64Size] def section64Size : ℕ := 80

/-- `MH_MAGIC_64` -/
def mhMagic64 : ℕ := 0xfeedfacf

/-- `LC_SEGMENT_64` -/
def lcSegment64 : ℕ := 0x19

/-- The fields of the header that are used. -/
structure MachHeader64 where
  magic : ℕ
  ncmds : ℕ

def MachHeader64.ofBytes (order : Order) (bytes : List UInt8) : MachHeader64 where
  magic := order.field bytes 0 4
  ncmds := order.field bytes 16 4

structure LoadCommand where
  cmd : ℕ
  cmdsize : ℕ

def LoadCommand.ofBytes (order : Order) (bytes : List UInt8) : LoadCommand where
  cmd := order.field bytes 0 4
  cmdsize := order.field bytes 4 4

/-- The field `nsects` of a segment command. -/
def nsectsOfBytes (order : Order) (bytes : List UInt8) : ℕ := order.field bytes 64 4

/-- The field `sectname` of a section record. -/
def sectnameOfBytes (bytes : List UInt8) : List UInt8 := slice bytes 0 16

/-- The calls of `read_exact`: for the header, for the command `i`, for the same command as a
segment, and for its section `s`. -/
inductive Read where
  | header
  | command (i : ℕ)
  | segment (i : ℕ)
  | sect (i s : ℕ)

/-- A section record that is inspected: the offset of its command and its own. -/
structure Inspection where
  commandOffset : ℕ
  sectionOffset : ℕ

/-- The number of bytes before the first zero byte, at most `maxlen`. -/
def strnlen (text : List UInt8) (maxlen : ℕ) : ℕ :=
  ((text.take maxlen).takeWhile (· ≠ 0)).length

def machoFixedNameEquals (rawName expected : List UInt8) : Bool :=
  if 16 < expected.length then false
  else if strnlen rawName 16 ≠ expected.length then false
  else rawName.take expected.length == expected

section Impl

variable (order : Order) (kernel : Read → ℕ → Transfer) (file : RegularFile)
  (sectionName : List UInt8)

/-- The body of the loop over the sections of a segment. -/
def visitSection (i commandOffset s : ℕ) : Walk Inspection :=
  let sectionOffset := (commandOffset + segmentCommand64Size + s * section64Size) % 2 ^ 64
  match readExact file (kernel (.sect i s)) section64Size sectionOffset with
  | none => ⟨[⟨commandOffset, sectionOffset⟩], some false⟩
  | some buffer =>
      if machoFixedNameEquals (sectnameOfBytes buffer) sectionName then
        ⟨[⟨commandOffset, sectionOffset⟩], some true⟩
      else ⟨[⟨commandOffset, sectionOffset⟩], none⟩

/-- The loop over the sections, with `left` of them to go. -/
def walkSections (i commandOffset : ℕ) : ℕ → ℕ → Walk Inspection
  | 0, _ => .pass
  | left + 1, s =>
      (visitSection kernel file sectionName i commandOffset s).andThen
        (walkSections i commandOffset left (s + 1))

/-- The body of the loop over the load commands, after the command has been read. -/
def visitCommand (i commandOffset : ℕ) (lc : LoadCommand) : Walk Inspection :=
  if lc.cmdsize < loadCommandSize then .return_ false
  else if lc.cmd = lcSegment64 then
    if lc.cmdsize < segmentCommand64Size then .return_ false
    else
      match readExact file (kernel (.segment i)) segmentCommand64Size commandOffset with
      | none => .return_ false
      | some buffer =>
          let nsects := nsectsOfBytes order buffer
          let sectionTableSize := nsects * section64Size
          let availableSize := lc.cmdsize - segmentCommand64Size
          if availableSize < sectionTableSize then .return_ false
          else walkSections kernel file sectionName i commandOffset nsects 0
  else .pass

/-- The loop over the load commands, with `left` of them to go. -/
def walkCommands : ℕ → ℕ → ℕ → Walk Inspection
  | 0, _, _ => .pass
  | left + 1, i, commandOffset =>
      match readExact file (kernel (.command i)) loadCommandSize commandOffset with
      | none => .return_ false
      | some buffer =>
          let lc := LoadCommand.ofBytes order buffer
          (visitCommand order kernel file sectionName i commandOffset lc).andThen
            (walkCommands left (i + 1) ((commandOffset + lc.cmdsize) % 2 ^ 64))

/-- `object_file_has_section_named_impl` for Mach-O files, before the `return false` at its end. -/
def walk : Walk Inspection :=
  match readExact file (kernel .header) machHeader64Size 0 with
  | none => .return_ false
  | some buffer =>
      let header := MachHeader64.ofBytes order buffer
      if header.magic ≠ mhMagic64 then .return_ false
      else walkCommands order kernel file sectionName header.ncmds 0 machHeader64Size

def objectFileHasSectionNamedImpl : Bool :=
  (walk order kernel file sectionName).returned.getD false

end Impl

/-! ## Names -/

/-- The test compares the text before the first zero byte, which may be missing. -/
theorem machoFixedNameEquals_iff {rawName expected : List UInt8} (width : rawName.length ≤ 16) :
    machoFixedNameEquals rawName expected = true ↔ rawName.takeWhile (· ≠ 0) = expected := by
  have isPrefix : rawName.takeWhile (· ≠ 0) <+: rawName := List.takeWhile_prefix _
  have short := isPrefix.length_le
  rw [machoFixedNameEquals, strnlen, List.take_of_length_le width]
  constructor
  · intro equals
    split at equals
    next => cases equals
    next =>
      split at equals
      next => cases equals
      next same =>
        rw [List.prefix_iff_eq_take.mp isPrefix, not_not.mp same]
        exact eq_of_beq equals
  · rintro rfl
    rw [if_neg (by omega), if_neg (not_not.mpr rfl), ← List.prefix_iff_eq_take.mp isPrefix]
    exact beq_self_eq_true _

/-! ## The shape of a file -/

section Shape

variable (order : Order) (bytes sectionName : List UInt8)

def headerOf : MachHeader64 := .ofBytes order (slice bytes 0 machHeader64Size)

def loadCommandAt (offset : ℕ) : LoadCommand := .ofBytes order (slice bytes offset loadCommandSize)

def nsectsAt (offset : ℕ) : ℕ := nsectsOfBytes order (slice bytes offset segmentCommand64Size)

/-- The offset of a load command: its predecessors follow the header without gaps. -/
def commandOffset : ℕ → ℕ
  | 0 => machHeader64Size
  | i + 1 => commandOffset i + (loadCommandAt order bytes (commandOffset i)).cmdsize

/-- The offset of a section record of the segment command at `offset`. -/
def sectionOffset (offset s : ℕ) : ℕ := offset + segmentCommand64Size + s * section64Size

/-- The section record has exactly this name. -/
def Named (offset : ℕ) : Prop :=
  (sectnameOfBytes (slice bytes offset section64Size)).takeWhile (· ≠ 0) = sectionName

/-- The load command is complete in the file, and its size has room for its own structure and for
the sections that it declares. -/
structure WellFormedCommand (offset : ℕ) : Prop where
  complete : offset + (loadCommandAt order bytes offset).cmdsize ≤ bytes.length
  command : loadCommandSize ≤ (loadCommandAt order bytes offset).cmdsize
  segment : (loadCommandAt order bytes offset).cmd = lcSegment64 →
    segmentCommand64Size + nsectsAt order bytes offset * section64Size ≤
      (loadCommandAt order bytes offset).cmdsize

/-- A segment command of the file has a section of the name. -/
def HasSection : Prop :=
  ∃ i < (headerOf order bytes).ncmds,
    (loadCommandAt order bytes (commandOffset order bytes i)).cmd = lcSegment64 ∧
      ∃ s < nsectsAt order bytes (commandOffset order bytes i),
        Named bytes sectionName (sectionOffset (commandOffset order bytes i) s)

/-- The load command is for a segment, has room for its sections, and one of them is complete in the
file and has the name. -/
structure Located (offset : ℕ) : Prop where
  segment : (loadCommandAt order bytes offset).cmd = lcSegment64
  fits : segmentCommand64Size + nsectsAt order bytes offset * section64Size ≤
    (loadCommandAt order bytes offset).cmdsize
  named : ∃ s < nsectsAt order bytes offset,
    sectionOffset offset s + section64Size ≤ bytes.length ∧
      Named bytes sectionName (sectionOffset offset s)

/-- What is inspected lies inside the bytes of the segment command at `offset`. -/
structure InsideCommand (offset : ℕ) (inspection : Inspection) : Prop where
  command : inspection.commandOffset = offset
  segment : (loadCommandAt order bytes offset).cmd = lcSegment64
  start : offset + segmentCommand64Size ≤ inspection.sectionOffset
  stop : inspection.sectionOffset + section64Size ≤
    offset + (loadCommandAt order bytes offset).cmdsize

/-- What is inspected lies inside one of the first `count` load commands. -/
def InsideFirst (count : ℕ) (inspection : Inspection) : Prop :=
  ∃ index < count, InsideCommand order bytes (commandOffset order bytes index) inspection

/-- Among the `left` load commands from `i` on there is one with a section of the name, and every
one before it has room for its own fields. -/
def LocatedFrom (left i : ℕ) : Prop :=
  ∃ index, i ≤ index ∧ index < i + left ∧
    (∀ earlier, i ≤ earlier → earlier < index →
      loadCommandSize ≤ (loadCommandAt order bytes (commandOffset order bytes earlier)).cmdsize) ∧
    Located order bytes sectionName (commandOffset order bytes index)

end Shape

variable {order : Order} {bytes sectionName : List UInt8}

theorem locatedFrom_succ {left i : ℕ} :
    LocatedFrom order bytes sectionName (left + 1) i ↔
      Located order bytes sectionName (commandOffset order bytes i) ∨
        (loadCommandSize ≤ (loadCommandAt order bytes (commandOffset order bytes i)).cmdsize ∧
          LocatedFrom order bytes sectionName left (i + 1)) := by
  constructor
  · rintro ⟨index, lower, upper, before, located⟩
    rcases lower.eq_or_lt with rfl | after
    · exact .inl located
    · exact .inr ⟨before i le_rfl after, index, after, by omega,
        fun earlier lower' upper' => before earlier (by omega) upper', located⟩
  · rintro (here | ⟨sized, index, lower, upper, before, located⟩)
    · exact ⟨i, le_rfl, by omega, fun earlier lower upper => by omega, here⟩
    · refine ⟨index, by omega, by omega, fun earlier lower' upper' => ?_, located⟩
      rcases lower'.eq_or_lt with rfl | after
      · exact sized
      · exact before earlier after upper'

/-! ## The walk -/

section Walks

variable {order : Order} {kernel : Read → ℕ → Transfer} {file : RegularFile}
  {sectionName : List UInt8} {i offset : ℕ}

theorem cmdsize_lt (order : Order) (bytes : List UInt8) (offset : ℕ) :
    (loadCommandAt order bytes offset).cmdsize < 2 ^ 32 :=
  order.field_lt _ 4 4

/-- The section records that fit lie inside their command. -/
theorem insideCommand_sectionOffset {s : ℕ}
    (segment : (loadCommandAt order file.bytes offset).cmd = lcSegment64)
    (fits : segmentCommand64Size + (s + 1) * section64Size ≤
      (loadCommandAt order file.bytes offset).cmdsize) :
    InsideCommand order file.bytes offset ⟨offset, sectionOffset offset s⟩ := by
  refine ⟨rfl, segment, Nat.le_add_right _ _, ?_⟩
  simp only [sectionOffset, segmentCommand64Size, section64Size] at fits ⊢
  omega

/-- A complete section record is read; of an incomplete one the function says that it is not
there. -/
theorem finds_visitSection {s : ℕ} (small : offset < 2 ^ 63)
    (segment : (loadCommandAt order file.bytes offset).cmd = lcSegment64)
    (fits : segmentCommand64Size + (s + 1) * section64Size ≤
      (loadCommandAt order file.bytes offset).cmdsize) :
    (visitSection kernel file sectionName i offset s).Finds
      (InsideCommand order file.bytes offset)
      (sectionOffset offset s + section64Size ≤ file.bytes.length ∧
        Named file.bytes sectionName (sectionOffset offset s))
      (offset + (loadCommandAt order file.bytes offset).cmdsize ≤ file.bytes.length) := by
  have inside := insideCommand_sectionOffset segment fits
  have inspected : ∀ place ∈ [(⟨offset, sectionOffset offset s⟩ : Inspection)],
      InsideCommand order file.bytes offset place := by
    simpa using inside
  have stop : sectionOffset offset s + section64Size ≤ _ := inside.stop
  have bound := cmdsize_lt order file.bytes offset
  have unwrapped : (offset + segmentCommand64Size + s * section64Size) % 2 ^ 64 =
      sectionOffset offset s :=
    Nat.mod_eq_of_lt (by rw [← sectionOffset]; omega)
  have nameWidth : (sectnameOfBytes
      (slice file.bytes (sectionOffset offset s) section64Size)).length ≤ 16 :=
    length_slice_le _ _ _
  simp only [visitSection, unwrapped]
  rw [readExact_eq _ (by omega) (by decide)]
  by_cases complete : sectionOffset offset s + section64Size ≤ file.bytes.length
  · rw [if_pos complete]
    dsimp only
    split
    next equals =>
      refine ⟨inspected, fun _ => ⟨complete, (machoFixedNameEquals_iff nameWidth).mp equals⟩,
        fun returned => ?_, fun returned => ?_⟩
      · cases returned
      · cases returned
    next differs =>
      refine ⟨inspected, fun returned => ?_, fun returned => ?_, fun _ here =>
        differs ((machoFixedNameEquals_iff nameWidth).mpr here.2)⟩
      · cases returned
      · cases returned
  · rw [if_neg complete]
    refine ⟨inspected, fun returned => ?_, fun _ formed => by omega, fun returned => ?_⟩
    · cases returned
    · cases returned

/-- The loop over the sections finds a section from `s` on, if there is one. -/
theorem finds_walkSections (small : offset < 2 ^ 63)
    (segment : (loadCommandAt order file.bytes offset).cmd = lcSegment64) (left s : ℕ)
    (fits : segmentCommand64Size + (s + left) * section64Size ≤
      (loadCommandAt order file.bytes offset).cmdsize) :
    (walkSections kernel file sectionName i offset left s).Finds
      (InsideCommand order file.bytes offset)
      (∃ index, s ≤ index ∧ index < s + left ∧
        sectionOffset offset index + section64Size ≤ file.bytes.length ∧
        Named file.bytes sectionName (sectionOffset offset index))
      (offset + (loadCommandAt order file.bytes offset).cmdsize ≤ file.bytes.length) := by
  induction left generalizing s with
  | zero =>
      refine Walk.finds_pass ?_
      rintro ⟨index, lower, upper, -⟩
      omega
  | succ left induction =>
      have first : segmentCommand64Size + (s + 1) * section64Size ≤
          (loadCommandAt order file.bytes offset).cmdsize := by
        simp only [section64Size] at fits ⊢
        omega
      have next := induction (s + 1) (by rwa [Nat.add_assoc, Nat.add_comm 1 left])
      refine ((finds_visitSection small segment first).andThen (fun _ => trivial)
        fun _ => next).imp (fun _ inside => inside) ?_ fun formed => ⟨formed, formed⟩
      constructor
      · rintro (here | ⟨-, index, lower, upper, later⟩)
        · exact ⟨s, le_rfl, by omega, here⟩
        · exact ⟨index, by omega, by omega, later⟩
      · rintro ⟨index, lower, upper, here⟩
        rcases lower.eq_or_lt with rfl | after
        · exact .inl here
        · exact .inr ⟨trivial, index, after, by omega, here⟩

/-- What becomes of a load command that has been read. -/
theorem finds_visitCommand (small : offset < 2 ^ 63) :
    (visitCommand order kernel file sectionName i offset
      (loadCommandAt order file.bytes offset)).Finds (InsideCommand order file.bytes offset)
      (Located order file.bytes sectionName offset)
      (WellFormedCommand order file.bytes offset) := by
  rw [visitCommand]
  split
  next tiny => exact Walk.finds_return_false fun formed => Nat.not_le_of_lt tiny formed.command
  next =>
    split
    next segment =>
      split
      next tiny =>
        refine Walk.finds_return_false fun formed => ?_
        have fits := formed.segment segment
        omega
      next room =>
        rw [readExact_eq _ (by omega) (by decide)]
        by_cases complete : offset + segmentCommand64Size ≤ file.bytes.length
        · rw [if_pos complete]
          dsimp only
          rw [← nsectsAt]
          split
          next crowded =>
            refine Walk.finds_return_false fun formed => ?_
            have fits := formed.segment segment
            omega
          next fitting =>
            have fits : segmentCommand64Size + (0 + nsectsAt order file.bytes offset) *
                section64Size ≤ (loadCommandAt order file.bytes offset).cmdsize := by
              rw [Nat.zero_add]
              omega
            refine (finds_walkSections small segment _ 0 fits).imp (fun _ inside => inside) ?_
              WellFormedCommand.complete
            rw [Nat.zero_add] at fits
            simp only [Nat.zero_le, true_and, Nat.zero_add]
            exact ⟨fun named => ⟨segment, fits, named⟩, Located.named⟩
        · rw [if_neg complete]
          refine Walk.finds_return_false fun formed => ?_
          have whole := formed.complete
          omega
    next other => exact Walk.finds_pass fun located => other located.segment

theorem loadCommandSize_le_of_visitCommand {lc : LoadCommand}
    (passed : (visitCommand order kernel file sectionName i offset lc).returned = none) :
    loadCommandSize ≤ lc.cmdsize := by
  by_contra tiny
  rw [visitCommand, if_pos (Nat.lt_of_not_le tiny)] at passed
  cases passed

/-- The loop over the load commands finds a section of a command from `i` on, if there is one that
can be reached. -/
theorem finds_walkCommands (left i : ℕ) (small : commandOffset order file.bytes i < 2 ^ 64) :
    (walkCommands order kernel file sectionName left i (commandOffset order file.bytes i)).Finds
      (InsideFirst order file.bytes (i + left)) (LocatedFrom order file.bytes sectionName left i)
      (∀ index, i ≤ index → index < i + left →
        WellFormedCommand order file.bytes (commandOffset order file.bytes index)) := by
  induction left generalizing i with
  | zero =>
      refine Walk.finds_pass ?_
      rintro ⟨index, lower, upper, -⟩
      omega
  | succ left induction =>
      rw [walkCommands, readExact_eq _ small (by decide)]
      by_cases complete : commandOffset order file.bytes i + loadCommandSize ≤ file.bytes.length
      · have fileLength := file.length_lt
        have cmdsize := cmdsize_lt order file.bytes (commandOffset order file.bytes i)
        have nextSmall : commandOffset order file.bytes (i + 1) < 2 ^ 64 := by
          rw [commandOffset]
          omega
        have next : (commandOffset order file.bytes i +
            (loadCommandAt order file.bytes (commandOffset order file.bytes i)).cmdsize) %
              2 ^ 64 = commandOffset order file.bytes (i + 1) :=
          Nat.mod_eq_of_lt nextSmall
        have first : (visitCommand order kernel file sectionName i
            (commandOffset order file.bytes i)
            (loadCommandAt order file.bytes (commandOffset order file.bytes i))).Finds
              (InsideFirst order file.bytes (i + (left + 1))) _ _ :=
          (finds_visitCommand (by omega)).imp (fun place inside => ⟨i, by omega, inside⟩) Iff.rfl id
        have later : (walkCommands order kernel file sectionName left (i + 1)
            (commandOffset order file.bytes (i + 1))).Finds
              (InsideFirst order file.bytes (i + (left + 1))) _ _ :=
          (induction (i + 1) nextSmall).imp
            (fun place ⟨index, upper, inside⟩ => ⟨index, by omega, inside⟩) Iff.rfl id
        rw [if_pos complete]
        dsimp only
        rw [← loadCommandAt, next]
        exact (first.andThen loadCommandSize_le_of_visitCommand fun _ => later).imp
          (fun _ inside => inside) locatedFrom_succ.symm fun formed =>
            ⟨formed i le_rfl (by omega), fun index lower upper =>
              formed index (by omega) (by omega)⟩
      · rw [if_neg complete]
        refine Walk.finds_return_false fun formed => ?_
        have whole := (formed i le_rfl (by omega)).complete
        have sized := (formed i le_rfl (by omega)).command
        omega

/-- The whole walk. -/
theorem finds_walk :
    (walk order kernel file sectionName).Finds
      (InsideFirst order file.bytes (headerOf order file.bytes).ncmds)
      (LocatedFrom order file.bytes sectionName (headerOf order file.bytes).ncmds 0 ∧
        (headerOf order file.bytes).magic = mhMagic64 ∧ machHeader64Size ≤ file.bytes.length)
      ((headerOf order file.bytes).magic = mhMagic64 ∧ machHeader64Size ≤ file.bytes.length ∧
        ∀ index < (headerOf order file.bytes).ncmds,
          WellFormedCommand order file.bytes (commandOffset order file.bytes index)) := by
  rw [walk, readExact_eq _ (by decide) (by decide), Nat.zero_add]
  by_cases complete : machHeader64Size ≤ file.bytes.length
  · rw [if_pos complete]
    dsimp only
    rw [← headerOf]
    split
    next other => exact Walk.finds_return_false fun formed => other formed.1
    next magic =>
      have start : commandOffset order file.bytes 0 < 2 ^ 64 := by
        rw [commandOffset]
        decide
      have finds : (walkCommands order kernel file sectionName (headerOf order file.bytes).ncmds 0
          (commandOffset order file.bytes 0)).Finds _ _ _ := finds_walkCommands _ 0 start
      rw [Nat.zero_add] at finds
      refine finds.imp (fun _ inside => inside) ?_ fun formed index _ upper =>
        formed.2.2 index upper
      exact (and_iff_left ⟨not_not.mp magic, complete⟩).symm
  · rw [if_neg complete]
    exact Walk.finds_return_false fun formed => complete formed.2.1

end Walks

/-- In a file with well-formed load commands the sections that can be found are all sections. -/
theorem locatedFrom_iff_hasSection
    (formed : ∀ i < (headerOf order bytes).ncmds,
      WellFormedCommand order bytes (commandOffset order bytes i)) :
    LocatedFrom order bytes sectionName (headerOf order bytes).ncmds 0 ↔
      HasSection order bytes sectionName := by
  constructor
  · rintro ⟨i, -, upper, -, located⟩
    obtain ⟨s, declared, -, named⟩ := located.named
    exact ⟨i, by omega, located.segment, s, declared, named⟩
  · rintro ⟨i, upper, segment, s, declared, named⟩
    have fits := (formed i upper).segment segment
    have whole := (formed i upper).complete
    refine ⟨i, Nat.zero_le i, by omega, fun earlier _ before =>
      (formed earlier (by omega)).command, segment, fits, s, declared, ?_, named⟩
    simp only [sectionOffset, section64Size] at fits ⊢
    omega

theorem machHeader64Size_le_commandOffset (order : Order) (bytes : List UInt8) (i : ℕ) :
    machHeader64Size ≤ commandOffset order bytes i := by
  induction i with
  | zero => exact le_rfl
  | succ i induction => exact induction.trans (Nat.le_add_right _ _)

/-- The test is a bounded walk: what it inspects lies inside the segment commands of the file; in a
file with well-formed load commands it finds exactly the names of sections; and in any other file
it finds only complete sections of commands that can be reached. -/
theorem objectFileHasSectionNamedImpl_correct (order : Order) (kernel : Read → ℕ → Transfer)
    (file : RegularFile) (sectionName : List UInt8) :
    (∀ inspection ∈ (walk order kernel file sectionName).inspected,
      InsideFirst order file.bytes (headerOf order file.bytes).ncmds inspection) ∧
    ((headerOf order file.bytes).magic = mhMagic64 →
      (∀ i < (headerOf order file.bytes).ncmds,
        WellFormedCommand order file.bytes (commandOffset order file.bytes i)) →
      (objectFileHasSectionNamedImpl order kernel file sectionName = true ↔
        HasSection order file.bytes sectionName)) ∧
    (objectFileHasSectionNamedImpl order kernel file sectionName = true →
      ∃ i < (headerOf order file.bytes).ncmds,
        (∀ earlier < i, loadCommandSize ≤
          (loadCommandAt order file.bytes (commandOffset order file.bytes earlier)).cmdsize) ∧
        Located order file.bytes sectionName (commandOffset order file.bytes i)) := by
  have finds : (walk order kernel file sectionName).Finds _ _ _ := finds_walk
  refine ⟨finds.inspected, fun magic formed => ?_, fun found => ?_⟩
  · by_cases complete : machHeader64Size ≤ file.bytes.length
    · rw [objectFileHasSectionNamedImpl, finds.answer ⟨magic, complete, formed⟩,
        and_iff_left ⟨magic, complete⟩]
      exact locatedFrom_iff_hasSection formed
    · refine iff_of_false (fun found => complete (finds.sound found).2.2) ?_
      rintro ⟨i, upper, -⟩
      -- a load command lies behind the header, which is not complete
      have whole := (formed i upper).complete
      have start := machHeader64Size_le_commandOffset order file.bytes i
      omega
  · obtain ⟨⟨i, -, upper, before, located⟩, -⟩ := finds.sound found
    exact ⟨i, by omega, fun earlier lower => before earlier (Nat.zero_le _) lower, located⟩

/-- The name of the section of collections, which has 16 characters and hence no zero byte after
it. -/
def collectionName : List UInt8 :=
  ".Simo.collection".toList.map fun c => UInt8.ofNat c.toNat

/-- A file with one segment, which has one section. -/
def collectionFile : RegularFile where
  bytes := [0xcf, 0xfa, 0xed, 0xfe] ++ List.replicate 12 0 ++ [1, 0, 0, 0] ++
    List.replicate 12 0 ++ [0x19, 0, 0, 0, 152, 0, 0, 0] ++ List.replicate 56 0 ++ [1, 0, 0, 0] ++
    List.replicate 4 0 ++ collectionName ++ List.replicate 64 1
  length_lt := by decide +kernel

theorem objectFileHasSectionNamedImpl_correct_collection :
    objectFileHasSectionNamedImpl .little (fun _ _ => .transferred 6) collectionFile
      collectionName = true := by
  have ncmds : (headerOf .little collectionFile.bytes).ncmds = 1 := by decide +kernel
  refine ((objectFileHasSectionNamedImpl_correct .little _ collectionFile collectionName).2.1
    (by decide +kernel) fun i upper => ?_).mpr ⟨0, ?_, ?_, 0, ?_, ?_⟩
  · obtain rfl : i = 0 := by omega
    constructor <;> decide +kernel
  · decide +kernel
  · decide +kernel
  · decide +kernel
  · rw [Named]
    decide +kernel

end MachO

end Simo
