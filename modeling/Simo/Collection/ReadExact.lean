import Mathlib.Order.RelClasses
import Simo.Collection.ObjectFile
import Simo.Support.Transition

/-!
# Reading a range with `pread`

`read_exact` calls `pread` until the buffer is full.  The kernel may interrupt a call, let it fail,
or transfer fewer bytes than were asked for.  The buffer is a part of the memory of the process, and
what each call writes goes to the part of the buffer that is not filled yet.
-/

namespace Simo

open Bytes

/-- What the kernel makes of one call of `pread`: a transfer has at least one byte, if there is one
at the offset, and at most one more than `most`. -/
inductive Answer where
  | interrupted
  | failed
  | transferred (most : ℕ)

/-- The variables of `read_exact`, the memory, and the number of calls of `pread` so far. -/
structure Reading where
  total : ℕ
  memory : ℕ → UInt8
  calls : ℕ

section Loop

variable (file : RegularFile) (answers : ℕ → Answer) (buffer size offset : ℕ)

/-- One pass of the loop of `read_exact`. -/
def readExactPass (reading : Reading) : Reading ⊕ Bool × Reading :=
  if reading.total < size then
    let called := { reading with calls := reading.calls + 1 }
    match answers reading.calls with
    | .interrupted => .inl called
    | .failed => .inr (false, called)
    | .transferred most =>
        match pread file most (size - reading.total) ((offset + reading.total) % 2 ^ 64) with
        | none => .inr (false, called)
        | some [] => .inr (false, called)
        | some (byte :: bytes) => .inl {
            total := reading.total + (byte :: bytes).length
            memory := store reading.memory (buffer + reading.total) (byte :: bytes)
            calls := reading.calls + 1 }
  else .inr (true, reading)

/-- `read_exact`, called with this memory, returns this answer. -/
def ReadExactReturns (memory : ℕ → UInt8) (result : Bool × Reading) : Prop :=
  Loop.Returns (readExactPass file answers buffer size offset) ⟨0, memory, 0⟩ result

/-- The part of the buffer before `total` has the bytes of the file, and the rest of the memory is
as it was. -/
structure Filled (memory : ℕ → UInt8) (reading : Reading) : Prop where
  short : reading.total ≤ size
  read : ∀ index < reading.total,
    file.bytes[offset + index]? = some (reading.memory (buffer + index))
  elsewhere : ∀ address, address < buffer ∨ buffer + reading.total ≤ address →
    reading.memory address = memory address

end Loop

variable {file : RegularFile} {answers : ℕ → Answer} {buffer size offset : ℕ}
  {memory : ℕ → UInt8} {reading next : Reading}

theorem filled_start : Filled file buffer size offset memory ⟨0, memory, 0⟩ :=
  ⟨Nat.zero_le size, fun _ inside => absurd inside (Nat.not_lt_zero _), fun _ _ => rfl⟩

/-- What has been read lies in the file. -/
theorem Filled.in_file (filled : Filled file buffer size offset memory reading) :
    reading.total = 0 ∨ offset + reading.total ≤ file.bytes.length := by
  rcases Nat.eq_zero_or_pos reading.total with nothing | something
  · exact .inl nothing
  · obtain ⟨bound, -⟩ := List.getElem?_eq_some_iff.mp (filled.read (reading.total - 1) (by omega))
    exact .inr (by omega)

/-- The position of the next byte is not negative as an offset. -/
theorem Filled.position (filled : Filled file buffer size offset memory reading)
    (bounded : offset < 2 ^ 63) :
    (offset + reading.total) % 2 ^ 64 = offset + reading.total ∧
      offset + reading.total < 2 ^ 63 := by
  have small := file.length_lt
  have inFile := filled.in_file
  constructor <;> omega

/-- The next bytes of the file fill the next part of the buffer. -/
theorem Filled.store {count : ℕ} (filled : Filled file buffer size offset memory reading)
    (room : reading.total + count ≤ size) :
    Filled file buffer size offset memory {
      total := reading.total + (slice file.bytes (offset + reading.total) count).length
      memory := store reading.memory (buffer + reading.total)
        (slice file.bytes (offset + reading.total) count)
      calls := reading.calls + 1 } := by
  have length := length_slice_le file.bytes (offset + reading.total) count
  refine ⟨by dsimp only; omega, fun index inside => ?_, fun address outside => ?_⟩
  · dsimp only at inside ⊢
    by_cases before : index < reading.total
    · rw [store_outside (.inl (by omega))]
      exact filled.read index before
    · have start : buffer + reading.total ≤ buffer + index := by omega
      have stop : buffer + index < buffer + reading.total +
          (slice file.bytes (offset + reading.total) count).length := by omega
      rw [← getElem?_of_store reading.memory start stop, slice,
        List.getElem?_take_of_lt (by omega), List.getElem?_drop]
      congr 1
      omega
  · dsimp only at outside ⊢
    rw [store_outside (by omega)]
    exact filled.elsewhere address (by omega)

/-- What a pass can do: interrupted, it leaves everything as it was; it fills a further part of the
buffer; it ends because the buffer is full, because the file ends, or because the call failed. -/
theorem readExactPass_cases (answers : ℕ → Answer)
    (filled : Filled file buffer size offset memory reading)
    (bounded : offset < 2 ^ 63) :
    (reading.total < size ∧ answers reading.calls = .interrupted ∧
      readExactPass file answers buffer size offset reading =
        .inl { reading with calls := reading.calls + 1 }) ∨
    (∃ next, Filled file buffer size offset memory next ∧ reading.total < next.total ∧
      readExactPass file answers buffer size offset reading = .inl next) ∨
    (reading.total < size ∧
      (answers reading.calls = .failed ∨ file.bytes.length < offset + size) ∧
      readExactPass file answers buffer size offset reading =
        .inr (false, { reading with calls := reading.calls + 1 })) ∨
    (reading.total = size ∧
      readExactPass file answers buffer size offset reading = .inr (true, reading)) := by
  by_cases room : reading.total < size
  · cases answer : answers reading.calls with
    | interrupted => exact .inl ⟨room, rfl, by simp only [readExactPass, if_pos room, answer]⟩
    | failed =>
        exact .inr (.inr (.inl ⟨room, .inl rfl, by simp only [readExactPass, if_pos room, answer]⟩))
    | transferred most =>
        obtain ⟨unwrapped, nonnegative⟩ := filled.position bounded
        have count : reading.total + min (most + 1) (size - reading.total) ≤ size := by omega
        have stored := filled.store count
        have read : pread file most (size - reading.total) ((offset + reading.total) % 2 ^ 64) =
            some (slice file.bytes (offset + reading.total)
              (min (most + 1) (size - reading.total))) := by
          rw [unwrapped, pread, if_neg (Nat.not_le.mpr nonnegative)]
        cases bytes : slice file.bytes (offset + reading.total)
            (min (most + 1) (size - reading.total)) with
        | nil =>
            rw [bytes] at read
            -- nothing there: the file ends before the next byte
            have ended : file.bytes.length < offset + size := by
              have length := congrArg List.length bytes
              rw [slice, List.length_take, List.length_drop, List.length_nil] at length
              omega
            exact .inr (.inr (.inl ⟨room, .inr ended, by
              simp only [readExactPass, if_pos room, answer, read]⟩))
        | cons byte bytes' =>
            rw [bytes] at read stored
            refine .inr (.inl ⟨_, stored, ?_, by
              simp only [readExactPass, if_pos room, answer, read]⟩)
            simp
  · have full : reading.total = size := le_antisymm filled.short (Nat.not_lt.mp room)
    exact .inr (.inr (.inr ⟨full, by rw [readExactPass, if_neg room]⟩))

/-- What is promised of a call: it writes to the buffer alone; success means that the buffer has the
range of the file; and if no call of `pread` failed, it succeeds if and only if the range lies in
the file. -/
structure ReadsExactly (file : RegularFile) (answers : ℕ → Answer) (buffer size offset : ℕ)
    (memory : ℕ → UInt8) (result : Bool × Reading) : Prop where
  elsewhere : ∀ address, address < buffer ∨ buffer + size ≤ address →
    result.2.memory address = memory address
  filled : result.1 = true → ∀ index < size,
    file.bytes[offset + index]? = some (result.2.memory (buffer + index))
  succeeds : (∀ call < result.2.calls, answers call ≠ .failed) →
    (result.1 = true ↔ offset + size ≤ file.bytes.length ∨ size = 0)

theorem Filled.stopped (filled : Filled file buffer size offset memory reading)
    (room : reading.total < size)
    (reason : answers reading.calls = .failed ∨ file.bytes.length < offset + size) :
    ReadsExactly file answers buffer size offset memory
      (false, { reading with calls := reading.calls + 1 }) := by
  refine ⟨fun address outside => filled.elsewhere address (by omega), Bool.noConfusion, ?_⟩
  intro noFailure
  have ended := reason.resolve_left (noFailure reading.calls reading.calls.lt_succ_self)
  exact iff_of_false Bool.false_ne_true (by omega)

theorem Filled.finished (filled : Filled file buffer size offset memory reading)
    (full : reading.total = size) :
    ReadsExactly file answers buffer size offset memory (true, reading) := by
  have inFile := filled.in_file
  refine ⟨fun address outside => filled.elsewhere address (by omega),
    fun _ => full ▸ filled.read, ?_⟩
  intro _
  exact iff_of_true rfl (by omega)

theorem readsExactly_of_returns {result : Bool × Reading} (bounded : offset < 2 ^ 63)
    (filled : Filled file buffer size offset memory reading)
    (returned : Loop.Returns (readExactPass file answers buffer size offset) reading result) :
    ReadsExactly file answers buffer size offset memory result := by
  induction returned using Loop.Returns.induction with
  | done reading result pass =>
      obtain ⟨-, -, other⟩ | ⟨next, -, -, other⟩ | ⟨room, reason, stop⟩ | ⟨full, stop⟩ :=
        readExactPass_cases answers filled bounded
      · cases pass.symm.trans other
      · cases pass.symm.trans other
      · cases pass.symm.trans stop
        exact filled.stopped room reason
      · cases pass.symm.trans stop
        exact filled.finished full
  | again reading next result pass _ induction =>
      obtain ⟨-, -, same⟩ | ⟨further, filled', -, same⟩ | ⟨-, -, other⟩ | ⟨-, other⟩ :=
        readExactPass_cases answers filled bounded
      · cases pass.symm.trans same
        exact induction ⟨filled.short, filled.read, filled.elsewhere⟩
      · cases pass.symm.trans same
        exact induction filled'
      · cases pass.symm.trans other
      · cases pass.symm.trans other

/-- A pass fills more of the buffer, or uses up one of the finitely many interruptions. -/
theorem lex_of_readExactPass {last : ℕ} (bounded : offset < 2 ^ 63)
    (interruptions : ∀ call, last ≤ call → answers call ≠ .interrupted)
    (filled : Filled file buffer size offset memory reading)
    (pass : readExactPass file answers buffer size offset reading = .inl next) :
    Filled file buffer size offset memory next ∧
      Prod.Lex (· < ·) (· < ·) (size - next.total, last - next.calls)
        (size - reading.total, last - reading.calls) := by
  obtain ⟨-, again, same⟩ | ⟨further, filled', more, same⟩ | ⟨-, -, other⟩ | ⟨-, other⟩ :=
    readExactPass_cases answers filled bounded
  · cases pass.symm.trans same
    have early : reading.calls < last :=
      Nat.lt_of_not_le fun late => interruptions reading.calls late again
    refine ⟨⟨filled.short, filled.read, filled.elsewhere⟩, Prod.Lex.right _ ?_⟩
    dsimp only
    omega
  · cases pass.symm.trans same
    have short := filled'.short
    exact ⟨filled', Prod.Lex.left _ _ (by omega)⟩
  · cases pass.symm.trans other
  · cases pass.symm.trans other

/-- `read_exact` returns if there are finitely many interruptions. -/
theorem exists_readExactReturns {last : ℕ} (bounded : offset < 2 ^ 63)
    (interruptions : ∀ call, last ≤ call → answers call ≠ .interrupted) (memory : ℕ → UInt8) :
    ∃ result, ReadExactReturns file answers buffer size offset memory result :=
  Loop.exists_returns
    (InvImage.wf (fun reading : Reading => (size - reading.total, last - reading.calls))
      (wellFounded_lt.prod_lex wellFounded_lt))
    (fun _ _ filled pass => lex_of_readExactPass bounded interruptions filled pass) filled_start

/-- However the kernel splits the read: `read_exact` returns, and its answer and what it leaves in
memory are right. -/
theorem readExact_correct (bounded : offset < 2 ^ 63)
    (interruptions : ∃ last, ∀ call, last ≤ call → answers call ≠ .interrupted) :
    (∃ result, ReadExactReturns file answers buffer size offset memory result) ∧
      ∀ result, ReadExactReturns file answers buffer size offset memory result →
        ReadsExactly file answers buffer size offset memory result := by
  obtain ⟨last, interruptions⟩ := interruptions
  exact ⟨exists_readExactReturns bounded interruptions memory,
    fun result returned => readsExactly_of_returns bounded filled_start returned⟩

/-- Two bytes are read after an interruption, one at a time. -/
theorem readExact_correct_byteByByte :
    let file : RegularFile := ⟨[7, 8, 9], by decide⟩
    let answers := fun call => if call = 0 then .interrupted else .transferred 0
    (∃ result, ReadExactReturns file answers 100 2 1 (fun _ => 0) result) ∧
      ∀ result, ReadExactReturns file answers 100 2 1 (fun _ => 0) result →
        ReadsExactly file answers 100 2 1 (fun _ => 0) result :=
  readExact_correct (by decide) ⟨1, fun call late => by simp [Nat.ne_of_gt late]⟩

/-- The section tests use `read_exact` through the bytes that it leaves in the buffer. -/
theorem readExact_of_returns {result : Bool × Reading} (kernel : ℕ → Transfer)
    (bounded : offset < 2 ^ 63) (positive : 0 < size)
    (returned : ReadExactReturns file answers buffer size offset memory result)
    (noFailure : ∀ call < result.2.calls, answers call ≠ .failed) :
    readExact file kernel size offset =
      if result.1 then some ((List.range size).map fun index => result.2.memory (buffer + index))
      else none := by
  obtain ⟨-, filled, succeeds⟩ := readsExactly_of_returns bounded filled_start returned
  have inFile : result.1 = true ↔ offset + size ≤ file.bytes.length := by
    rw [succeeds noFailure, or_iff_left positive.ne']
  rw [readExact_eq kernel (by omega) positive]
  simp only [← inFile]
  split
  next success =>
    congr 1
    refine List.ext_getElem? fun index => ?_
    rw [slice, List.getElem?_map]
    by_cases inside : index < size
    · rw [List.getElem?_take_of_lt inside, List.getElem?_drop, filled success index inside,
        List.getElem?_range inside, Option.map_some]
    · rw [List.getElem?_eq_none ((List.length_take_le _ _).trans (Nat.not_lt.mp inside)),
        List.getElem?_eq_none (by rw [List.length_range]; exact Nat.not_lt.mp inside),
        Option.map_none]
  next => rfl

end Simo
