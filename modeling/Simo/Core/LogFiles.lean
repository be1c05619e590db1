import Simo.Core.LogLevels
import Simo.Core.LogStreams

/-!
# What is in the log files

A stream holds back what is written to it until it is flushed, and may pass a part of it on before.
It has a position in its file, at which it puts what it passes on.  A file is truncated when a
stream is opened for one of its paths, and not when a further logger starts to use that stream.  As
long as no two open streams write to one file, every stream is at the end of its file: between two
truncations the file and what its stream holds back are together what has been logged to it, in the
order of the calls, and a flush or the end of the stream leaves all of it in the file.
-/

namespace Simo

/-- What a text becomes when a part is put at a position, over what is there.  A gap before it is
filled with zeros. -/
def overwrite (text : String) (position : ℕ) (part : String) : String :=
  if part = "" then text
  else
    .ofList ((text.toList.take position).rightpad position (.ofNat 0) ++ part.toList ++
      text.toList.drop (position + part.length))

/-- What is put at the end is appended. -/
theorem overwrite_end (text part : String) :
    overwrite text text.length part = text ++ part := by
  rw [overwrite]
  split
  next nothing => rw [nothing, String.append_empty]
  next =>
    rw [← String.length_toList, List.take_length, List.drop_eq_nil_of_le (Nat.le_add_right ..),
      List.append_nil, List.rightpad, Nat.sub_self, List.replicate_zero, List.append_nil,
      String.ofList_append, String.ofList_toList, String.ofList_toList]

/-- The loggers of a process, the files, and what the streams hold back. -/
structure LogFiles (Id Path File : Type*) where
  process : Process Id Path
  disk : File → String
  /-- The position of a stream in its file, by the address of the stream. -/
  position : ℕ → ℕ
  /-- What has been written to a stream and is not in its file yet, by the address of the stream. -/
  pending : ℕ → String

/-- What can happen to loggers, streams and files. -/
inductive FileEvent (Id Path : Type*) where
  | manages (event : LogEvent Id Path)
  /-- A call that logs, with what it writes and the path whose stream it writes to. -/
  | logs (id : Id) (path : Path) (message : String)
  /-- A call that logs and whose message is filtered out. -/
  | filters (id : Id)
  | flushSink (path : Path)
  | flushAllSinks
  /-- A stream passes on a part of what it holds back. -/
  | spills (path : Path) (part : String)

namespace LogFiles

variable {Id Path File : Type*} [DecidableEq Path]

section Events

-- the table of streams goes by paths, of which several can name one file
variable [DecidableEq File] (fileOf : Path → File)

/-- Open a file for a new stream. -/
def truncate (files : LogFiles Id Path File) (path : Path) (address : ℕ) : LogFiles Id Path File :=
  { files with
    disk := Function.update files.disk (fileOf path) ""
    position := Function.update files.position address 0
    pending := Function.update files.pending address "" }

/-- Put the first part of what a stream holds back into its file. -/
def spill (files : LogFiles Id Path File) (path : Path) (address : ℕ) (part rest : String) :
    LogFiles Id Path File :=
  { files with
    disk := Function.update files.disk (fileOf path)
      (overwrite (files.disk (fileOf path)) (files.position address) part)
    position := Function.update files.position address (files.position address + part.length)
    pending := Function.update files.pending address rest }

/-- Put what a stream holds back into its file. -/
def flush (files : LogFiles Id Path File) (path : Path) (address : ℕ) : LogFiles Id Path File :=
  files.spill fileOf path address (files.pending address) ""

/-- What is done to the files when loggers are initialized and destroyed. -/
def manage [DecidableEq Id] (files : LogFiles Id Path File) (event : LogEvent Id Path) :
    LogFiles Id Path File :=
  match files.process.opened event, files.process.released event with
  | some path, _ => files.truncate fileOf path files.process.table.nextAddress
  | none, some (path, address) => files.flush fileOf path address
  | none, none => files

def flushSink (files : LogFiles Id Path File) (path : Path) : LogFiles Id Path File :=
  match files.process.table.tracked path with
  | none => files
  | some tracker => files.flush fileOf path tracker.sink.address

def flushAllSinks (files : LogFiles Id Path File) : LogFiles Id Path File :=
  files.process.table.sinkTracker.entries.foldl
    (fun files tracker => files.flush fileOf tracker.1 tracker.2.sink.address) files

/-- Write to a stream. -/
def write (files : LogFiles Id Path File) (address : ℕ) (message : String) :
    LogFiles Id Path File :=
  { files with
    pending := Function.update files.pending address (files.pending address ++ message) }

/-- One event.  The threshold and the level names of a logger, and whether it is enabled, are what
other calls have made of them.  A message is written to a stream that is still open. -/
inductive Step [DecidableEq Id] [Inhabited Path] [ToString Path] :
    LogFiles Id Path File → FileEvent Id Path → LogFiles Id Path File → Prop
  | manages {files : LogFiles Id Path File} {event : LogEvent Id Path} {after : Process Id Path}
      (taken : Process.Step files.process event after) :
      Step files (.manages event) { files.manage fileOf event with process := after }
  | logs {files : LogFiles Id Path File} {id : Id} {live : LiveLogger Path}
      {logger : LeveledLogger Path} {level : UInt64} {printLevel : Bool} {text message : String}
      {path : Path} {tracker : SinkTracker}
      (target : files.process.loggers.lookup id = some live)
      (sink : logger.sink = live.logger.sink)
      (calls : logger.logCallable level printLevel text =
        .ok (some (tracker.sink.address, message)))
      (tracked : files.process.table.tracked path = some tracker) :
      Step files (.logs id path message) (files.write tracker.sink.address message)
  | filters {files : LogFiles Id Path File} {id : Id} {live : LiveLogger Path}
      {logger : LeveledLogger Path} {level : UInt64} {printLevel : Bool} {text : String}
      (target : files.process.loggers.lookup id = some live)
      (sink : logger.sink = live.logger.sink)
      (calls : logger.logCallable level printLevel text = .ok none) :
      Step files (.filters id) files
  | flushSink (files : LogFiles Id Path File) (path : Path) :
      Step files (.flushSink path) (files.flushSink fileOf path)
  | flushAllSinks (files : LogFiles Id Path File) :
      Step files .flushAllSinks (files.flushAllSinks fileOf)
  | spills {files : LogFiles Id Path File} {path : Path} {tracker : SinkTracker}
      {part rest : String} (tracked : files.process.table.tracked path = some tracker)
      (holds : files.pending tracker.sink.address = part ++ rest) :
      Step files (.spills path part) (files.spill fileOf path tracker.sink.address part rest)

/-! ## Reading a history -/

/-- A file and what its stream holds back are together a text.  When the stream has been closed, the
text is in the file. -/
structure Holds (files : LogFiles Id Path File) (file : File) (text : String) : Prop where
  opened : ∀ path tracker, files.process.table.tracked path = some tracker → fileOf path = file →
    files.disk file ++ files.pending tracker.sink.address = text
  closed : (∀ path, fileOf path = file → files.process.table.tracked path = none) →
    files.disk file = text

/-- What is left of the text that belongs into a file when a stream is opened, for this file or
another one. -/
def reopened (file : File) (text : String) : Option Path → String
  | none => text
  | some path => if fileOf path = file then "" else text

/-- What one event makes of the text that belongs into a file: opening the file drops it, and a
message is appended. -/
def logged (file : File) (text : String)
    (step : Transition (LogFiles Id Path File) (FileEvent Id Path)) : String :=
  match step.label with
  | .manages event => reopened fileOf file text (step.source.process.opened event)
  | .logs _ path message => if fileOf path = file then text ++ message else text
  | _ => text

/-- No stream is opened for a file that another stream writes to. -/
def OpensApart (step : Transition (LogFiles Id Path File) (FileEvent Id Path)) : Prop :=
  ∀ event path, step.label = .manages event → step.source.process.opened event = some path →
    ∀ other, fileOf other = fileOf path → step.source.process.table.tracked other = none

/-- The last event flushes the stream of a file. -/
def Flushes (file : File) (step : Transition (LogFiles Id Path File) (FileEvent Id Path)) : Prop :=
  step.label = .flushAllSinks ∨ ∃ path, step.label = .flushSink path ∧ fileOf path = file ∧
    (step.source.process.table.tracked path).isSome

end Events

/-! ## What an event does to the files -/

variable {fileOf : Path → File} {files before after : LogFiles Id Path File} {file : File}
  {text : String}

theorem addressOf_of_tracked {table : SinkTable Path} {path : Path} {tracker : SinkTracker}
    (tracked : table.tracked path = some tracker) :
    table.addressOf path = some tracker.sink.address := by
  rw [SinkTable.addressOf, tracked]
  rfl

theorem addressOf_eq_none_iff {table : SinkTable Path} {path : Path} :
    table.addressOf path = none ↔ table.tracked path = none := Option.map_eq_none_iff

/-- What a file holds depends on the addresses of the streams only. -/
theorem holds_iff : files.Holds fileOf file text ↔
    (∀ path address, files.process.table.addressOf path = some address → fileOf path = file →
      files.disk file ++ files.pending address = text) ∧
    ((∀ path, fileOf path = file → files.process.table.addressOf path = none) →
      files.disk file = text) := by
  constructor
  · rintro ⟨opened, closed⟩
    refine ⟨fun path address present names => ?_, fun nowhere => closed fun path names =>
      addressOf_eq_none_iff.mp (nowhere path names)⟩
    obtain ⟨tracker, tracked, rfl⟩ := Option.map_eq_some_iff.mp present
    exact opened path tracker tracked names
  · rintro ⟨opened, closed⟩
    exact ⟨fun path tracker tracked => opened path _ (addressOf_of_tracked tracked),
      fun nowhere => closed fun path names => addressOf_eq_none_iff.mpr (nowhere path names)⟩

/-- A text is in a file if its stream is closed or holds nothing back. -/
theorem Holds.disk_eq (holds : files.Holds fileOf file text)
    (empty : ∀ path address, files.process.table.addressOf path = some address →
      fileOf path = file → files.pending address = "") : files.disk file = text := by
  obtain ⟨opened, closed⟩ := holds_iff.mp holds
  by_cases somewhere : ∃ path address, files.process.table.addressOf path = some address ∧
      fileOf path = file
  · obtain ⟨path, address, present, names⟩ := somewhere
    rw [← opened path address present names, empty path address present names, String.append_empty]
  · exact closed fun path names => Option.eq_none_iff_forall_ne_some.mpr fun address present =>
      somewhere ⟨path, address, present, names⟩

/-- No two streams write to one file, and each of them is at the end of its file. -/
structure Apart (fileOf : Path → File) (files : LogFiles Id Path File) : Prop where
  alone : ∀ path other address there, files.process.table.addressOf path = some address →
    files.process.table.addressOf other = some there → fileOf path = fileOf other → path = other
  atEnd : ∀ path address, files.process.table.addressOf path = some address →
    files.position address = (files.disk (fileOf path)).length

section Streams

variable (separate : files.process.table.Separate) (apart : files.Apart fileOf) {path : Path}
  {address : ℕ} (present : files.process.table.addressOf path = some address)

include separate apart present

/-- A stream for another file has another address. -/
theorem Apart.ne_of_ne {other : Path} {there : ℕ}
    (found : files.process.table.addressOf other = some there) (ne : other ≠ path) :
    fileOf other ≠ fileOf path ∧ there ≠ address := by
  refine ⟨fun same => ne (apart.alone _ _ _ _ found present same), ?_⟩
  rintro rfl
  exact ne (separate.unique _ _ _ found present)

/-- A message is appended to the text of the file whose stream it is written to. -/
theorem Holds.write [DecidableEq File] (holds : files.Holds fileOf file text) (message : String) :
    (files.write address message).Holds fileOf file
      (if fileOf path = file then text ++ message else text) := by
  obtain ⟨opened, closed⟩ := holds_iff.mp holds
  refine holds_iff.mpr ⟨fun other there found names => ?_, fun nowhere => ?_⟩
  · dsimp only [LogFiles.write] at found ⊢
    by_cases here : other = path
    · subst here
      obtain rfl := Option.some.inj (present.symm.trans found)
      rw [if_pos names, Function.update_self, ← String.append_assoc, opened _ _ found names]
    · obtain ⟨elsewhere, ne⟩ := apart.ne_of_ne separate present found here
      rw [if_neg (names ▸ elsewhere.symm), Function.update_of_ne ne, opened _ _ found names]
  · rw [if_neg fun names => ?_]
    · exact closed nowhere
    · cases present.symm.trans (nowhere path names)

theorem Apart.spill [DecidableEq File] (part rest : String) :
    (files.spill fileOf path address part rest).Apart fileOf := by
  refine ⟨apart.alone, fun other there found => ?_⟩
  dsimp only [LogFiles.spill] at found ⊢
  by_cases here : other = path
  · subst here
    obtain rfl := Option.some.inj (present.symm.trans found)
    rw [Function.update_self, Function.update_self, apart.atEnd _ _ present, overwrite_end,
      String.length_append]
  · obtain ⟨elsewhere, ne⟩ := apart.ne_of_ne separate present found here
    rw [Function.update_of_ne ne, Function.update_of_ne elsewhere, apart.atEnd _ _ found]

/-- What is in a file and in its stream together does not change when a part of it passes from one
to the other. -/
theorem Holds.spill [DecidableEq File] (holds : files.Holds fileOf file text) {part rest : String}
    (split : files.pending address = part ++ rest) :
    (files.spill fileOf path address part rest).Holds fileOf file text := by
  obtain ⟨opened, closed⟩ := holds_iff.mp holds
  refine holds_iff.mpr ⟨fun other there found names => ?_, fun nowhere => ?_⟩
  · dsimp only [LogFiles.spill] at found ⊢
    by_cases here : other = path
    · subst here
      obtain rfl := Option.some.inj (present.symm.trans found)
      rw [← names, Function.update_self, Function.update_self, apart.atEnd _ _ present,
        overwrite_end, String.append_assoc, ← split, names, opened _ _ found names]
    · obtain ⟨elsewhere, ne⟩ := apart.ne_of_ne separate present found here
      rw [Function.update_of_ne ne, Function.update_of_ne (names ▸ elsewhere),
        opened _ _ found names]
  · have elsewhere : file ≠ fileOf path := by
      rintro rfl
      cases present.symm.trans (nowhere path rfl)
    exact (Function.update_of_ne elsewhere _ _).trans (closed nowhere)

theorem Apart.flush [DecidableEq File] : (files.flush fileOf path address).Apart fileOf :=
  apart.spill separate present _ _

theorem Holds.flush [DecidableEq File] (holds : files.Holds fileOf file text) :
    (files.flush fileOf path address).Holds fileOf file text :=
  holds.spill separate apart present String.append_empty.symm

end Streams

variable [DecidableEq File]

/-- Flushing streams one after the other leaves what the files hold as it is, and nothing held back
in these streams. -/
theorem flush_entries (files : LogFiles Id Path File) (separate : files.process.table.Separate)
    (apart : files.Apart fileOf) (entries : List (Sigma fun _ : Path => SinkTracker))
    (tracked : ∀ entry ∈ entries, files.process.table.tracked entry.1 = some entry.2) :
    ∃ after, entries.foldl
        (fun files entry => files.flush fileOf entry.1 entry.2.sink.address) files = after ∧
      after.Apart fileOf ∧
      (∀ file text, files.Holds fileOf file text → after.Holds fileOf file text) ∧
      (∀ entry ∈ entries, after.pending entry.2.sink.address = "") ∧
      ∀ address, files.pending address = "" → after.pending address = "" := by
  induction entries generalizing files with
  | nil => exact ⟨files, rfl, apart, fun _ _ => id, by simp, fun _ => id⟩
  | cons entry entries induction =>
      have present := addressOf_of_tracked (tracked entry List.mem_cons_self)
      obtain ⟨after, folded, stillApart, holds, empty, kept⟩ :=
        induction (files.flush fileOf entry.1 entry.2.sink.address) separate
          (apart.flush separate present)
          fun other member => tracked other (List.mem_cons_of_mem _ member)
      refine ⟨after, folded, stillApart, fun file text before =>
        holds file text (before.flush separate apart present), fun other member => ?_,
        fun address held => ?_⟩
      · rcases List.mem_cons.mp member with rfl | later
        · exact kept _ (Function.update_self ..)
        · exact empty other later
      · refine kept address ?_
        rw [flush, spill]
        dsimp only
        rw [Function.update_apply, held, ite_self]

omit [DecidableEq Path] in
theorem process_flushAllSinks (fileOf : Path → File) (files : LogFiles Id Path File) :
    (files.flushAllSinks fileOf).process = files.process := by
  rw [flushAllSinks]
  generalize files.process.table.sinkTracker.entries = entries
  induction entries generalizing files with
  | nil => rfl
  | cons entry entries induction =>
      exact (induction (files.flush fileOf entry.1 entry.2.sink.address)).trans rfl

theorem process_flushSink (fileOf : Path → File) (files : LogFiles Id Path File) (path : Path) :
    (files.flushSink fileOf path).process = files.process := by
  rw [flushSink]
  split <;> rfl

/-- After a flush of all streams, everything is in the files. -/
theorem flushAllSinks_spec (separate : files.process.table.Separate) (apart : files.Apart fileOf) :
    (files.flushAllSinks fileOf).Apart fileOf ∧ ∀ file text, files.Holds fileOf file text →
      (files.flushAllSinks fileOf).Holds fileOf file text ∧
        (files.flushAllSinks fileOf).disk file = text := by
  obtain ⟨after, folded, stillApart, holds, empty, -⟩ := files.flush_entries separate apart
    files.process.table.sinkTracker.entries fun entry member => AList.mem_lookup_iff.mpr member
  have flushed : files.flushAllSinks fileOf = after := folded
  have process := process_flushAllSinks fileOf files
  rw [flushed] at process ⊢
  refine ⟨stillApart, fun file text before => ⟨holds file text before,
    (holds file text before).disk_eq fun path address present _ => ?_⟩⟩
  rw [process] at present
  obtain ⟨tracker, tracked, rfl⟩ := Option.map_eq_some_iff.mp present
  exact empty ⟨path, tracker⟩ (AList.mem_lookup_iff.mp tracked)

/-- After a flush of one stream, everything for its file is there. -/
theorem flushSink_spec (separate : files.process.table.Separate) (apart : files.Apart fileOf)
    (path : Path) :
    (files.flushSink fileOf path).Apart fileOf ∧
      (∀ file text, files.Holds fileOf file text →
        (files.flushSink fileOf path).Holds fileOf file text) ∧
      ((files.process.table.tracked path).isSome → ∀ text, files.Holds fileOf (fileOf path) text →
        (files.flushSink fileOf path).disk (fileOf path) = text) := by
  rw [flushSink]
  cases tracked : files.process.table.tracked path with
  | none => exact ⟨apart, fun _ _ => id, nofun⟩
  | some tracker =>
      have present := addressOf_of_tracked tracked
      refine ⟨apart.flush separate present, fun file text before =>
        before.flush separate apart present, fun _ text before => ?_⟩
      refine (before.flush separate apart present).disk_eq fun other there found names => ?_
      obtain rfl := apart.alone _ _ _ _ found present names
      obtain rfl := Option.some.inj (present.symm.trans found)
      exact Function.update_self ..

section Manage

variable {process : Process Id Path} (separate : files.process.table.Separate)
  (apart : files.Apart fileOf)

include separate apart

/-- A stream that is opened starts at the end of its empty file. -/
theorem truncate_spec {path : Path}
    (opensApart : ∀ other, fileOf other = fileOf path → files.process.table.tracked other = none)
    (addresses : process.table.addressOf = Function.update files.process.table.addressOf path
      (some files.process.table.nextAddress)) :
    Apart fileOf { files.truncate fileOf path files.process.table.nextAddress with
        process := process } ∧
      ∀ file text, files.Holds fileOf file text →
        Holds fileOf { files.truncate fileOf path files.process.table.nextAddress with
          process := process } file (reopened fileOf file text (some path)) := by
  have cases_of {other : Path} {there : ℕ} (found : process.table.addressOf other = some there) :
      (other = path ∧ there = files.process.table.nextAddress) ∨
        (fileOf other ≠ fileOf path ∧ there ≠ files.process.table.nextAddress ∧
          files.process.table.addressOf other = some there) := by
    rw [addresses, Function.update_apply] at found
    split at found
    next here => exact .inl ⟨here, (Option.some.inj found).symm⟩
    next =>
      refine .inr ⟨fun same => ?_, (separate.below _ _ found).ne, found⟩
      cases (addressOf_eq_none_iff.mpr (opensApart other same)).symm.trans found
  refine ⟨⟨fun first second one two isOne isTwo same => ?_, fun other there found => ?_⟩,
    fun file text holds => holds_iff.mpr ⟨fun other there found names => ?_, fun nowhere => ?_⟩⟩
  · rcases cases_of isOne with ⟨rfl, -⟩ | ⟨apartOne, -, before⟩
    · rcases cases_of isTwo with ⟨rfl, -⟩ | ⟨apartTwo, -, -⟩
      · rfl
      · exact (apartTwo same.symm).elim
    · rcases cases_of isTwo with ⟨rfl, -⟩ | ⟨-, -, before'⟩
      · exact (apartOne same).elim
      · exact apart.alone _ _ _ _ before before' same
  · dsimp only [truncate]
    rcases cases_of found with ⟨rfl, rfl⟩ | ⟨elsewhere, ne, before⟩
    · rw [Function.update_self, Function.update_self]
      rfl
    · rw [Function.update_of_ne ne, Function.update_of_ne elsewhere, apart.atEnd _ _ before]
  · dsimp only [truncate, reopened]
    rcases cases_of found with ⟨rfl, rfl⟩ | ⟨elsewhere, ne, before⟩
    · rw [if_pos names, names, Function.update_self, Function.update_self, String.append_empty]
    · rw [if_neg (names ▸ elsewhere.symm), Function.update_of_ne ne,
        Function.update_of_ne (names ▸ elsewhere)]
      exact (holds_iff.mp holds).1 other there before names
  · dsimp only [truncate, reopened]
    have elsewhere : fileOf path ≠ file := by
      intro names
      have gone := nowhere path names
      rw [addresses, Function.update_self] at gone
      cases gone
    rw [if_neg elsewhere, Function.update_of_ne elsewhere.symm]
    refine (holds_iff.mp holds).2 fun other names => ?_
    have gone := nowhere other names
    have ne : other ≠ path := by
      rintro rfl
      exact elsewhere names
    rwa [addresses, Function.update_of_ne ne] at gone

/-- A stream that is closed leaves everything in its file. -/
theorem close_spec {path : Path} {address : ℕ}
    (present : files.process.table.addressOf path = some address)
    (addresses : process.table.addressOf =
      Function.update files.process.table.addressOf path none) :
    Apart fileOf { files.flush fileOf path address with process := process } ∧
      ∀ file text, files.Holds fileOf file text →
        Holds fileOf { files.flush fileOf path address with process := process } file text := by
  have kept {other : Path} {there : ℕ} (found : process.table.addressOf other = some there) :
      files.process.table.addressOf other = some there := by
    rw [addresses, Function.update_apply] at found
    split at found
    next => cases found
    next => exact found
  have flushed := apart.flush separate present
  refine ⟨⟨fun first second one two isOne isTwo => flushed.alone _ _ _ _ (kept isOne) (kept isTwo),
    fun other there found => flushed.atEnd _ _ (kept found)⟩, fun file text holds => ?_⟩
  have moved := holds.flush separate apart present
  refine holds_iff.mpr ⟨fun other there found => (holds_iff.mp moved).1 _ _ (kept found),
    fun nowhere => moved.disk_eq fun other there found names => ?_⟩
  -- only the stream that has been closed is missing now, and it holds nothing back
  by_cases here : other = path
  · subst here
    obtain rfl := Option.some.inj (present.symm.trans found)
    exact Function.update_self ..
  · have gone := nowhere other names
    rw [addresses, Function.update_of_ne here] at gone
    cases gone.symm.trans found

variable [DecidableEq Id] {event : LogEvent Id Path}
  (changes : Process.ChangesStreams files.process event process.table)
  (opensApart : ∀ path, files.process.opened event = some path →
    ∀ other, fileOf other = fileOf path → files.process.table.tracked other = none)

include changes opensApart

/-- What an event does to the files goes with what it does to the streams. -/
theorem manage_spec :
    Apart fileOf { files.manage fileOf event with process := process } ∧
      ∀ file text, files.Holds fileOf file text →
        Holds fileOf { files.manage fileOf event with process := process } file
          (reopened fileOf file text (files.process.opened event)) := by
  rw [manage]
  cases changes with
  | opens path opened absent next addresses =>
      rw [opened]
      exact truncate_spec separate apart (opensApart path opened) addresses
  | closes path address opened released present next addresses =>
      rw [opened, released]
      exact close_spec separate apart present addresses
  | keeps opened released next addresses =>
      rw [opened, released]
      refine ⟨⟨addresses ▸ apart.alone, addresses ▸ apart.atEnd⟩, fun file text holds => ?_⟩
      exact holds_iff.mpr (addresses ▸ holds_iff.mp holds)

end Manage

variable [DecidableEq Id] [Inhabited Path] [ToString Path]

/-- The streams in the table are open and different. -/
structure Orderly (files : LogFiles Id Path File) : Prop where
  sound : files.process.table.Sound
  separate : files.process.table.Separate

/-- An event that is not about loggers leaves the table and the loggers alone, and one that is is a
step of the process. -/
theorem Step.process_cases {event : FileEvent Id Path} (taken : Step fileOf before event after) :
    (∃ managed, event = .manages managed ∧ Process.Step before.process managed after.process) ∨
      ((∀ managed, event ≠ .manages managed) ∧ after.process = before.process) := by
  cases taken with
  | manages taken => exact .inl ⟨_, rfl, taken⟩
  | logs | filters | spills => exact .inr ⟨nofun, rfl⟩
  | flushSink path => exact .inr ⟨nofun, process_flushSink fileOf before path⟩
  | flushAllSinks => exact .inr ⟨nofun, process_flushAllSinks fileOf before⟩

theorem Step.orderly {event : FileEvent Id Path} (taken : Step fileOf before event after)
    (orderly : before.Orderly) : after.Orderly := by
  rcases taken.process_cases with ⟨managed, rfl, step⟩ | ⟨-, same⟩
  · exact ⟨Process.sound_step orderly.sound step,
      (step.changesStreams orderly.sound).separate orderly.separate⟩
  · exact ⟨same ▸ orderly.sound, same ▸ orderly.separate⟩

/-- An event changes what the files hold as a reader of the history expects. -/
theorem Step.holds {event : FileEvent Id Path} (taken : Step fileOf before event after)
    (orderly : before.Orderly) (apart : before.Apart fileOf)
    (opensApart : OpensApart fileOf ⟨before, event, after⟩) :
    after.Apart fileOf ∧ ∀ file text, before.Holds fileOf file text →
      after.Holds fileOf file (logged fileOf file text ⟨before, event, after⟩) := by
  cases taken with
  | manages taken =>
      exact manage_spec orderly.separate apart (taken.changesStreams orderly.sound)
        fun path opened => opensApart _ path rfl opened
  | logs target sink calls tracked =>
      exact ⟨⟨apart.alone, apart.atEnd⟩, fun file text holds =>
        holds.write orderly.separate apart (addressOf_of_tracked tracked) _⟩
  | filters => exact ⟨apart, fun _ _ => id⟩
  | flushSink flushed =>
      obtain ⟨stillApart, holds, -⟩ := flushSink_spec orderly.separate apart flushed
      exact ⟨stillApart, holds⟩
  | flushAllSinks =>
      obtain ⟨stillApart, holds⟩ := flushAllSinks_spec orderly.separate apart
      exact ⟨stillApart, fun file text before => (holds file text before).1⟩
  | spills tracked split =>
      have present := addressOf_of_tracked tracked
      exact ⟨apart.spill orderly.separate present _ _, fun file text holds =>
        holds.spill orderly.separate apart present split⟩

/-- After a flush, what is held for a file is in it. -/
theorem Step.disk_of_flushes {event : FileEvent Id Path} (taken : Step fileOf before event after)
    (orderly : before.Orderly) (apart : before.Apart fileOf)
    (flushes : Flushes fileOf file ⟨before, event, after⟩) (holds : before.Holds fileOf file text) :
    after.disk file = text := by
  obtain all | ⟨path, one, rfl, tracked⟩ := flushes
  · obtain rfl : event = _ := all
    cases taken
    exact ((flushAllSinks_spec orderly.separate apart).2 file text holds).2
  · obtain rfl : event = _ := one
    cases taken
    exact (flushSink_spec orderly.separate apart path).2.2 tracked text holds

/-! ## Whose file a message goes to -/

omit [DecidableEq Path] [Inhabited Path] [ToString Path] in
/-- A message is written to the stream that the logger points to. -/
theorem sink_of_logCallable {logger : LeveledLogger Path} {level : UInt64} {printLevel : Bool}
    {text message : String} {address : ℕ}
    (calls : logger.logCallable level printLevel text = .ok (some (address, message))) :
    logger.sink = some address := by
  rw [LeveledLogger.logCallable] at calls
  split at calls
  next => cases calls
  next =>
    split at calls
    next => cases calls
    next sink points =>
      split at calls
      next =>
        split at calls
        next => cases calls
        next => cases calls; exact points
      next => cases calls; exact points

/-- The calls of a logger that write a message can be carried out, and write to one path only. -/
structure WritesTo (fileOf : Path → File) (files : LogFiles Id Path File) (id : Id)
    (live : LiveLogger Path) (path : Path) : Prop where
  possible : ∀ (logger : LeveledLogger Path) level printLevel text address message,
    logger.sink = live.logger.sink →
    logger.logCallable level printLevel text = .ok (some (address, message)) →
    ∃ after, Step fileOf files (.logs id path message) after
  only : ∀ other message after, Step fileOf files (.logs id other message) after → other = path

theorem writesTo_of_hasSink {id : Id} {live : LiveLogger Path} {path : Path}
    (separate : files.process.table.Separate)
    (target : files.process.loggers.lookup id = some live)
    (has : live.HasSink files.process.table) (initialized : live.initializedFor = some path) :
    files.WritesTo fileOf id live path := by
  obtain ⟨tracker, tracked, -, points⟩ := has path initialized
  constructor
  · intro logger level printLevel text address message sink calls
    have there := (sink.symm.trans (sink_of_logCallable calls)).symm.trans points
    obtain rfl := Option.some.inj there
    exact ⟨_, .logs target sink calls tracked⟩
  · intro other message after taken
    cases taken with
    | logs again sink calls trackedThere =>
        obtain rfl := Option.some.inj (target.symm.trans again)
        have there := addressOf_of_tracked trackedThere
        rw [← sink_of_logCallable calls, sink, points] at there
        exact separate.unique _ _ _ there (addressOf_of_tracked tracked)

/-- No logger that is destroyed takes the last reference to a path that another one is initialized
for. -/
def LeavesUsers (step : Transition (LogFiles Id Path File) (FileEvent Id Path)) : Prop :=
  ∀ managed, step.label = .manages managed →
    Process.LeavesUsers ⟨step.source.process, managed, step.target.process⟩

/-- The streams are open and different, and every live logger has its own. -/
structure Attached (files : LogFiles Id Path File) : Prop extends Orderly files where
  keeps : Process.KeepsSinks files.process

theorem Step.attached {event : FileEvent Id Path} (taken : Step fileOf before event after)
    (attached : before.Attached) (leaves : LeavesUsers ⟨before, event, after⟩) :
    after.Attached := by
  refine ⟨taken.orderly attached.toOrderly, ?_⟩
  rcases taken.process_cases with ⟨managed, labelled, step⟩ | ⟨-, same⟩
  · exact (Process.keepsSinks_step_iff attached.sound step attached.keeps).mpr
      (leaves managed labelled)
  · exact same ▸ attached.keeps

section History

variable {disk : File → String} {position : ℕ → ℕ} {pending : ℕ → String}
  {steps : List (Transition (LogFiles Id Path File) (FileEvent Id Path))}

omit [DecidableEq File] [DecidableEq Id] [ToString Path] in
theorem orderly_new : Orderly (⟨.new, disk, position, pending⟩ : LogFiles Id Path File) :=
  ⟨sound_new, SinkTable.separate_new⟩

theorem orderly_of_history
    (history : StepPath (Step fileOf) ⟨.new, disk, position, pending⟩ steps files) :
    files.Orderly :=
  history.invariant_of_step orderly_new fun _ _ _ before taken => taken.orderly before

theorem holds_of_history
    (history : StepPath (Step fileOf) ⟨.new, disk, position, pending⟩ steps files)
    (opensApart : ∀ step ∈ steps, OpensApart fileOf step) :
    files.Apart fileOf ∧
      ∀ file, files.Holds fileOf file (steps.foldl (logged fileOf file) (disk file)) := by
  induction history with
  | nil => exact ⟨⟨nofun, nofun⟩, fun file => ⟨nofun, fun _ => rfl⟩⟩
  | snoc earlier taken induction =>
      obtain ⟨before, last⟩ := List.forall_mem_append.mp opensApart
      obtain ⟨apart, held⟩ := induction before
      obtain ⟨stillApart, holds⟩ := taken.holds (orderly_of_history earlier) apart
        (List.forall_mem_singleton.mp last)
      refine ⟨stillApart, fun file => ?_⟩
      rw [List.foldl_append]
      exact holds file _ (held file)

/-- After a flush, everything that has been logged is in the file. -/
theorem disk_of_history
    (history : StepPath (Step fileOf) ⟨.new, disk, position, pending⟩ steps files)
    (opensApart : ∀ step ∈ steps, OpensApart fileOf step)
    {earlier : List (Transition (LogFiles Id Path File) (FileEvent Id Path))}
    {last : Transition (LogFiles Id Path File) (FileEvent Id Path)}
    (listed : steps = earlier ++ [last]) (flushes : Flushes fileOf file last) :
    files.disk file = steps.foldl (logged fileOf file) (disk file) := by
  subst listed
  obtain ⟨source, label, target⟩ := last
  obtain ⟨middle, before, final⟩ := history.of_append
  obtain ⟨rfl, taken, done⟩ := final.of_cons
  obtain rfl := done.nil_eq
  obtain ⟨apart, held⟩ := holds_of_history before (List.forall_mem_append.mp opensApart).1
  rw [taken.disk_of_flushes (orderly_of_history before) apart flushes (held file),
    List.foldl_append]
  -- a flush adds nothing to the text
  obtain all | ⟨path, one, -, -⟩ := flushes
  · obtain rfl : label = _ := all
    rfl
  · obtain rfl : label = _ := one
    rfl

end History

/-- Carry out an event, if it is possible.  Streams pass nothing on by themselves here. -/
def perform (fileOf : Path → File) (files : LogFiles Id Path File) :
    FileEvent Id Path → Option (LogFiles Id Path File)
  | .manages event =>
      (files.process.perform event).map fun after =>
        { files.manage fileOf event with process := after }
  | .logs id path message =>
      match files.process.loggers.lookup id, files.process.table.tracked path with
      | some live, some tracker =>
          if live.logger.sink = some tracker.sink.address then
            some (files.write tracker.sink.address message)
          else none
      | _, _ => none
  | .flushSink path => some (files.flushSink fileOf path)
  | .flushAllSinks => some (files.flushAllSinks fileOf)
  | _ => none

theorem step_of_perform (before : LogFiles Id Path File) (event : FileEvent Id Path)
    (after : LogFiles Id Path File) (performed : before.perform fileOf event = some after) :
    Step fileOf before event after := by
  cases event <;> simp only [perform] at performed
  case manages event =>
    obtain ⟨process, taken, rfl⟩ := Option.map_eq_some_iff.mp performed
    exact .manages (Process.step_of_perform _ _ _ taken)
  case logs id path message =>
    split at performed
    next live tracker target tracked =>
      split at performed
      next sink =>
        obtain rfl := Option.some.inj performed
        -- an enabled logger that writes every message and prints no level
        have calls : LeveledLogger.logCallable ⟨{ live.logger with isEnabled := true }, 0, []⟩ 0
            false message = .ok (some (tracker.sink.address, message)) := by
          rw [LeveledLogger.logCallable_of_reached rfl (UInt64.le_refl 0), sink]
          rfl
        exact .logs target rfl calls tracked
      next => cases performed
    next => cases performed
  case flushSink path => exact Option.some.inj performed ▸ .flushSink before path
  case flushAllSinks => exact Option.some.inj performed ▸ .flushAllSinks before
  all_goals cases performed

/-- Whether an event opens a stream for a file that another stream writes to. -/
def clashes (fileOf : Path → File) (files : LogFiles Id Path File) : FileEvent Id Path → Bool
  | .manages event =>
      match files.process.opened event with
      | none => false
      | some path =>
          files.process.table.sinkTracker.keys.any fun other => fileOf other = fileOf path
  | _ => false

/-- Events that open no stream for a file of another stream, carried out. -/
theorem step_of_guarded (fileOf : Path → File) (before : LogFiles Id Path File)
    (event : FileEvent Id Path) (after : LogFiles Id Path File)
    (performed : StepPath.guarded (fun files event => clashes fileOf files event = false)
      (perform fileOf) before event = some after) :
    Step fileOf before event after ∧ OpensApart fileOf ⟨before, event, after⟩ := by
  obtain ⟨calm, performed⟩ := StepPath.of_guarded before event after performed
  refine ⟨step_of_perform _ _ _ performed, fun managed path labelled opened other same => ?_⟩
  obtain rfl : event = _ := labelled
  dsimp only [clashes] at calm
  rw [opened] at calm
  by_contra somewhere
  have member := AList.lookup_isSome.mp (Option.isSome_iff_ne_none.mpr somewhere)
  exact absurd (decide_eq_true same) (List.any_eq_false.mp calm other member)

/-- Paths with the same first digit name one file.  Two loggers share a file that had something in
it.  Another file is truncated when a stream is opened for its second path, after the one for its
first path has been closed. -/
def sharedAndRenamed : List (FileEvent ℕ ℕ) :=
  [.manages (.construct 0), .manages (.construct 1), .manages (.construct 2),
    .manages (.construct 3), .manages (.initializes 0 80 true),
    .manages (.initializes 1 80 false), .manages (.initializes 2 70 true), .logs 0 80 "one",
    .logs 2 70 "dropped", .logs 1 80 "two", .manages (.destroy 0), .manages (.destroy 2),
    .manages (.initializes 3 71 true), .logs 3 71 "new", .logs 1 80 "three", .flushAllSinks]

/-- Two paths of one file that are used at once: the second message is put over the first one. -/
example : (StepPath.performAll (perform (· / 10))
    (⟨.new, fun _ => "", fun _ => 0, fun _ => ""⟩ : LogFiles ℕ ℕ ℕ)
    [.manages (.construct 0), .manages (.construct 1), .manages (.initializes 0 70 true),
      .manages (.initializes 1 71 true), .logs 0 70 "three", .logs 1 71 "two", .flushSink 70,
      .flushSink 71]).map (fun files => files.disk 7) = some "twoee" := by decide +kernel

end LogFiles
end Simo
