import MqttServer.Http.Connection
import MqttServer.Lib.Run
import MqttServer.Lib.Stream

/-!
# `Common.TimerFile` — the record files

`CTimerFile` of `common/timer_file.cpp` writes records into files and changes the file when it has enough lines, when it is
large enough, or when the hour has changed. The hour is that of the clock now against that of the clock after the last
record, and both are read anew, so a record may be checked in one hour and stamped in the next; then the next record is not
seen to fall into another hour. Otherwise the files are what they should be, provided that their names are new and nothing
goes wrong on the disk (`timer_files_iff`). Whatever their names are, each file has its share of the records, in order, behind
what it held before (`Holds.writeData`).
-/

namespace MqttServer

open Lib

/-- The members of `struct tm` that are used. -/
structure Tm where
  year : Nat
  mon : Nat
  mday : Nat
  yday : Nat
  hour : Nat
  min : Nat
  sec : Nat
deriving DecidableEq, Repr

/-- What the successive calls of `time()` return, and `localtime_r`. -/
structure WallClock where
  time : Nat → Nat
  localtime : Nat → Tm

/-- What the calls of `stdio` do, by their number. An `fopen` succeeds or not. An `fwrite` takes all of a record into the
    buffer of the stream or only `some n` bytes, and `drain` bytes of the buffer go on to the disk; `fflush`, `fclose` and
    `fseek` bring all of the buffer to the disk or only `some n` bytes. -/
structure Stdio where
  fopen : Nat → Bool
  fwrite : Nat → Option Nat
  drain : Nat → Nat
  fflush : Nat → Option Nat

/-- Nothing goes wrong. -/
structure Stdio.Reliable (io : Stdio) : Prop where
  fopen : ∀ n, io.fopen n = true
  fwrite : ∀ n, io.fwrite n = none
  fflush : ∀ n, io.fflush n = none

/-- A disk on which nothing goes wrong. -/
def Stdio.calm : Stdio := { fopen := fun _ => true, fwrite := fun _ => none, drain := fun _ => 0, fflush := fun _ => none }

theorem Stdio.calm_reliable : calm.Reliable := ⟨fun _ => rfl, fun _ => rfl, fun _ => rfl⟩

/-- What `is_same_hour` compares. -/
def WallClock.hourOf (w : WallClock) (t : Nat) : Nat × Nat × Nat :=
  ((w.localtime t).year, (w.localtime t).yday, (w.localtime t).hour)

/-- `is_same_hour(t1, t2)`. -/
def isSameHour (w : WallClock) (t₁ t₂ : Nat) : Bool :=
  decide ((w.localtime t₁).year = (w.localtime t₂).year ∧ (w.localtime t₁).yday = (w.localtime t₂).yday ∧
    (w.localtime t₁).hour = (w.localtime t₂).hour)

theorem isSameHour_iff (w : WallClock) (t₁ t₂ : Nat) : isSameHour w t₁ t₂ = true ↔ w.hourOf t₁ = w.hourOf t₂ := by
  unfold isSameHour WallClock.hourOf
  rw [decide_eq_true_iff, Prod.mk.injEq, Prod.mk.injEq]

/-- `CTimerFileInfo`. -/
structure TimerFileInfo where
  filePrefix : ByteStr
  fileSuffix : ByteStr
  fileDir : ByteStr
  fileMaxSize : Nat
  fileMaxLine : Nat
  fileStartSeq : Nat

/-- A number as `%04d` or `%02d` prints it. -/
def padded (width n : Nat) : ByteStr := List.replicate (width - (decimal n).length) 0x30 ++ decimal n

/-- `format_date(tm_value)`. -/
def formatDate (tm : Tm) : ByteStr :=
  (padded 4 (tm.year + 1900) ++ text "_" ++ padded 2 (tm.mon + 1) ++ text "_" ++ padded 2 tm.mday ++ text "_" ++
    padded 2 tm.hour ++ text "_" ++ padded 2 tm.min ++ text "_" ++ padded 2 tm.sec).take 255

/-- The name of a file: `dir/prefix_date_seq.suffix`, cut off at 255 bytes. -/
def fileNameOf (info : TimerFileInfo) (tm : Tm) (seq : Nat) : ByteStr :=
  (cString info.fileDir ++ text "/" ++ cString info.filePrefix ++ text "_" ++ formatDate tm ++ text "_" ++
    padded 4 (seq % 10000) ++ text "." ++ cString info.fileSuffix).take 255

/-- A record that was written: the file, the bytes, the reading of the clock it was checked with, and the size of the file
    before. -/
structure RecordLine where
  file : ByteStr
  data : ByteStr
  check : Nat
  before : Nat
deriving DecidableEq, Repr

/-- `CTimerFile`, with the directory it writes to; `held` is the buffer of the open stream. `ticks` is how often the clock
    has been read, `calls` the number of the next call of `stdio`, `files` the files in the order of their creation, `lines`
    the records that were written so far and `lastCheck` the reading the last one was checked with. The number of lines
    stays below `file_max_line` before each write, so it does not wrap. -/
structure TimerFile where
  info : TimerFileInfo
  curFileLine : Nat := 0
  fileSeq : Nat
  lastWriteTime : Nat
  fileStream : Option ByteStr := none
  held : ByteStr := []
  ticks : Nat
  calls : Nat := 0
  dir : ByteStr → Option ByteStr
  files : List ByteStr := []
  lines : List RecordLine := []
  lastCheck : Nat := 0

namespace TimerFile

variable (w : WallClock) (io : Stdio) (s : TimerFile)

/-- The constructor. -/
def create (info : TimerFileInfo) (dir : ByteStr → Option ByteStr) : TimerFile :=
  { info, fileSeq := info.fileStartSeq, lastWriteTime := w.time 0, ticks := 1, dir }

/-- What a file holds on the disk. -/
def content (f : ByteStr) : ByteStr := (s.dir f).getD []

/-- The name that `gen_file_name()` makes next. -/
def nextName : ByteStr := fileNameOf s.info (w.localtime (w.time s.ticks)) s.fileSeq

/-- `fopen(name, "a")`. -/
def append (name : ByteStr) : TimerFile :=
  { s with
    fileStream := some name
    held := []
    dir := Function.update s.dir name (some (s.content name))
    files := if name ∈ s.files then s.files else s.files ++ [name] }

/-- `create_file()`. The number in the name is used up also when `fopen` fails. -/
def createFile : TimerFile :=
  let s' := { s with fileStream := none, ticks := s.ticks + 1, fileSeq := (s.fileSeq + 1) % 2 ^ 32, calls := s.calls + 1 }
  if io.fopen s.calls then s'.append (s.nextName w) else s'

/-- The open file and its buffer. -/
def stream (name : ByteStr) : Stream UInt8 := { out := s.content name, held := s.held }

/-- The state after a call of `stdio` on the open file. -/
def setStream (name : ByteStr) (t : Stream UInt8) : TimerFile :=
  { s with dir := Function.update s.dir name (some t.out), held := t.held, calls := s.calls + 1 }

/-- `fflush` of the open file, or what `fclose` and `fseek` do of it. -/
def flush : TimerFile :=
  match s.fileStream with
  | none => s
  | some name => s.setStream name ((s.stream name).flush (io.fflush s.calls))

/-- `fflush` and `fclose`. -/
def closeFile : TimerFile := { (s.flush io).flush io with fileStream := none, held := [] }

/-- The first `if` of `check_file()`. -/
def openFirst : TimerFile := if s.fileStream.isNone then s.createFile w io else s

/-- The size of the open file, with what is in the buffer. -/
def size : Nat := (s.fileStream.elim [] s.content).length + s.held.length

/-- The file has its lines, or its bytes. -/
def full : Bool := decide (s.curFileLine ≥ s.info.fileMaxLine ∨ s.size ≥ s.info.fileMaxSize)

/-- `create_file` at the end of the loop of `check_file()`: the hour is looked at only when the file is not full. -/
def mustChange : Bool := s.full || !isSameHour w (w.time s.ticks) s.lastWriteTime

/-- The state at the end of the loop: `fseek` was called if the size was looked at, and the clock has been read if the hour
    was. -/
def checked : TimerFile :=
  let s' := if s.curFileLine ≥ s.info.fileMaxLine then s else s.flush io
  if s.full then s' else { s' with ticks := s.ticks + 1 }

/-- The last `if` of `check_file()`. -/
def changeFile : TimerFile :=
  if s.mustChange w then { (s.checked io).closeFile io with curFileLine := 0 }.createFile w io else s.checked io

/-- `check_file()`. It returns `-1` when it leaves no file open. -/
def checkFile : TimerFile :=
  let o := s.openFirst w io
  if o.fileStream.isNone then o else o.changeFile w io

/-- The reading of the clock a record is checked with: that of the hour test, or that of the new name when the file is full. -/
def checkReading : Nat := w.time (s.openFirst w io).ticks

/-- What `fwrite` takes of the record. -/
def taken (data : ByteStr) : ByteStr :=
  match io.fwrite s.calls with
  | none => data
  | some n => data.take n

/-- `fwrite` to the open file. -/
def fwrite (name data : ByteStr) : TimerFile :=
  s.setStream name (((s.stream name).feed (s.taken io data)).release (io.drain s.calls))

/-- `write_data(data, len)`. It returns `-1` when there is no file, or when `fwrite` has not taken the whole record; the result
    of `fflush` is not looked at. -/
def writeData (data : ByteStr) : TimerFile :=
  let c := s.checkFile w io
  match c.fileStream with
  | none => c
  | some name =>
      if (c.taken io data).length = data.length then
        { (c.fwrite io name data).flush io with
          curFileLine := c.curFileLine + 1
          lastWriteTime := w.time c.ticks
          ticks := c.ticks + 1
          lines := c.lines ++ [⟨name, data, s.checkReading w io, c.size⟩]
          lastCheck := s.checkReading w io }
      else c.fwrite io name data

/-! ## What the files should be -/

/-- **The files**: one after the other they are the records in their order, none has too many lines, no record was added to a
    file that was large enough, and the records of a file were checked in one hour. -/
structure InOrder : Prop where
  whole : (s.files.map s.content).flatten = (s.lines.map RecordLine.data).flatten
  lines : ∀ f, (s.lines.filter fun r => r.file = f).length ≤ s.info.fileMaxLine
  size : ∀ r ∈ s.lines, r.before < s.info.fileMaxSize
  hours : ∀ r ∈ s.lines, ∀ r' ∈ s.lines, r.file = r'.file → w.hourOf r.check = w.hourOf r'.check

/-- Each file the write creates has a new name. -/
def NewNames (_ : ByteStr) : Prop :=
  (s.fileStream = none → s.dir (s.nextName w) = none) ∧
    ((s.openFirst w io).mustChange w = true →
      (s.openFirst w io).dir (((s.openFirst w io).checked io).nextName w) = none)

/-- The files may have a byte; and when the record goes into the file of the last one, that one was stamped in the hour it
    was checked in. -/
def OnTheHour (_ : ByteStr) : Prop :=
  1 ≤ s.info.fileMaxSize ∧
    ((s.openFirst w io).mustChange w = false → s.curFileLine ≠ 0 → w.hourOf s.lastCheck = w.hourOf s.lastWriteTime)

/-! ## The invariant -/

/-- The records in a file. -/
def count (f : ByteStr) : Nat := (s.lines.filter fun r => r.file = f).length

/-- The open file is there, and nothing is in its buffer. -/
structure Flushed : Prop where
  held : s.held = []
  there : ∀ n, s.fileStream = some n → s.dir n ≠ none

/-- The files are in order; the open file is the last one, with the lines that are counted, and its records were checked in
    the hour of the last record. -/
structure Kept : Prop extends InOrder w s where
  opened : ∀ n, s.fileStream = some n → (∃ pre, s.files = pre ++ [n] ∧ n ∉ pre) ∧ s.count n = s.curFileLine ∧
    ∀ r ∈ s.lines, r.file = n → w.hourOf r.check = w.hourOf s.lastCheck
  closed : s.fileStream = none → s.curFileLine = 0
  exist : ∀ f ∈ s.files, s.dir f ≠ none
  known : ∀ r ∈ s.lines, r.file ∈ s.files
  flushed : Flushed s

variable {w io s}

/-! ## Calls of `stdio` that succeed -/

/-- To flush an empty buffer changes nothing. -/
theorem Flushed.flush (h : Flushed s) (io : Stdio) : ∃ calls, s.flush io = { s with calls } := by
  rcases Option.eq_none_or_eq_some s.fileStream with hs | ⟨n, hs⟩
  · have hflush : s.flush io = s := by
      unfold TimerFile.flush
      rw [hs]
    exact ⟨s.calls, hflush⟩
  · obtain ⟨bytes, hbytes⟩ := Option.ne_none_iff_exists'.mp (h.there n hs)
    have hsame : Function.update s.dir n (some (s.content n)) = s.dir := by
      unfold content
      rw [hbytes]
      show Function.update s.dir n (some bytes) = _
      rw [← hbytes, Function.update_eq_self]
    have hflush : s.flush io = s.setStream n (s.stream n) := by
      unfold TimerFile.flush
      rw [hs]
      exact congrArg (s.setStream n) (Stream.flush_empty h.held _)
    refine ⟨s.calls + 1, ?_⟩
    rw [hflush]
    show { s with dir := Function.update s.dir n (some (s.content n)), calls := s.calls + 1 } = _
    rw [hsame]

theorem Flushed.closeFile (h : Flushed s) (io : Stdio) : ∃ calls, s.closeFile io = { s with calls, fileStream := none, held := [] } := by
  obtain ⟨n, hn⟩ := h.flush io
  obtain ⟨n', hn'⟩ := Flushed.flush (s := { s with calls := n }) ⟨h.held, h.there⟩ io
  unfold TimerFile.closeFile
  rw [hn, hn']
  exact ⟨n', rfl⟩

theorem Flushed.checked (h : Flushed s) (io : Stdio) :
    ∃ calls, s.checked io = { s with calls, ticks := if s.full then s.ticks else s.ticks + 1 } := by
  obtain ⟨n, hn⟩ : ∃ n, (if s.curFileLine ≥ s.info.fileMaxLine then s else s.flush io) = { s with calls := n } := by
    split
    · exact ⟨s.calls, rfl⟩
    · exact h.flush io
  unfold TimerFile.checked
  simp only
  rw [hn]
  refine ⟨n, ?_⟩
  split <;> rfl

theorem createFile_eq (hio : io.Reliable) : s.createFile w io =
    ({ s with fileStream := none, ticks := s.ticks + 1, fileSeq := (s.fileSeq + 1) % 2 ^ 32,
              calls := s.calls + 1 } : TimerFile).append (s.nextName w) := if_pos (hio.fopen _)

/-- A record that is written and flushed is on the disk. -/
theorem flush_fwrite {n : ByteStr} (data : ByteStr) (hio : io.Reliable) (hheld : s.held = [])
    (hs : s.fileStream = some n) :
    ∃ calls, (s.fwrite io n data).flush io =
      { s with dir := Function.update s.dir n (some (s.content n ++ data)), held := [], calls } := by
  obtain ⟨t, ht⟩ : ∃ t, t = ((s.stream n).feed (s.taken io data)).release (io.drain s.calls) := ⟨_, rfl⟩
  have hwhole : t.whole = s.content n ++ data := by
    have htaken : s.taken io data = data := by
      unfold taken
      rw [hio.fwrite]
    have hold : (s.stream n).whole = s.content n := by
      show s.content n ++ s.held = _
      rw [hheld, List.append_nil]
    rw [ht, Stream.whole_release, Stream.whole_feed, hold, htaken]
  have hstream : (s.setStream n t).stream n = t := by
    unfold stream content setStream
    simp only
    rw [Function.update_self]
    rfl
  unfold TimerFile.fwrite
  rw [← ht]
  unfold TimerFile.flush
  have hopen : (s.setStream n t).fileStream = some n := hs
  simp only [hopen]
  rw [hstream, hio.fflush, Stream.flush_none, hwhole]
  refine ⟨s.calls + 1 + 1, ?_⟩
  unfold setStream
  simp only
  rw [Function.update_idem]

theorem Kept.create (info : TimerFileInfo) (dir : ByteStr → Option ByteStr) : Kept w (create w info dir) where
  whole := rfl
  lines _ := Nat.zero_le _
  size _ h := absurd h List.not_mem_nil
  hours _ h := absurd h List.not_mem_nil
  opened _ h := by cases h
  closed _ := rfl
  exist _ h := absurd h List.not_mem_nil
  known _ h := absurd h List.not_mem_nil
  flushed := ⟨rfl, fun _ h => by cases h⟩

/-- **A new file** is empty, and the last one. -/
theorem Kept.createFile (h : Kept w s) (hio : io.Reliable) (hline : s.curFileLine = 0) (hnew : s.dir (s.nextName w) = none) :
    Kept w (s.createFile w io) ∧ (s.createFile w io).size = 0 ∧ (s.createFile w io).fileStream = some (s.nextName w) ∧
      (s.createFile w io).count (s.nextName w) = 0 := by
  rw [createFile_eq hio]
  obtain ⟨n, hn⟩ : ∃ n, n = s.nextName w := ⟨_, rfl⟩
  rw [← hn] at hnew ⊢
  have hfresh : n ∉ s.files := fun hin => h.exist n hin hnew
  have hnone : ∀ r ∈ s.lines, r.file ≠ n := fun r hr he => hfresh (he ▸ h.known r hr)
  have hempty : s.content n = [] := by
    unfold TimerFile.content
    rw [hnew]
    rfl
  obtain ⟨s', hs'⟩ : ∃ s' : TimerFile, s' = { s with
      fileStream := some n, held := [], ticks := s.ticks + 1, fileSeq := (s.fileSeq + 1) % 2 ^ 32, calls := s.calls + 1
      dir := Function.update s.dir n (some []), files := s.files ++ [n] } := ⟨_, rfl⟩
  have hcreated : ({ s with fileStream := none, ticks := s.ticks + 1, fileSeq := (s.fileSeq + 1) % 2 ^ 32,
                            calls := s.calls + 1 } : TimerFile).append n = s' := by
    rw [hs']
    unfold append
    simp only
    rw [if_neg hfresh]
    show { s with
      fileStream := some n, held := [], ticks := s.ticks + 1, fileSeq := (s.fileSeq + 1) % 2 ^ 32, calls := s.calls + 1
      dir := Function.update s.dir n (some (s.content n)), files := s.files ++ [n] } = _
    rw [hempty]
  rw [hcreated]
  have hfiles : s'.files = s.files ++ [n] := by rw [hs']
  have hstream : s'.fileStream = some n := by rw [hs']
  have hdir : s'.dir = Function.update s.dir n (some []) := by rw [hs']
  have hlines : s'.lines = s.lines := by rw [hs']
  have hcontent : ∀ f ∈ s.files, s'.content f = s.content f := by
    intro f hf
    have hne : f ≠ n := fun he => hfresh (he ▸ hf)
    unfold TimerFile.content
    rw [hdir, Function.update_of_ne hne]
  have hself : s'.content n = [] := by
    unfold TimerFile.content
    rw [hdir, Function.update_self]
    rfl
  have hcount : s'.count n = 0 := by
    unfold count
    rw [hlines, List.length_eq_zero_iff, List.filter_eq_nil_iff]
    exact fun r hr he => hnone r hr (of_decide_eq_true he)
  have hinfo : s'.info = s.info := by rw [hs']
  have hthere : ∀ f, f ∈ s.files ∨ f = n → s'.dir f ≠ none := by
    intro f hf
    rw [hdir]
    by_cases he : f = n
    · rw [he, Function.update_self]
      exact Option.some_ne_none _
    · rw [Function.update_of_ne he]
      exact h.exist f (hf.resolve_right he)
  refine ⟨{ whole := ?_, lines := fun f => ?_, size := fun r hr => ?_, hours := fun r hr r' hr' => ?_,
            opened := fun n' hn' => ?_, closed := fun hc => ?_, exist := fun f hf => ?_, known := fun r hr => ?_,
            flushed := ⟨by rw [hs'], fun n' hn' => ?_⟩ }, ?_, hstream, hcount⟩
  · rw [hfiles, hlines, List.map_append, List.flatten_append, List.map_congr_left hcontent]
    show _ ++ [s'.content n].flatten = _
    rw [hself, h.whole]
    exact List.append_nil _
  · rw [hlines, hinfo]
    exact h.lines f
  · rw [hlines] at hr
    rw [hinfo]
    exact h.size r hr
  · rw [hlines] at hr hr'
    exact h.hours r hr r' hr'
  · rw [hstream] at hn'
    cases hn'
    refine ⟨⟨s.files, hfiles, hfresh⟩, ?_, fun r hr he => absurd he (hnone r (hlines ▸ hr))⟩
    rw [hcount, hs']
    exact hline.symm
  · rw [hstream] at hc
    cases hc
  · rw [hfiles] at hf
    exact hthere f ((List.mem_append.mp hf).imp_right List.mem_singleton.mp)
  · rw [hfiles]
    exact List.mem_append_left _ (h.known r (hlines ▸ hr))
  · rw [hstream] at hn'
    cases hn'
    exact hthere n (Or.inr rfl)
  · have hheld : s'.held = [] := by rw [hs']
    unfold TimerFile.size
    rw [hstream, hheld]
    show (s'.content n).length + 0 = 0
    rw [hself]
    rfl

/-- What the clock, the stream and the count of a state are does not matter to the files. -/
theorem Kept.reset (h : Kept w s) (ticks calls : Nat) :
    Kept w { s with ticks, calls, fileStream := none, held := [], curFileLine := 0 } where
  whole := h.whole
  lines := h.lines
  size := h.size
  hours := h.hours
  opened _ hn := by cases hn
  closed _ := rfl
  exist := h.exist
  known := h.known
  flushed := ⟨rfl, fun _ hn => by cases hn⟩

theorem Kept.tick (h : Kept w s) (ticks calls : Nat) : Kept w { s with ticks, calls } where
  whole := h.whole
  lines := h.lines
  size := h.size
  hours := h.hours
  opened := h.opened
  closed := h.closed
  exist := h.exist
  known := h.known
  flushed := ⟨h.flushed.held, h.flushed.there⟩

/-- The members a write does not touch before the record is written. -/
structure SameStamps (s s' : TimerFile) : Prop where
  info : s'.info = s.info
  lines : s'.lines = s.lines
  lastCheck : s'.lastCheck = s.lastCheck
  lastWriteTime : s'.lastWriteTime = s.lastWriteTime

theorem Kept.openFirst {data : ByteStr} (h : Kept w s) (hio : io.Reliable) (hnew : NewNames w io s data) :
    Kept w (s.openFirst w io) ∧ (∃ n, (s.openFirst w io).fileStream = some n) ∧
      (s.openFirst w io).curFileLine = s.curFileLine ∧ SameStamps s (s.openFirst w io) := by
  unfold TimerFile.openFirst
  cases hs : s.fileStream with
  | none =>
      rw [if_pos (show (none : Option ByteStr).isNone = true from rfl)]
      obtain ⟨hk, -, hstream, -⟩ := h.createFile hio (h.closed hs) (hnew.1 hs)
      refine ⟨hk, ⟨_, hstream⟩, ?_⟩
      rw [createFile_eq hio]
      exact ⟨rfl, rfl, rfl, rfl, rfl⟩
  | some n =>
      rw [if_neg (show ¬ (some n).isNone = true from fun hx => by cases hx)]
      exact ⟨h, ⟨n, hs⟩, rfl, rfl, rfl, rfl, rfl⟩

/-- **After the check** a file is open that has room for a record: it is new, or its size is small enough and the hour is that
    of the last write. -/
theorem Kept.checkFile {data : ByteStr} (h : Kept w s) (hio : io.Reliable) (hnew : NewNames w io s data)
    (hline : 1 ≤ s.info.fileMaxLine) :
    Kept w (s.checkFile w io) ∧ SameStamps s (s.checkFile w io) ∧ (∃ n, (s.checkFile w io).fileStream = some n) ∧
      (s.checkFile w io).curFileLine < s.info.fileMaxLine ∧
      (((s.openFirst w io).mustChange w = true ∧ (s.checkFile w io).size = 0 ∧ (s.checkFile w io).curFileLine = 0) ∨
        ((s.openFirst w io).mustChange w = false ∧ (s.checkFile w io).size < s.info.fileMaxSize ∧
          (s.checkFile w io).curFileLine = s.curFileLine ∧ w.hourOf (s.checkReading w io) = w.hourOf s.lastWriteTime)) := by
  obtain ⟨hk, ⟨n, hstream⟩, hcur, hsame⟩ := h.openFirst hio hnew
  obtain ⟨o, ho⟩ : ∃ o, o = s.openFirst w io := ⟨_, rfl⟩
  unfold TimerFile.checkFile TimerFile.checkReading
  have hnext := hnew.2
  simp only
  rw [← ho] at hk hstream hcur hsame hnext ⊢
  rw [if_neg (by rw [hstream]; exact Bool.false_ne_true)]
  obtain ⟨calls, hchecked⟩ := hk.flushed.checked io
  unfold TimerFile.changeFile
  rw [hchecked] at hnext ⊢
  cases hmust : o.mustChange w with
  | true =>
      rw [if_pos rfl]
      obtain ⟨calls', hclosed⟩ := (hk.tick (if o.full then o.ticks else o.ticks + 1) calls).flushed.closeFile io
      rw [hclosed]
      obtain ⟨hkept, hsize, hopen, -⟩ := (hk.reset (if o.full then o.ticks else o.ticks + 1) calls').createFile hio rfl
        (hnext hmust)
      refine ⟨hkept, ?_, ⟨_, hopen⟩, ?_, Or.inl ⟨rfl, hsize, ?_⟩⟩
      · rw [createFile_eq hio]
        exact ⟨hsame.info, hsame.lines, hsame.lastCheck, hsame.lastWriteTime⟩
      · rw [createFile_eq hio]
        exact hline
      · rw [createFile_eq hio]
        rfl
  | false =>
      rw [if_neg Bool.false_ne_true]
      obtain ⟨hfull, hhour⟩ := Bool.or_eq_false_iff.mp hmust
      obtain ⟨hlines, hbytes⟩ := not_or.mp (of_decide_eq_false hfull)
      have hin : isSameHour w (w.time o.ticks) o.lastWriteTime = true := by
        rw [← Bool.not_eq_false']
        exact hhour
      refine ⟨hk.tick _ _, ⟨hsame.info, hsame.lines, hsame.lastCheck, hsame.lastWriteTime⟩, ⟨n, hstream⟩, ?_,
        Or.inr ⟨rfl, ?_, hcur, ?_⟩⟩
      · rw [← hsame.info]
        exact Nat.lt_of_not_le hlines
      · rw [← hsame.info]
        exact Nat.lt_of_not_le hbytes
      · rw [← hsame.lastWriteTime]
        exact (isSameHour_iff w _ _).mp hin

/-! ## A record -/

/-- `s'` is `o` with a record written to its open file `n`, checked with the reading `t`. -/
structure Written (o : TimerFile) (n data : ByteStr) (t : Nat) (s' : TimerFile) : Prop where
  info : s'.info = o.info
  files : s'.files = o.files
  fileStream : s'.fileStream = some n
  held : s'.held = []
  curFileLine : s'.curFileLine = o.curFileLine + 1
  dir : s'.dir = Function.update o.dir n (some (o.content n ++ data))
  lines : s'.lines = o.lines ++ [⟨n, data, t, o.size⟩]
  lastCheck : s'.lastCheck = t

theorem writeData_written {n data : ByteStr} (hio : io.Reliable) (hheld : (s.checkFile w io).held = [])
    (h : (s.checkFile w io).fileStream = some n) :
    Written (s.checkFile w io) n data (s.checkReading w io) (s.writeData w io data) := by
  have htaken : (s.checkFile w io).taken io data = data := by
    unfold taken
    rw [hio.fwrite]
  unfold TimerFile.writeData
  simp only [h]
  rw [htaken, if_pos rfl]
  obtain ⟨calls, hwrite⟩ := flush_fwrite data hio hheld h
  rw [hwrite]
  exact ⟨rfl, rfl, h, rfl, rfl, rfl, rfl, rfl⟩

namespace Written

variable {o s' : TimerFile} {n data : ByteStr} {t : Nat}

theorem content_of_ne (hw : Written o n data t s') {f : ByteStr} (hne : f ≠ n) : s'.content f = o.content f := by
  unfold TimerFile.content
  rw [hw.dir, Function.update_of_ne hne]

theorem content_self (hw : Written o n data t s') : s'.content n = o.content n ++ data := by
  unfold TimerFile.content
  rw [hw.dir, Function.update_self]
  rfl

theorem mem_lines (hw : Written o n data t s') {r : RecordLine} : r ∈ s'.lines ↔ r ∈ o.lines ∨ r = ⟨n, data, t, o.size⟩ := by
  rw [hw.lines, List.mem_append, List.mem_singleton]

theorem count_eq (hw : Written o n data t s') (f : ByteStr) : s'.count f = o.count f + if n = f then 1 else 0 := by
  unfold count
  rw [hw.lines, List.filter_append, List.length_append, List.filter_singleton]
  show o.count f + (bif decide (n = f) then _ else _ : List RecordLine).length = _
  by_cases hf : n = f
  · rw [decide_eq_true hf, if_pos hf]
    rfl
  · rw [decide_eq_false hf, if_neg hf]
    rfl

/-- The open file is the last one, so the record is the last one of all. -/
theorem whole (hw : Written o n data t s') (hk : Kept w o) (hopen : o.fileStream = some n) :
    (s'.files.map s'.content).flatten = (s'.lines.map RecordLine.data).flatten := by
  obtain ⟨⟨pre, hfiles, hnotin⟩, -, -⟩ := hk.opened n hopen
  have hcontent : ∀ f ∈ pre, s'.content f = o.content f := fun f hf => hw.content_of_ne fun he => hnotin (he ▸ hf)
  have hold := hk.whole
  rw [hfiles, List.map_append, List.flatten_append] at hold
  rw [hw.files, hfiles, hw.lines, List.map_append, List.flatten_append, List.map_congr_left hcontent, List.map_append,
    List.flatten_append, ← hold]
  show _ ++ [s'.content n].flatten = (_ ++ [o.content n].flatten) ++ [data].flatten
  rw [hw.content_self, List.append_assoc]
  simp only [List.flatten_singleton]

theorem bound (hw : Written o n data t s') (hk : Kept w o) (hopen : o.fileStream = some n)
    (hroom : o.curFileLine < o.info.fileMaxLine) (f : ByteStr) : s'.count f ≤ s'.info.fileMaxLine := by
  rw [hw.count_eq, hw.info]
  by_cases hf : n = f
  · rw [if_pos hf, ← hf, (hk.opened n hopen).2.1]
    exact hroom
  · rw [if_neg hf]
    exact hk.lines f

/-- **The files stay in order** when the file was small enough and its records were checked in the hour of this one. -/
theorem inOrder_iff (hw : Written o n data t s') (hk : Kept w o) (hopen : o.fileStream = some n)
    (hroom : o.curFileLine < o.info.fileMaxLine) :
    InOrder w s' ↔ o.size < o.info.fileMaxSize ∧ ∀ r ∈ o.lines, r.file = n → w.hourOf r.check = w.hourOf t := by
  have hlast : (⟨n, data, t, o.size⟩ : RecordLine) ∈ s'.lines := hw.mem_lines.mpr (Or.inr rfl)
  constructor
  · intro hord
    refine ⟨?_, fun r hr he => hord.hours r (hw.mem_lines.mpr (Or.inl hr)) _ hlast he⟩
    have hsize := hord.size _ hlast
    rwa [hw.info] at hsize
  · rintro ⟨hsmall, hall⟩
    refine ⟨hw.whole hk hopen, hw.bound hk hopen hroom, fun r hr => ?_, fun r hr r' hr' he => ?_⟩
    · rw [hw.info]
      rcases hw.mem_lines.mp hr with hr | rfl
      · exact hk.size r hr
      · exact hsmall
    · -- two old records, one of them the new one, or both
      rcases hw.mem_lines.mp hr with hr | rfl
      · rcases hw.mem_lines.mp hr' with hr' | rfl
        · exact hk.hours r hr r' hr' he
        · exact hall r hr he
      · rcases hw.mem_lines.mp hr' with hr' | rfl
        · exact (hall r' hr' he.symm).symm
        · rfl

/-- The rest of the invariant asks for nothing more. -/
theorem kept (hw : Written o n data t s') (hk : Kept w o) (hopen : o.fileStream = some n) (hord : InOrder w s')
    (hall : ∀ r ∈ o.lines, r.file = n → w.hourOf r.check = w.hourOf t) : Kept w s' := by
  obtain ⟨⟨pre, hfiles, hnotin⟩, hcount, -⟩ := hk.opened n hopen
  refine { toInOrder := hord, opened := fun n' hn' => ?_, closed := fun hc => ?_, exist := fun f hf => ?_, known := fun r hr => ?_,
           flushed := ⟨hw.held, fun n' hn' => ?_⟩ }
  · rw [hw.fileStream] at hn'
    cases hn'
    refine ⟨⟨pre, hw.files.trans hfiles, hnotin⟩, ?_, fun r hr he => ?_⟩
    · rw [hw.count_eq, if_pos rfl, hcount, hw.curFileLine]
    · rw [hw.lastCheck]
      rcases hw.mem_lines.mp hr with hr | rfl
      · exact hall r hr he
      · rfl
  · rw [hw.fileStream] at hc
    cases hc
  · rw [hw.dir]
    by_cases he : f = n
    · rw [he, Function.update_self]
      exact Option.some_ne_none _
    · rw [Function.update_of_ne he]
      exact hk.exist f (hw.files ▸ hf)
  · rw [hw.files]
    rcases hw.mem_lines.mp hr with hr | rfl
    · exact hk.known r hr
    · rw [hfiles]
      exact List.mem_append_right _ (List.mem_singleton.mpr rfl)
  · rw [hw.fileStream] at hn'
    cases hn'
    rw [hw.dir, Function.update_self]
    exact Option.some_ne_none _

end Written

/-- The records of the open file were checked in the hour of the new one: the file is new, or it was stamped in that hour. -/
theorem Kept.hours_iff {o : TimerFile} {n : ByteStr} {t : Nat} (hk : Kept w o) (hopen : o.fileStream = some n)
    (hlast : o.lastCheck = s.lastCheck)
    (hcases : ((s.openFirst w io).mustChange w = true ∧ o.size = 0 ∧ o.curFileLine = 0) ∨
      ((s.openFirst w io).mustChange w = false ∧ o.size < s.info.fileMaxSize ∧ o.curFileLine = s.curFileLine ∧
        w.hourOf t = w.hourOf s.lastWriteTime)) :
    (∀ r ∈ o.lines, r.file = n → w.hourOf r.check = w.hourOf t) ↔
      ((s.openFirst w io).mustChange w = false → s.curFileLine ≠ 0 → w.hourOf s.lastCheck = w.hourOf s.lastWriteTime) := by
  obtain ⟨-, hcount, hhours⟩ := hk.opened n hopen
  rcases hcases with ⟨hmust, -, hcur⟩ | ⟨hmust, -, hcur, hhour⟩
  · rw [hmust]
    refine iff_of_true (fun r hr he => ?_) fun hx => by cases hx
    rw [hcur] at hcount
    have hnil := List.filter_eq_nil_iff.mp (List.length_eq_zero_iff.mp hcount) r hr
    exact absurd (decide_eq_true he) hnil
  · rw [hmust, hhour]
    constructor
    · intro hall _ hne
      rw [← hcur, ← hcount] at hne
      obtain ⟨r, hr⟩ := List.exists_mem_of_ne_nil _ fun hnil => hne (List.length_eq_zero_iff.mpr hnil)
      obtain ⟨hr, he⟩ := List.mem_filter.mp hr
      have hsame := hhours r hr (of_decide_eq_true he)
      rw [hall r hr (of_decide_eq_true he), hlast] at hsame
      exact hsame.symm
    · intro hstamp r hr he
      have hne : s.curFileLine ≠ 0 := by
        rw [← hcur, ← hcount]
        exact Nat.ne_of_gt (List.length_pos_of_mem (List.mem_filter.mpr ⟨hr, decide_eq_true he⟩))
      rw [hhours r hr he, hlast]
      exact hstamp rfl hne

/-- **A write** keeps the files in order exactly when it is on the hour. -/
theorem Kept.writeData {data : ByteStr} (h : Kept w s) (hio : io.Reliable) (hnew : NewNames w io s data)
    (hline : 1 ≤ s.info.fileMaxLine) :
    (InOrder w (s.writeData w io data) ↔ OnTheHour w io s data) ∧
      (OnTheHour w io s data → Kept w (s.writeData w io data)) ∧ (s.writeData w io data).info = s.info := by
  obtain ⟨hk, hsame, ⟨n, hopen⟩, hroom, hcases⟩ := h.checkFile hio hnew hline
  have hw := @writeData_written w io s n data hio hk.flushed.held hopen
  have hhours := hk.hours_iff hopen hsame.lastCheck hcases
  have hsize : (s.checkFile w io).size < s.info.fileMaxSize ↔ 1 ≤ s.info.fileMaxSize := by
    rcases hcases with ⟨-, hzero, -⟩ | ⟨-, hsmall, -⟩
    · rw [hzero]
      exact Iff.rfl
    · exact iff_of_true hsmall (Nat.one_le_of_lt hsmall)
  rw [← hsame.info] at hroom
  have horder : InOrder w (s.writeData w io data) ↔ OnTheHour w io s data := by
    unfold OnTheHour
    rw [hw.inOrder_iff hk hopen hroom, ← hhours, ← hsize, hsame.info]
  exact ⟨horder, fun hhour => hw.kept hk hopen (horder.mpr hhour) (hhours.mpr hhour.2), hw.info.trans hsame.info⟩

/-- **The files are in order after every write exactly when**, their names being new and nothing going wrong on the disk,
    every write is on the hour and a file may have a byte. -/
theorem timer_files_iff (w : WallClock) (io : Stdio) (info : TimerFileInfo) (dir : ByteStr → Option ByteStr)
    (records : List ByteStr) (hio : io.Reliable) (hline : 1 ≤ info.fileMaxLine)
    (hnew : Along (writeData w io) (NewNames w io) (create w info dir) records) :
    Along (writeData w io) (fun s data => InOrder w (s.writeData w io data)) (create w info dir) records ↔
      Along (writeData w io) (OnTheHour w io) (create w info dir) records := by
  refine along_iff (I := fun s => Kept w s ∧ 1 ≤ s.info.fileMaxLine) (fun s data hs hnew => ?_) records _
    ⟨Kept.create info dir, hline⟩ hnew
  obtain ⟨hk, hline⟩ := hs
  obtain ⟨hiff, hkeep, hinfo⟩ := hk.writeData hio hnew hline
  exact ⟨hiff, fun hhour => ⟨hkeep hhour, hinfo ▸ hline⟩⟩

/-! ## What the files hold -/

/-- **The files hold these records**: each was put into a file, and each file has its own, in order, behind what it held at the
    start. -/
def Holds (dir : ByteStr → Option ByteStr) (s : TimerFile) (records : List ByteStr) : Prop :=
  ∃ placed : List (ByteStr × ByteStr), placed.map Prod.snd = records ∧
    ∀ f, s.content f = (dir f).getD [] ++ ((placed.filter fun p => p.1 = f).map Prod.snd).flatten

/-- `s'` is `s` with a file open, and nothing else done to the files. -/
structure Opens (s s' : TimerFile) : Prop where
  flushed : Flushed s'
  opened : ∃ n, s'.fileStream = some n
  content : ∀ f, s'.content f = s.content f
  lines : s'.lines = s.lines

theorem Opens.createFile (hio : io.Reliable) (s : TimerFile) : Opens s (s.createFile w io) := by
  rw [createFile_eq hio]
  obtain ⟨n, hn⟩ : ∃ n, n = s.nextName w := ⟨_, rfl⟩
  rw [← hn]
  refine ⟨⟨rfl, fun n' hn' => ?_⟩, ⟨n, rfl⟩, fun f => ?_, rfl⟩
  · cases hn'
    show Function.update s.dir n (some (s.content n)) n ≠ none
    rw [Function.update_self]
    exact Option.some_ne_none _
  · show (Function.update s.dir n (some (s.content n)) f).getD [] = s.content f
    by_cases hf : f = n
    · rw [hf, Function.update_self]
      rfl
    · rw [Function.update_of_ne hf]
      rfl

theorem Flushed.openFirst (h : Flushed s) (hio : io.Reliable) : Opens s (s.openFirst w io) := by
  unfold TimerFile.openFirst
  rcases Option.eq_none_or_eq_some s.fileStream with hs | ⟨n, hs⟩
  · rw [if_pos (by rw [hs]; rfl)]
    exact Opens.createFile hio s
  · rw [if_neg (by rw [hs]; exact Bool.false_ne_true)]
    exact ⟨h, ⟨n, hs⟩, fun _ => rfl, rfl⟩

theorem Flushed.checkFile (h : Flushed s) (hio : io.Reliable) : Opens s (s.checkFile w io) := by
  have hfirst : Opens s (s.openFirst w io) := h.openFirst hio
  obtain ⟨o, ho⟩ : ∃ o, o = s.openFirst w io := ⟨_, rfl⟩
  rw [← ho] at hfirst
  obtain ⟨hflushed, ⟨n, hs⟩, hcontent, hlines⟩ := hfirst
  obtain ⟨calls, hchecked⟩ := hflushed.checked io
  unfold TimerFile.checkFile changeFile
  simp only
  rw [← ho, if_neg (by rw [hs]; exact Bool.false_ne_true), hchecked]
  split
  · -- the old file is closed with nothing in its buffer
    obtain ⟨calls', hclosed⟩ := Flushed.closeFile
      (s := { o with calls, ticks := if o.full then o.ticks else o.ticks + 1 }) ⟨hflushed.held, hflushed.there⟩ io
    rw [hclosed]
    obtain ⟨hnew, hopened, hsame, hkept⟩ := Opens.createFile (w := w) hio { o with
      calls := calls', ticks := if o.full then o.ticks else o.ticks + 1, fileStream := none, held := [], curFileLine := 0 }
    exact ⟨hnew, hopened, fun f => (hsame f).trans (hcontent f), hkept.trans hlines⟩
  · exact ⟨⟨hflushed.held, hflushed.there⟩, ⟨n, hs⟩, hcontent, hlines⟩

/-- **A write** puts the record behind what some file holds. -/
theorem Holds.writeData {dir : ByteStr → Option ByteStr} {records : List ByteStr} (h : Holds dir s records) (hf : Flushed s)
    (hio : io.Reliable) (data : ByteStr) :
    Holds dir (s.writeData w io data) (records ++ [data]) ∧ Flushed (s.writeData w io data) := by
  obtain ⟨hflushed, ⟨n, hopen⟩, hcontent, -⟩ := hf.checkFile (w := w) hio
  have hw := @writeData_written w io s n data hio hflushed.held hopen
  obtain ⟨placed, hplaced, hall⟩ := h
  refine ⟨⟨placed ++ [(n, data)], ?_, fun f => ?_⟩, hw.held, fun n' hn' => ?_⟩
  · rw [List.map_append, hplaced]
    rfl
  · rw [List.filter_append, List.map_append, List.flatten_append, ← List.append_assoc, ← hall, ← hcontent]
    by_cases hfile : n = f
    · rw [← hfile, hw.content_self]
      simp
    · rw [hw.content_of_ne (Ne.symm hfile)]
      simp [hfile]
  · rw [hw.fileStream] at hn'
    cases hn'
    rw [hw.dir, Function.update_self]
    exact Option.some_ne_none _

theorem Flushed.writeData_lines (hf : Flushed s) (hio : io.Reliable) (data : ByteStr) :
    (s.writeData w io data).lines.map RecordLine.data = s.lines.map RecordLine.data ++ [data] := by
  obtain ⟨hflushed, ⟨n, hopen⟩, -, hlines⟩ := hf.checkFile (w := w) hio
  rw [(writeData_written hio hflushed.held hopen).lines, hlines, List.map_append]
  rfl

/-- The destructor closes the file. -/
theorem Holds.closeFile {dir : ByteStr → Option ByteStr} {records : List ByteStr} (h : Holds dir s records) (hf : Flushed s)
    (io : Stdio) : Holds dir (s.closeFile io) records ∧ Flushed (s.closeFile io) := by
  obtain ⟨calls, hclosed⟩ := hf.closeFile io
  rw [hclosed]
  exact ⟨h, rfl, fun _ hn => by cases hn⟩

/-- Files of ten lines and a hundred bytes. -/
def smallFiles : TimerFileInfo :=
  { filePrefix := text "msg", fileSuffix := text "log", fileDir := text "data", fileMaxSize := 100, fileMaxLine := 10
    fileStartSeq := 0 }

/-- A clock that shows one second before the hour three times, and then the hour; there are no other days. -/
def hourClock : WallClock where
  time i := if i < 3 then 3599 else 3600
  localtime t := { year := 0, mon := 0, mday := 1, yday := 0, hour := t / 3600, min := t / 60 % 60, sec := t % 60 }

theorem hourClock_monotone : Monotone hourClock.time := by
  intro i j hij
  show (if i < 3 then 3599 else 3600) ≤ if j < 3 then 3599 else 3600
  by_cases hj : j < 3
  · rw [if_pos (Nat.lt_of_le_of_lt hij hj), if_pos hj]
  · rw [if_neg hj]
    split
    · exact Nat.le_succ _
    · exact Nat.le_refl _

/-- One record in one file. -/
theorem timer_files_one :
    Along (writeData hourClock .calm) (fun s data => InOrder hourClock (s.writeData hourClock .calm data))
      (create hourClock smallFiles fun _ => none) [text "a"] := by
  have hstays : ((create hourClock smallFiles fun _ => none).openFirst hourClock .calm).mustChange hourClock = false := by
    decide +kernel
  refine (timer_files_iff hourClock .calm smallFiles (fun _ => none) [text "a"] Stdio.calm_reliable (by decide) ?_).mpr ?_
  · exact ⟨⟨fun _ => rfl, fun hmust => absurd (hstays.symm.trans hmust) Bool.false_ne_true⟩, trivial⟩
  · exact ⟨⟨by decide, fun _ hne => absurd rfl hne⟩, trivial⟩

/-- **The hour changes inside a write.** The first record is checked before the hour and stamped behind it, so the second one
    goes into its file. -/
theorem not_timer_files : Monotone hourClock.time ∧
    Along (writeData hourClock .calm) (NewNames hourClock .calm) (create hourClock smallFiles fun _ => none) [text "a", text "b"] ∧
    ¬ Along (writeData hourClock .calm) (fun s data => InOrder hourClock (s.writeData hourClock .calm data))
      (create hourClock smallFiles fun _ => none) [text "a", text "b"] := by
  have hfirst : ((create hourClock smallFiles fun _ => none).openFirst hourClock .calm).mustChange hourClock = false := by
    decide +kernel
  have hsecond : (((create hourClock smallFiles fun _ => none).writeData hourClock .calm (text "a")).openFirst
      hourClock .calm).mustChange hourClock = false ∧
      ((create hourClock smallFiles fun _ => none).writeData hourClock .calm (text "a")).fileStream ≠ none := by
    decide +kernel
  have hlines : (((create hourClock smallFiles fun _ => none).writeData hourClock .calm (text "a")).writeData hourClock .calm
      (text "b")).lines =
      [⟨fileNameOf smallFiles (hourClock.localtime 3599) 0, text "a", 3599, 0⟩,
       ⟨fileNameOf smallFiles (hourClock.localtime 3599) 0, text "b", 3600, 1⟩] := by
    decide +kernel
  refine ⟨hourClock_monotone, ⟨⟨fun _ => rfl, fun hmust => ?_⟩, ⟨fun hnone => absurd hnone hsecond.2, fun hmust => ?_⟩, trivial⟩, ?_⟩
  · exact absurd (hfirst.symm.trans hmust) Bool.false_ne_true
  · exact absurd (hsecond.1.symm.trans hmust) Bool.false_ne_true
  · rintro ⟨-, hord, -⟩
    have hhours := hord.hours
    rw [hlines] at hhours
    have hsame := hhours _ List.mem_cons_self _ (List.mem_cons_of_mem _ List.mem_cons_self) rfl
    exact absurd hsame (by decide)

end TimerFile
end MqttServer
