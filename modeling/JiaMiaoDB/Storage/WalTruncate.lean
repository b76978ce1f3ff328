import JiaMiaoDB.Storage.Disk

/-!
# Cutting the log

The calls of the log writer against the list of records in its file: an append adds one at the end,
a truncation keeps those above the cutoff, opening, closing and replaying change nothing.
-/

set_option autoImplicit false

namespace JiaMiaoDB

/-- The log writer with its append handle and the directory it writes to. -/
structure LogFile where
  wal : WriteAheadLogV3
  isOpen : Bool
  disk : Disk

namespace LogFile

/-- `O_CREAT`: a file that does not exist counts as empty already. -/
def openLog (f : LogFile) : LogFile := { f with isOpen := true }

def close (f : LogFile) : LogFile := { f with isOpen := false }

/-- Opens the handle when there is none; the handle always writes at the end of the file. -/
def append (r : WALRecordV3) (f : LogFile) : LogFile :=
  { wal := ⟨r.seq⟩, isOpen := true, disk := (DiskEvent.append r).apply f.disk }

def replay (fromSeq : Int64) (f : LogFile) : List WALRecordV3 × LogFile :=
  let (records, w) := f.wal.replay f.disk fromSeq
  (records, { f with wal := w })

/-- Closes the handle, writes the file anew and opens it for appending. -/
def truncate (cutoff : Int64) (f : LogFile) : LogFile :=
  let (kept, w) := f.wal.truncate f.disk cutoff
  { wal := w, isOpen := true, disk := (DiskEvent.rewriteWal kept).apply f.disk }

/-- The file holds these records and nothing else, and their lengths fit their fields. -/
structure Holds (f : LogFile) (records : List WALRecordV3) : Prop where
  file : f.disk.walLog = encodeLog records
  fits : ∀ r ∈ records, r.Fits

theorem Holds.replay {f : LogFile} {records : List WALRecordV3} (h : f.Holds records)
    (fromSeq : Int64) : (f.replay fromSeq).1 = records.filter fun r => fromSeq < r.seq := by
  have hd : f.disk.walLog = encodeLog records ++ [] := by rw [h.file, List.append_nil]
  unfold LogFile.replay
  rw [WriteAheadLogV3.replay_encodeLog h.fits (.inl rfl) hd]

theorem Holds.append {f : LogFile} {records : List WALRecordV3} (h : f.Holds records)
    {r : WALRecordV3} (hr : r.Fits) : (f.append r).Holds (records ++ [r]) := by
  constructor
  · have hfile : (f.append r).disk.walLog = f.disk.walLog ++ r.encode := rfl
    rw [hfile, h.file]
    simp only [encodeLog, List.flatMap_append, List.flatMap_cons, List.flatMap_nil, List.append_nil]
  · intro s hs
    rcases List.mem_append.mp hs with hs | hs
    · exact h.fits s hs
    · rw [List.mem_singleton.mp hs]
      exact hr

theorem Holds.truncate {f : LogFile} {records : List WALRecordV3} (h : f.Holds records)
    (cutoff : Int64) : (f.truncate cutoff).Holds (records.filter fun r => cutoff < r.seq) := by
  constructor
  · have hd : f.disk.walLog = encodeLog records ++ [] := by rw [h.file, List.append_nil]
    have hkept : (f.wal.truncate f.disk cutoff).1 = records.filter fun r => cutoff < r.seq := by
      unfold WriteAheadLogV3.truncate
      rw [WriteAheadLogV3.replay_encodeLog h.fits (.inl rfl) hd]
    have hfile : (f.truncate cutoff).disk.walLog =
        encodeLog (f.wal.truncate f.disk cutoff).1 := rfl
    rw [hfile, hkept]
  · intro r hr
    exact h.fits r (List.mem_of_mem_filter hr)

end LogFile

/-! ### Sequences of calls -/

inductive LogCall where
  | openLog
  | close
  | append (r : WALRecordV3)
  | replay (fromSeq : Int64)
  | truncate (cutoff : Int64)

namespace LogCall

def exec (f : LogFile) : LogCall → LogFile
  | openLog => f.openLog
  | close => f.close
  | append r => f.append r
  | replay fromSeq => (f.replay fromSeq).2
  | truncate cutoff => f.truncate cutoff

/-- What a call does to the list of records in the file. -/
def effect (records : List WALRecordV3) : LogCall → List WALRecordV3
  | append r => records ++ [r]
  | truncate cutoff => records.filter fun r => cutoff < r.seq
  | openLog | close | replay _ => records

def appended : LogCall → Option WALRecordV3
  | append r => some r
  | openLog | close | replay _ | truncate _ => none

def Truncates : LogCall → Prop
  | truncate _ => True
  | openLog | close | append _ | replay _ => False

instance : (c : LogCall) → Decidable c.Truncates
  | truncate _ => .isTrue trivial
  | openLog | close | append _ | replay _ => .isFalse not_false

theorem holds_exec {f : LogFile} {records : List WALRecordV3} (h : f.Holds records) {c : LogCall}
    (hc : ∀ r ∈ c.appended, r.Fits) : (c.exec f).Holds (c.effect records) := by
  cases c with
  | openLog => exact ⟨h.file, h.fits⟩
  | close => exact ⟨h.file, h.fits⟩
  | append r => exact h.append (hc r rfl)
  | replay fromSeq => exact ⟨h.file, h.fits⟩
  | truncate cutoff => exact h.truncate cutoff

/-- The file follows the list of records over any calls. -/
theorem holds_foldl {calls : List LogCall} (hcalls : ∀ c ∈ calls, ∀ r ∈ c.appended, r.Fits)
    {f : LogFile} {records : List WALRecordV3} (h : f.Holds records) :
    (calls.foldl exec f).Holds (calls.foldl effect records) := by
  induction calls generalizing f records with
  | nil => exact h
  | cons c calls ih =>
    have hnext := holds_exec h (hcalls c List.mem_cons_self)
    exact ih (fun d hd => hcalls d (List.mem_cons_of_mem _ hd)) hnext

/-- Without a truncation the list only grows, in the order of the appends. -/
theorem foldl_effect {calls : List LogCall} (h : ∀ c ∈ calls, ¬ c.Truncates)
    (records : List WALRecordV3) :
    calls.foldl effect records = records ++ calls.filterMap appended := by
  induction calls generalizing records with
  | nil => simp
  | cons c calls ih =>
    have hcalls : ∀ d ∈ calls, ¬ d.Truncates := fun d hd => h d (List.mem_cons_of_mem _ hd)
    rw [List.foldl_cons, ih hcalls]
    cases c with
    | append r => simp [effect, appended]
    | truncate cutoff => exact absurd trivial (h _ List.mem_cons_self)
    | openLog | close | replay => rfl

end LogCall

/-- After a truncation replay returns the records it returned before, less those up to the cutoff,
and behind them what was appended since. -/
theorem replay_after_truncate {f : LogFile} {records : List WALRecordV3} (h : f.Holds records)
    (cutoff fromSeq : Int64) (later : List LogCall) (hplain : ∀ c ∈ later, ¬ c.Truncates)
    (hfits : ∀ c ∈ later, ∀ r ∈ c.appended, r.Fits) :
    ((f.truncate cutoff).replay fromSeq).1 =
        (f.replay fromSeq).1.filter (fun r => cutoff < r.seq) ∧
      ((later.foldl LogCall.exec (f.truncate cutoff)).replay fromSeq).1 =
        (f.replay fromSeq).1.filter (fun r => cutoff < r.seq) ++
          (later.filterMap LogCall.appended).filter fun r => fromSeq < r.seq := by
  have hcut := h.truncate cutoff
  have hkept : (records.filter fun r => cutoff < r.seq).filter (fun r => fromSeq < r.seq) =
      (f.replay fromSeq).1.filter fun r => cutoff < r.seq := by
    rw [h.replay, List.filter_filter, List.filter_filter]
    simp only [Bool.and_comm]
  constructor
  · rw [hcut.replay, hkept]
  · rw [(LogCall.holds_foldl hfits hcut).replay, LogCall.foldl_effect hplain, List.filter_append,
      hkept]

/-- A log with its records out of order. -/
def unorderedLog : LogFile :=
  ⟨⟨0⟩, true, ⟨none, none, encodeLog [⟨5, 0, 4, [], 3, []⟩, ⟨2, 0, 4, [], 3, []⟩]⟩⟩

theorem holds_unorderedLog :
    unorderedLog.Holds [⟨5, 0, 4, [], 3, []⟩, ⟨2, 0, 4, [], 3, []⟩] := ⟨rfl, by decide⟩

/-- A cut between the two numbers, and another record. -/
theorem replay_unorderedLog :
    ((unorderedLog.truncate 3).replay 0).1 =
        (unorderedLog.replay 0).1.filter (fun r => (3 : Int64) < r.seq) ∧
      (([LogCall.close, .append ⟨6, 0, 4, [], 3, []⟩].foldl LogCall.exec
          (unorderedLog.truncate 3)).replay 0).1 =
        (unorderedLog.replay 0).1.filter (fun r => (3 : Int64) < r.seq) ++
          ([LogCall.close, .append ⟨6, 0, 4, [], 3, []⟩].filterMap LogCall.appended).filter
            fun r => (0 : Int64) < r.seq :=
  replay_after_truncate holds_unorderedLog 3 0 [.close, .append ⟨6, 0, 4, [], 3, []⟩]
    (by decide) (by decide)

end JiaMiaoDB
