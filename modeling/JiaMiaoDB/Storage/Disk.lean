import JiaMiaoDB.Storage.Checkpoint

/-! The data directory. Every write to it is an event; a crash leaves the state after some events
and the first bytes of the next one. -/

set_option autoImplicit false

namespace JiaMiaoDB
open ByteFormat

/-- The files of a data directory. A log that does not exist counts as empty. -/
structure Disk where
  checkpointBin : Option Bytes
  checkpointJson : Option Bytes
  walLog : Bytes
deriving DecidableEq

def Disk.empty : Disk := ⟨none, none, []⟩

/-- A write to one of the files. The checkpoint file and a rewritten log start empty. -/
inductive DiskEvent where
  | append (r : WALRecordV3)
  | saveCheckpoint (ckp : Checkpoint)
  | rewriteWal (kept : List WALRecordV3)

namespace DiskEvent

def bytes : DiskEvent → Bytes
  | append r => r.encode
  | saveCheckpoint ckp => CheckpointManager.save ckp
  | rewriteWal kept => encodeLog kept

/-- The disk when `written` has been written. -/
def write (written : Bytes) (d : Disk) : DiskEvent → Disk
  | append _ => { d with walLog := d.walLog ++ written }
  | saveCheckpoint _ => { d with checkpointBin := some written }
  | rewriteWal _ => { d with walLog := written }

def apply (d : Disk) (e : DiskEvent) : Disk := e.write e.bytes d

end DiskEvent

/-- A directory as an engine found it and what the engine has written since. -/
structure Dir where
  start : Disk
  journal : List DiskEvent

namespace Dir

def create (d : Disk) : Dir := ⟨d, []⟩

def disk (dir : Dir) : Disk := dir.journal.foldl DiskEvent.apply dir.start

def push (dir : Dir) (e : DiskEvent) : Dir := { dir with journal := dir.journal ++ [e] }

/-- What is left when the `k`-th event is cut off after `n` bytes, counted from zero. -/
def crash (dir : Dir) (k n : Nat) : Disk :=
  let before := (dir.journal.take k).foldl DiskEvent.apply dir.start
  match dir.journal[k]? with
  | some e => e.write (e.bytes.take n) before
  | none => before

@[simp] theorem push_start (dir : Dir) (e : DiskEvent) : (dir.push e).start = dir.start := rfl

@[simp] theorem push_journal (dir : Dir) (e : DiskEvent) :
    (dir.push e).journal = dir.journal ++ [e] := rfl

@[simp] theorem disk_push (dir : Dir) (e : DiskEvent) : (dir.push e).disk = e.apply dir.disk := by
  simp [disk, push, DiskEvent.apply]

theorem crash_push_last (dir : Dir) (ev : DiskEvent) (n : Nat) :
    (dir.push ev).crash dir.journal.length n = ev.write (ev.bytes.take n) dir.disk := by
  simp [crash, disk]

theorem crash_push_of_lt {dir : Dir} {k : Nat} (h : k < dir.journal.length) (ev : DiskEvent)
    (n : Nat) : (dir.push ev).crash k n = dir.crash k n := by
  simp [crash, List.take_append_of_le_length (Nat.le_of_lt h), List.getElem?_append_left h]

theorem crash_of_le {dir : Dir} {k : Nat} (h : dir.journal.length ≤ k) (n : Nat) :
    dir.crash k n = dir.disk := by
  simp [crash, disk, List.take_of_length_le h, List.getElem?_eq_none h]

end Dir

/-! ### The log writer -/

/-- `seq_`, the number of the last record written or read. -/
structure WriteAheadLogV3 where
  seq : Int64

namespace WriteAheadLogV3

/-- The records above `from`, and the writer having seen all of them. -/
def replay (w : WriteAheadLogV3) (d : Disk) (fromSeq : Int64) :
    List WALRecordV3 × WriteAheadLogV3 :=
  let records := readLog d.walLog
  (records.filter fun r => fromSeq < r.seq, ⟨records.foldl (fun s r => max s r.seq) w.seq⟩)

/-- The records that stay in the log, and the writer after it was rewritten. -/
def truncate (w : WriteAheadLogV3) (d : Disk) (cutoff : Int64) :
    List WALRecordV3 × WriteAheadLogV3 :=
  let kept := (replay ⟨0⟩ d cutoff).1
  (kept, match kept.getLast? with
    | some r => ⟨r.seq⟩
    | none => w)

/-- Replaying a log of whole records, cut off in the last one or not. -/
theorem replay_encodeLog {records : List WALRecordV3} (hfits : ∀ r ∈ records, r.Fits)
    {tail : Bytes} (ht : TornTail tail) {d : Disk} (hd : d.walLog = encodeLog records ++ tail)
    (w : WriteAheadLogV3) (fromSeq : Int64) :
    w.replay d fromSeq = (records.filter fun r => fromSeq < r.seq,
      ⟨records.foldl (fun s r => max s r.seq) w.seq⟩) := by
  rw [replay, hd, readLog_encodeLog hfits ht]

/-- Nothing is kept of a log whose records are all covered. -/
theorem truncate_covered {records : List WALRecordV3} (hfits : ∀ r ∈ records, r.Fits) {d : Disk}
    (hd : d.walLog = encodeLog records) {cutoff : Int64} (hseq : ∀ r ∈ records, r.seq ≤ cutoff)
    (w : WriteAheadLogV3) : w.truncate d cutoff = ([], w) := by
  have hnil : records.filter (fun r => cutoff < r.seq) = [] :=
    List.filter_eq_nil_iff.2 fun r hr => by simpa using Int64.not_lt.2 (hseq r hr)
  rw [truncate, replay_encodeLog hfits (.inl rfl) (by rw [hd, List.append_nil]), hnil]
  rfl

end WriteAheadLogV3

/-- A directory that only saw appended records. -/
theorem foldl_apply_append (records : List WALRecordV3) (d : Disk) :
    (records.map DiskEvent.append).foldl DiskEvent.apply d =
      { d with walLog := d.walLog ++ encodeLog records } := by
  induction records generalizing d with
  | nil => simp [encodeLog]
  | cons r records ih =>
    rw [List.map_cons, List.foldl_cons, ih]
    simp [DiskEvent.apply, DiskEvent.write, DiskEvent.bytes, encodeLog]

end JiaMiaoDB
