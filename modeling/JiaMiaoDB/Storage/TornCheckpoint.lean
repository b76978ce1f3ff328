import JiaMiaoDB.Storage.CheckpointRoundTrip

/-!
# Checkpoint files that were cut off

No reader of the format looks ahead and the format ends with its last section, so a checkpoint file
that misses its last bytes does not decode: it counts as an empty checkpoint.
-/

set_option autoImplicit false

namespace JiaMiaoDB
open ByteFormat

variable {α : Type}

theorem tight_counted {r : PayloadReader α} (hr : Tight r) : Tight (readCounted r) := by
  unfold readCounted
  exact (Tight.le 4 ()).bind fun n => hr.many n

theorem tight_named {r : PayloadReader α} (hr : Tight r) : Tight (readNamed r) := by
  unfold readNamed
  exact (Tight.prefixed 2 ()).bind fun name => hr.bind fun a => Tight.pure _

theorem tight_table : Tight readTable := by
  unfold readTable
  exact (Tight.prefixed 2 ()).bind fun name => (tight_counted tight_columnDef).bind fun columns =>
    tight_i64.bind fun rowCount => Tight.pure _

theorem tight_rowEntry : Tight readRowEntry := by
  unfold readRowEntry
  exact tight_i64.bind fun rid => tight_row.bind fun row => Tight.pure _

theorem tight_index : Tight readIndex := by
  unfold readIndex
  exact (Tight.prefixed 2 ()).bind fun column =>
    (tight_counted (tight_named (tight_counted tight_i64))).bind fun entries => Tight.pure _

theorem tight_commonSegments (ckp : Checkpoint) : Tight (readCommonSegments ckp) := by
  unfold readCommonSegments
  refine (tight_counted tight_table).bind fun tables =>
    (tight_counted (tight_named (tight_counted tight_rowEntry))).bind fun rows =>
      (tight_counted (tight_named tight_i64)).bind fun counters =>
        (tight_counted (tight_named (tight_counted tight_index))).bind fun indexes => Tight.pure _

theorem tight_requireJson (text : Str) : Tight (requireJson text) := by
  unfold requireJson
  split
  · exact Tight.pure _
  · split
    · exact Tight.pure _
    · exact Tight.throw _

theorem tight_withBlobs (fmt : Nat) (ckp : Checkpoint) (clogBlob catalogBlob : Bytes) :
    Tight (withBlobs fmt ckp clogBlob catalogBlob) := by
  unfold withBlobs
  split
  · split
    · exact Tight.pure _
    · exact (tight_requireJson clogBlob).bind fun j => Tight.pure _
  · exact (tight_requireJson catalogBlob).bind fun catalogData =>
      (tight_requireJson clogBlob).bind fun clogEntries => Tight.pure _

theorem tight_checkpoint : Tight readCheckpoint := by
  unfold readCheckpoint
  exact (Tight.le 4 ()).bind fun fmt => (Tight.require _ _).bind fun _ =>
    tight_i64.bind fun version => tight_i64.bind fun lastSeq => tight_i64.bind fun timestamp =>
      tight_u32.bind fun nextXid => (tight_commonSegments _).bind fun ckp =>
        (Tight.prefixed 4 ()).bind fun clogBlob => (Tight.prefixed 4 ()).bind fun catalogBlob =>
          (tight_withBlobs fmt ckp clogBlob catalogBlob).bind fun ckp => Tight.pure _

/-! ### Files -/

theorem decodeAll_eq_some {r : PayloadReader α} {bytes : Bytes} {a : α}
    (h : decodeAll r bytes = some a) : r.run bytes = (.ok a, []) := by
  rw [decodeAll] at h
  rcases hrun : r.run bytes with ⟨e | b, rest⟩
  · rw [Prog.bind_error hrun] at h
    cases h
  · rw [Prog.bind_ok hrun, readEnd, bind_assoc, Prog.bind_ok (Prog.run_get rest)] at h
    by_cases hrest : rest.isEmpty = true
    · rw [Prog.bind_ok (Prog.run_require_true hrest rest)] at h
      cases h
      rw [List.isEmpty_iff.mp hrest]
    · rw [Prog.bind_error (Prog.run_require_false hrest rest)] at h
      cases h

/-- A checkpoint file without its last bytes. -/
theorem CheckpointManager.ofFile_take {ckp : Checkpoint} (h : ckp.Fits) (hb : ckp.Binary) {n : Nat}
    (hn : n < (save ckp).length) : ofFile ((save ckp).take n) = Checkpoint.empty := by
  have hlength : ((save ckp).take n).length = n := List.length_take_of_le (Nat.le_of_lt hn)
  rw [ofFile, hlength]
  by_cases hshort : n < magic.length
  · rw [if_pos hshort]
  · rw [if_neg hshort]
    have htake : (save ckp).take n = magic ++ (checkpointEncode ckp).take (n - magic.length) := by
      rw [save, List.take_append, List.take_of_length_le (Nat.le_of_not_lt hshort)]
    have hmagic : magic.isPrefixOf ((save ckp).take n) = true := by
      rw [htake, List.isPrefixOf_iff_prefix]
      exact List.prefix_append _ _
    have hdecode : checkpointDecode ((checkpointEncode ckp).take (n - magic.length)) = none := by
      cases hd : checkpointDecode ((checkpointEncode ckp).take (n - magic.length)) with
      | none => rfl
      | some out =>
        have hwhole := tight_checkpoint.isLocal.eq_of_prefix (reads_checkpoint h hb)
          (List.take_prefix _ _) (decodeAll_eq_some hd)
        have := congrArg List.length hwhole
        rw [save, List.length_append] at hn
        rw [List.length_take] at this
        omega
    rw [if_pos hmagic, htake, List.drop_left, hdecode]

end JiaMiaoDB
