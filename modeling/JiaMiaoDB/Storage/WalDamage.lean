import JiaMiaoDB.Storage.Disk

/-!
# Damaged log files

A log that was cut off, written on after it was cut off, or changed in one record. Reading passes
over damaged bytes when every place where it stops inside them fails its check. A place that
announces more bytes than there are ends the reading.
-/

set_option autoImplicit false

namespace JiaMiaoDB
open WALRecordV3 ByteFormat

/-! ### What a reader leaves -/

namespace WALRecordV3

/-- Reading never makes the input longer. -/
def Shrinks {α : Type} (r : Reader DecodeError α) : Prop :=
  ∀ bs a rest, r.run bs = (.ok a, rest) → rest.length ≤ bs.length

namespace Shrinks
variable {α β : Type}

theorem bind {r : Reader DecodeError α} {f : α → Reader DecodeError β} (hr : Shrinks r)
    (hf : ∀ a, Shrinks (f a)) : Shrinks (r >>= f) := by
  intro bs b rest h
  rw [Prog.run_bind] at h
  rcases hrun : r.run bs with ⟨e | a, mid⟩
  · rw [hrun] at h
    cases h
  · rw [hrun] at h
    exact Nat.le_trans (hf a mid b rest h) (hr bs a mid hrun)

theorem pure (a : α) : Shrinks (Pure.pure a) := by
  intro bs b rest h
  cases h
  exact Nat.le_refl _

theorem require (c : Prop) [Decidable c] (e : DecodeError) : Shrinks (Prog.require c e) := by
  intro bs u rest h
  by_cases hc : c
  · rw [Prog.run_require_true hc] at h
    cases h
    exact Nat.le_refl _
  · rw [Prog.run_require_false hc] at h
    cases h

theorem need (n : Nat) : Shrinks (WALRecordV3.need n) := by
  intro bs u rest h
  rw [WALRecordV3.need, Prog.bind_ok (Prog.run_get bs)] at h
  exact require _ _ bs u rest h

theorem bytes (n : Nat) (e : DecodeError) : Shrinks (readBytes n e) := by
  intro bs a rest h
  simp only [readBytes] at h
  split at h
  · rename_i front rest' hs
    cases h
    rw [(splitBytes_eq_some hs).1, List.length_append]
    omega
  · cases h

theorem le (n : Nat) (e : DecodeError) : Shrinks (readLE n e) := by
  rw [readLE, map_eq_pure_bind]
  exact (bytes n e).bind fun _ => pure _

theorem decodeBody : Shrinks decodeBody := by
  unfold WALRecordV3.decodeBody
  exact (need 26).bind fun _ => (bytes 4 _).bind fun _ => (require _ _).bind fun _ =>
    (le 2 _).bind fun _ => (require _ _).bind fun _ => (le 2 _).bind fun _ =>
      (le 8 _).bind fun _ => (le 8 _).bind fun _ => (le 2 _).bind fun tlen =>
        (need _).bind fun _ => (bytes tlen _).bind fun _ => (le 4 _).bind fun _ =>
          (le 4 _).bind fun dlen => (need _).bind fun _ => (bytes dlen _).bind fun _ => pure _

end Shrinks

theorem length_of_decode {buf rest : Bytes} {r : WALRecordV3} (h : decode buf = .ok (r, rest)) :
    rest.length < buf.length := by
  simp only [decode] at h
  rcases hbody : decodeBody.run buf with ⟨e | r', mid⟩
  · rw [hbody] at h
    cases h
  have hmid := Shrinks.decodeBody buf r' mid hbody
  rw [hbody] at h
  simp only [readLE, map_eq_pure_bind, Prog.run_bind, readBytes] at h
  cases hs : splitBytes 4 mid with
  | none =>
    rw [hs] at h
    cases h
  | some p =>
    rcases p with ⟨front, rest'⟩
    obtain ⟨rfl, hfront⟩ := splitBytes_eq_some hs
    rw [hs] at h
    simp only [Prog.run_pure] at h
    split at h
    · cases h
    · cases h
      rw [List.length_append] at hmid
      omega

end WALRecordV3

/-! ### The scan without fuel -/

theorem findMagic_eq_none {bs : Bytes} (h : findMagic bs = none) (k : Nat) :
    magic.isPrefixOf (bs.drop k) = false := by
  induction bs generalizing k with
  | nil => simp [magic]
  | cons b bs ih =>
    rw [findMagic] at h
    split at h
    · cases h
    · cases k with
      | zero => exact Bool.eq_false_iff.mpr ‹_›
      | succ k => exact ih h k

/-- The search stops at the first magic number. -/
theorem findMagic_eq_some {bs bs' : Bytes} (h : findMagic bs = some bs') :
    ∃ k, bs' = bs.drop k ∧ k ≤ bs.length ∧ magic.isPrefixOf bs' = true ∧
      ∀ j < k, magic.isPrefixOf (bs.drop j) = false := by
  induction bs with
  | nil => cases h
  | cons b bs ih =>
    rw [findMagic] at h
    split at h
    · cases h
      exact ⟨0, rfl, Nat.zero_le _, ‹_›, fun j hj => absurd hj (Nat.not_lt_zero j)⟩
    · obtain ⟨k, hk, hle, hm, hfirst⟩ := ih h
      refine ⟨k + 1, hk, by simpa using hle, hm, fun j hj => ?_⟩
      cases j with
      | zero => exact Bool.eq_false_iff.mpr ‹_›
      | succ j => exact hfirst j (by omega)

/-- Any fuel above the length gives the same records. -/
theorem scanRecords_fuel {fuel fuel' : Nat} {buf : Bytes} (h : buf.length < fuel)
    (h' : buf.length < fuel') : scanRecords fuel buf = scanRecords fuel' buf := by
  induction fuel generalizing fuel' buf with
  | zero => omega
  | succ fuel ih =>
    obtain ⟨fuel', rfl⟩ : ∃ n, fuel' = n + 1 := ⟨fuel' - 1, by omega⟩
    simp only [scanRecords]
    by_cases hempty : buf.isEmpty = true
    · simp only [if_pos hempty]
    · simp only [if_neg hempty]
      have hpos : 0 < buf.length := List.length_pos_of_ne_nil (by simpa using hempty)
      split
      · rfl
      · cases hf : findMagic buf.tail with
        | none => rfl
        | some buf' =>
          obtain ⟨k, rfl, -, -, -⟩ := findMagic_eq_some hf
          have hlen : (buf.tail.drop k).length < buf.length := by
            simp only [List.length_drop, List.length_tail]
            omega
          exact ih (by omega) (by omega)
      · rename_i r rest hd
        have := length_of_decode hd
        rw [ih (by omega : rest.length < fuel) (by omega : rest.length < fuel')]

/-- The records from some position of a file on. -/
def scan (buf : Bytes) : List WALRecordV3 := scanRecords (buf.length + 1) buf

@[simp] theorem scan_nil : scan [] = [] := rfl

theorem scan_incomplete {buf : Bytes} (h : decode buf = .error .incomplete) : scan buf = [] := by
  rw [scan, scanRecords]
  split
  · rfl
  · rw [h]

theorem scan_crcFailed {buf : Bytes} (h : decode buf = .error .crcFailed) :
    scan buf = (findMagic buf.tail).elim [] scan := by
  cases buf with
  | nil => rfl
  | cons b buf =>
    rw [scan, scanRecords, h]
    simp only [List.isEmpty_cons, Bool.false_eq_true, if_false, List.tail_cons]
    cases hf : findMagic buf with
    | none => rfl
    | some buf' =>
      obtain ⟨k, rfl, -, -, -⟩ := findMagic_eq_some hf
      refine scanRecords_fuel ?_ (Nat.lt_succ_self _)
      simp only [List.length_drop, List.length_cons]
      omega

theorem scan_encodeLog {records : List WALRecordV3} (h : ∀ r ∈ records, r.Fits) {tail : Bytes}
    (ht : TornTail tail) : scan (encodeLog records ++ tail) = records := by
  have hlen := length_le_encodeLog records
  obtain ⟨fuel, hfuel⟩ : ∃ fuel,
      (encodeLog records ++ tail).length + 1 = records.length + fuel := by
    refine ⟨(encodeLog records ++ tail).length + 1 - records.length, ?_⟩
    rw [List.length_append]
    omega
  rw [scan, hfuel, scanRecords_append h, scanRecords_tornTail ht, List.append_nil]

theorem scan_append {records : List WALRecordV3} (h : ∀ r ∈ records, r.Fits) (tail : Bytes) :
    scan (encodeLog records ++ tail) = records ++ scan tail := by
  have hlen := length_le_encodeLog records
  obtain ⟨fuel, hfuel⟩ : ∃ fuel,
      (encodeLog records ++ tail).length + 1 = records.length + fuel ∧ tail.length < fuel := by
    refine ⟨(encodeLog records ++ tail).length + 1 - records.length, ?_, ?_⟩ <;>
      rw [List.length_append] <;> omega
  rw [scan, hfuel.1, scanRecords_append h, scan, scanRecords_fuel hfuel.2 (Nat.lt_succ_self _)]

/-! ### Damaged bytes in front of whole records -/

/-- Where reading stops: at the front and, after a failed check, at the magic numbers. -/
def Stop (buf : Bytes) (p : Nat) : Prop := p = 0 ∨ magic.isPrefixOf (buf.drop p) = true

/-- Every stop among the first `n` bytes fails its check. -/
def Skipped (n : Nat) (buf : Bytes) : Prop :=
  ∀ p < n, Stop buf p → decode (buf.drop p) = .error .crcFailed

/-- No stop among the first `n` bytes holds a record. -/
def NoRecord (n : Nat) (buf : Bytes) : Prop :=
  ∀ p < n, Stop buf p → ∀ r rest, decode (buf.drop p) ≠ .ok (r, rest)

theorem stop_drop {buf : Bytes} {k p : Nat} (hk : magic.isPrefixOf (buf.drop k) = true)
    (h : Stop (buf.drop k) p) : Stop buf (k + p) := by
  right
  rcases h with rfl | h
  · exact hk
  · rwa [List.drop_drop] at h

theorem Skipped.drop {n k : Nat} {buf : Bytes} (h : Skipped n buf)
    (hk : magic.isPrefixOf (buf.drop k) = true) : Skipped (n - k) (buf.drop k) := by
  intro p hp hstop
  rw [List.drop_drop]
  exact h (k + p) (by omega) (stop_drop hk hstop)

theorem NoRecord.drop {n k : Nat} {buf : Bytes} (h : NoRecord n buf)
    (hk : magic.isPrefixOf (buf.drop k) = true) : NoRecord (n - k) (buf.drop k) := by
  intro p hp hstop
  rw [List.drop_drop]
  exact h (k + p) (by omega) (stop_drop hk hstop)

/-- Damaged bytes whose stops all fail their check are passed over. -/
theorem scan_drop_of_skipped {n : Nat} {buf : Bytes} (h : Skipped n buf)
    (hrest : buf.drop n = [] ∨ magic.isPrefixOf (buf.drop n) = true) :
    scan buf = scan (buf.drop n) := by
  induction n using Nat.strong_induction_on generalizing buf with
  | _ n ih =>
    cases n with
    | zero => rfl
    | succ n =>
      have hd : decode buf = .error .crcFailed := h 0 (Nat.succ_pos n) (Or.inl rfl)
      rw [scan_crcFailed hd]
      cases hf : findMagic buf.tail with
      | none =>
        have hnone := findMagic_eq_none hf n
        rw [List.drop_tail] at hnone
        rcases hrest with hrest | hrest
        · rw [hrest]
          rfl
        · rw [hrest] at hnone
          cases hnone
      | some buf' =>
        obtain ⟨k, hk, hle, hm, hfirst⟩ := findMagic_eq_some hf
        rw [List.drop_tail] at hk
        rw [List.length_tail] at hle
        subst hk
        have hkn : k ≤ n := by
          by_contra hlt
          rcases hrest with hrest | hrest
          · have := List.drop_eq_nil_iff.mp hrest
            have : buf.drop (k + 1) = [] := List.drop_eq_nil_iff.mpr (by omega)
            rw [this] at hm
            cases hm
          · have := hfirst n (by omega)
            rw [List.drop_tail, hrest] at this
            cases this
        have hdrop : (buf.drop (k + 1)).drop (n + 1 - (k + 1)) = buf.drop (n + 1) := by
          rw [List.drop_drop]
          congr 1
          omega
        have hscan := ih (n + 1 - (k + 1)) (by omega) (h.drop hm) (by rwa [hdrop])
        rw [hdrop] at hscan
        exact hscan

/-- A stop that is neither skipped nor a record ends the reading. -/
theorem scan_of_not_skipped {n : Nat} {buf : Bytes} (hno : NoRecord n buf)
    (h : ¬ Skipped n buf) : scan buf = [] := by
  induction n using Nat.strong_induction_on generalizing buf with
  | _ n ih =>
    cases n with
    | zero => exact absurd (fun p hp => absurd hp (Nat.not_lt_zero p)) h
    | succ n =>
      cases hd : decode buf with
      | ok q => exact absurd hd (hno 0 (Nat.succ_pos n) (Or.inl rfl) q.1 q.2)
      | error e =>
        cases e with
        | incomplete => exact scan_incomplete hd
        | crcFailed =>
          rw [scan_crcFailed hd]
          -- The stop that is not skipped lies at or behind the next magic number.
          unfold Skipped at h
          push Not at h
          obtain ⟨p, hp, hstop, hbad⟩ := h
          have hp0 : p ≠ 0 := by
            rintro rfl
            exact hbad hd
          have hpm := hstop.resolve_left hp0
          cases hf : findMagic buf.tail with
          | none => rfl
          | some buf' =>
            obtain ⟨k, hk, -, hm, hfirst⟩ := findMagic_eq_some hf
            rw [List.drop_tail] at hk
            subst hk
            have hkp : k + 1 ≤ p := by
              by_contra hlt
              have := hfirst (p - 1) (by omega)
              rw [List.drop_tail, Nat.sub_add_cancel (Nat.pos_of_ne_zero hp0), hpm] at this
              cases this
            refine ih (n + 1 - (k + 1)) (by omega) (hno.drop hm) ?_
            intro hskip
            have hdrop : (buf.drop (k + 1)).drop (p - (k + 1)) = buf.drop p := by
              rw [List.drop_drop]
              congr 1
              omega
            apply hbad
            rw [← hdrop]
            refine hskip (p - (k + 1)) (by omega) (Or.inr ?_)
            rwa [hdrop]

theorem readLog_eq_scan {file : Bytes} (h : magic.isPrefixOf file = true) :
    readLog file = scan file := by
  rw [readLog, if_pos h, scan]

/-! ### A log cut off at any byte -/

/-- The records that end at or before byte `n` of the log. -/
def wholeBefore : Nat → List WALRecordV3 → List WALRecordV3
  | _, [] => []
  | n, r :: rs => if r.encode.length ≤ n then r :: wholeBefore (n - r.encode.length) rs else []

/-- The bytes of the record that byte `n` cuts in two. -/
def tornAt : Nat → List WALRecordV3 → Bytes
  | _, [] => []
  | n, r :: rs =>
    if r.encode.length ≤ n then tornAt (n - r.encode.length) rs else r.encode.take n

theorem mem_wholeBefore {n : Nat} {records : List WALRecordV3} {r : WALRecordV3}
    (h : r ∈ wholeBefore n records) : r ∈ records := by
  induction records generalizing n with
  | nil => cases h
  | cons r' rs ih =>
    rw [wholeBefore] at h
    split at h
    · rcases List.mem_cons.mp h with rfl | h
      · exact List.mem_cons_self
      · exact List.mem_cons_of_mem _ (ih h)
    · cases h

/-- A cut log: whole records and the torn bytes of the next one. -/
theorem take_encodeLog (n : Nat) (records : List WALRecordV3) :
    (encodeLog records).take n = encodeLog (wholeBefore n records) ++ tornAt n records := by
  induction records generalizing n with
  | nil => simp [encodeLog, wholeBefore, tornAt]
  | cons r rs ih =>
    have hcons : encodeLog (r :: rs) = r.encode ++ encodeLog rs := List.flatMap_cons
    rw [hcons, List.take_append, wholeBefore, tornAt]
    split
    · rw [List.take_of_length_le ‹_›, ih]
      exact (List.append_assoc _ _ _).symm
    · have : n - r.encode.length = 0 := by omega
      simp [this, encodeLog]

theorem tornTail_tornAt {records : List WALRecordV3} (h : ∀ r ∈ records, r.Fits) (n : Nat) :
    TornTail (tornAt n records) := by
  induction records generalizing n with
  | nil => exact Or.inl rfl
  | cons r rs ih =>
    rw [tornAt]
    split
    · exact ih (fun r hr => h r (List.mem_cons_of_mem _ hr)) _
    · exact Or.inr ⟨r, h r List.mem_cons_self, n, by omega, rfl⟩

/-- Replay of a cut log returns the records before the cut that are above the starting number. -/
theorem replay_cut {records : List WALRecordV3} (hfits : ∀ r ∈ records, r.Fits) (n : Nat)
    (fromSeq : Int64) (w : WriteAheadLogV3) {d : Disk}
    (hd : d.walLog = (encodeLog records).take n) :
    (w.replay d fromSeq).1 = (wholeBefore n records).filter fun r => fromSeq < r.seq := by
  have hwhole : ∀ r ∈ wholeBefore n records, r.Fits := fun r hr => hfits r (mem_wholeBefore hr)
  rw [WriteAheadLogV3.replay_encodeLog hwhole (tornTail_tornAt hfits n)
    (by rw [hd, take_encodeLog])]

def emptyRecord (seq : Int64) : WALRecordV3 := ⟨seq, 0, 4, [], 3, []⟩

theorem replay_cut_in_second : (WriteAheadLogV3.replay ⟨0⟩
      ⟨none, none, (encodeLog [emptyRecord 1, emptyRecord 2]).take 50⟩ 0).1 =
    (wholeBefore 50 [emptyRecord 1, emptyRecord 2]).filter fun r => (0 : Int64) < r.seq :=
  replay_cut (by decide) 50 0 ⟨0⟩ rfl

/-! ### Writing on after a cut -/

/-- The torn bytes do not swallow what was appended: nothing was torn, nothing was appended, or
reading still knows the file and passes over the torn bytes. -/
def Rejoins (n : Nat) (records appended : List WALRecordV3) : Prop :=
  tornAt n records = [] ∨ appended = [] ∨
    ((wholeBefore n records ≠ [] ∨ 4 ≤ (tornAt n records).length) ∧
      Skipped (tornAt n records).length (tornAt n records ++ encodeLog appended))

theorem tornAt_magic {records : List WALRecordV3} {n : Nat}
    (h : 4 ≤ (tornAt n records).length) (rest : Bytes) :
    magic.isPrefixOf (tornAt n records ++ rest) = true := by
  induction records generalizing n with
  | nil => simp [tornAt] at h
  | cons r rs ih =>
    rw [tornAt] at h ⊢
    split at h
    · rw [if_pos ‹_›]
      exact ih h
    · rw [if_neg ‹_›]
      have h4 : 4 ≤ n := by
        rw [List.length_take] at h
        omega
      obtain ⟨m, rfl⟩ : ∃ m, n = m + 4 := ⟨n - 4, by omega⟩
      simp [encode, body, magic]

/-- Less than a magic number before the first appended record: the file is not recognised. -/
theorem tornAt_short {records : List WALRecordV3} {n : Nat} (hpos : tornAt n records ≠ [])
    (h : (tornAt n records).length < 4) (r : WALRecordV3) (rest : Bytes) :
    magic.isPrefixOf (tornAt n records ++ (r.encode ++ rest)) = false := by
  induction records generalizing n with
  | nil => exact absurd rfl hpos
  | cons r' rs ih =>
    rw [tornAt] at h hpos ⊢
    split at h
    · rw [if_pos ‹_›] at hpos ⊢
      exact ih hpos h
    · rw [if_neg ‹_›] at hpos ⊢
      have hlt : n < 4 := by
        rw [List.length_take] at h
        omega
      have h0 : n ≠ 0 := by
        rintro rfl
        exact hpos List.take_zero
      obtain rfl | rfl | rfl : n = 1 ∨ n = 2 ∨ n = 3 := by omega
      all_goals rfl

/-- A file with a whole record or a whole magic number is known as a log. -/
theorem magic_of_start {records : List WALRecordV3} {n : Nat}
    (h : wholeBefore n records ≠ [] ∨ 4 ≤ (tornAt n records).length) (rest : Bytes) :
    magic.isPrefixOf (encodeLog (wholeBefore n records) ++ tornAt n records ++ rest) = true := by
  cases hw : wholeBefore n records with
  | nil =>
    rw [hw] at h
    exact tornAt_magic (h.resolve_left fun hne => hne rfl) rest
  | cons r rs =>
    rw [encodeLog, List.flatMap_cons, List.append_assoc, List.append_assoc]
    exact magic_isPrefixOf_encode r _

theorem readLog_rejoins {records appended : List WALRecordV3} {n : Nat}
    (hfits : ∀ r ∈ records, r.Fits) (happ : ∀ r ∈ appended, r.Fits)
    (h : Rejoins n records appended) :
    readLog ((encodeLog records).take n ++ encodeLog appended) =
      wholeBefore n records ++ appended := by
  have hwhole : ∀ r ∈ wholeBefore n records, r.Fits := fun r hr => hfits r (mem_wholeBefore hr)
  have hall : ∀ r ∈ wholeBefore n records ++ appended, r.Fits := by
    intro r hr
    rcases List.mem_append.mp hr with hr | hr
    · exact hwhole r hr
    · exact happ r hr
  rw [take_encodeLog]
  rcases h with htorn | rfl | ⟨hstart, hskip⟩
  · rw [htorn, List.append_nil]
    have happend : encodeLog (wholeBefore n records) ++ encodeLog appended =
        encodeLog (wholeBefore n records ++ appended) := by
      simp only [encodeLog, List.flatMap_append]
    have hread := readLog_encodeLog hall (Or.inl rfl)
    rwa [List.append_nil, ← happend] at hread
  · have hread := readLog_encodeLog hwhole (tornTail_tornAt hfits n)
    simpa [encodeLog] using hread
  · have hmagic := magic_of_start hstart (encodeLog appended)
    have hrest : encodeLog appended = [] ∨ magic.isPrefixOf (encodeLog appended) = true := by
      cases appended with
      | nil => exact Or.inl rfl
      | cons r rs => exact Or.inr (magic_isPrefixOf_encode r _)
    have hdrop : (tornAt n records ++ encodeLog appended).drop (tornAt n records).length =
        encodeLog appended := List.drop_left
    have hpast := scan_drop_of_skipped hskip (by rwa [hdrop])
    have hscan := scan_encodeLog happ (Or.inl rfl)
    rw [List.append_nil] at hscan
    rw [readLog_eq_scan hmagic, List.append_assoc, scan_append hwhole, hpast, hdrop, hscan]

/-- Otherwise nothing of what was appended is found, unless a record stands inside the torn
bytes. -/
theorem readLog_not_rejoins {records appended : List WALRecordV3} {n : Nat}
    (hfits : ∀ r ∈ records, r.Fits)
    (hno : NoRecord (tornAt n records).length (tornAt n records ++ encodeLog appended))
    (h : ¬ Rejoins n records appended) :
    readLog ((encodeLog records).take n ++ encodeLog appended) = wholeBefore n records ∧
      appended ≠ [] := by
  have hwhole : ∀ r ∈ wholeBefore n records, r.Fits := fun r hr => hfits r (mem_wholeBefore hr)
  unfold Rejoins at h
  push Not at h
  obtain ⟨htorn, hne, hskip⟩ := h
  refine ⟨?_, hne⟩
  rw [take_encodeLog]
  by_cases hstart : wholeBefore n records ≠ [] ∨ 4 ≤ (tornAt n records).length
  · have hstuck := scan_of_not_skipped hno (hskip hstart)
    have hmagic := magic_of_start hstart (encodeLog appended)
    rw [readLog_eq_scan hmagic, List.append_assoc, scan_append hwhole, hstuck, List.append_nil]
  · push Not at hstart
    obtain ⟨hw, hlt⟩ := hstart
    cases appended with
    | nil => exact absurd rfl hne
    | cons r rs =>
      rw [hw, readLog, if_neg]
      rw [Bool.not_eq_true]
      exact tornAt_short htorn hlt r _

/-- The disk after records were appended to it. -/
def Disk.appendAll (d : Disk) (appended : List WALRecordV3) : Disk :=
  (appended.map DiskEvent.append).foldl DiskEvent.apply d

/-- Appending to a cut log: the records are read back when they rejoin the log, and only then
unless a record stands inside the torn bytes. -/
theorem append_after_tear {records appended : List WALRecordV3} (n : Nat)
    (hfits : ∀ r ∈ records, r.Fits) (happ : ∀ r ∈ appended, r.Fits) {fromSeq : Int64}
    (hseq : ∀ r ∈ records ++ appended, fromSeq < r.seq) (w : WriteAheadLogV3) {d : Disk}
    (hd : d.walLog = (encodeLog records).take n) :
    (Rejoins n records appended →
      (w.replay (d.appendAll appended) fromSeq).1 = wholeBefore n records ++ appended) ∧
    (NoRecord (tornAt n records).length (tornAt n records ++ encodeLog appended) →
      (w.replay (d.appendAll appended) fromSeq).1 = wholeBefore n records ++ appended →
      Rejoins n records appended) := by
  have hfile : (d.appendAll appended).walLog =
      (encodeLog records).take n ++ encodeLog appended := by
    rw [Disk.appendAll, foldl_apply_append, hd]
  have hkeep : ∀ l : List WALRecordV3, (∀ r ∈ l, r ∈ records ++ appended) →
      l.filter (fun r => fromSeq < r.seq) = l := by
    intro l hl
    rw [List.filter_eq_self]
    intro r hr
    exact decide_eq_true (hseq r (hl r hr))
  have hwhole : ∀ r ∈ wholeBefore n records, r ∈ records ++ appended := fun r hr =>
    List.mem_append_left _ (mem_wholeBefore hr)
  constructor
  · intro h
    rw [WriteAheadLogV3.replay, hfile, readLog_rejoins hfits happ h]
    refine hkeep _ fun r hr => ?_
    rcases List.mem_append.mp hr with hr | hr
    · exact hwhole r hr
    · exact List.mem_append_right _ hr
  · intro hno h
    by_contra hnot
    obtain ⟨hread, hne⟩ := readLog_not_rejoins hfits hno hnot
    rw [WriteAheadLogV3.replay, hfile, hread, hkeep _ hwhole] at h
    exact hne (List.self_eq_append_right.mp h)

/-- A whole log goes on as before. -/
theorem append_after_whole : (WriteAheadLogV3.replay ⟨0⟩
      (Disk.appendAll ⟨none, none, (encodeLog [emptyRecord 1]).take 38⟩ [emptyRecord 2]) 0).1 =
    wholeBefore 38 [emptyRecord 1] ++ [emptyRecord 2] :=
  (append_after_tear 38 (by decide) (by decide) (by decide) ⟨0⟩ rfl).1 (Or.inl (by decide))

/-- The torn header takes the first bytes of the appended record for a length. -/
theorem append_lost : (WriteAheadLogV3.replay ⟨0⟩
      (Disk.appendAll ⟨none, none, (encodeLog [emptyRecord 1]).take 30⟩ [emptyRecord 2]) 0).1 ≠
    wholeBefore 30 [emptyRecord 1] ++ [emptyRecord 2] := by
  decide +kernel

/-! ### A changed record -/

/-- The stored check sum of a record's bytes does not belong to them. -/
def CrcBroken (c : Bytes) : Prop :=
  (crc32Compute (c.take (c.length - 4))).toNat ≠ getLE (c.drop (c.length - 4))

/-- Reading passes over the changed bytes, or it gets stuck in them with no record behind them. -/
def Contained (c : Bytes) (after : List WALRecordV3) : Prop :=
  Skipped c.length (c ++ encodeLog after) ∨ (after = [] ∧ NoRecord c.length c)

/-- A log with one record's bytes changed, its first four bytes as before. -/
structure Changed (before : List WALRecordV3) (r : WALRecordV3) (c : Bytes) : Prop where
  length : c.length = r.encode.length
  start : before = [] → c.take 4 = r.encode.take 4
  crc : CrcBroken c

theorem Changed.magic_start {before : List WALRecordV3} {r : WALRecordV3} {c : Bytes}
    (h : Changed before r c) (rest : Bytes) :
    magic.isPrefixOf (encodeLog before ++ c ++ rest) = true := by
  cases before with
  | nil =>
    have hc : c = magic ++ c.drop 4 := by
      have hstart : c.take 4 = magic := (h.start rfl).trans rfl
      rw [← hstart, List.take_append_drop]
    rw [hc]
    rfl
  | cons r' rs =>
    rw [encodeLog, List.flatMap_cons, List.append_assoc, List.append_assoc]
    exact magic_isPrefixOf_encode r' _

theorem readLog_changed {before after : List WALRecordV3} {r : WALRecordV3} {c : Bytes}
    (hbefore : ∀ r ∈ before, r.Fits) (h : Changed before r c) :
    readLog (encodeLog before ++ c ++ encodeLog after) = before ++ scan (c ++ encodeLog after) := by
  rw [readLog_eq_scan (h.magic_start _), List.append_assoc, scan_append hbefore]

theorem scan_contained {c : Bytes} {after : List WALRecordV3} (hafter : ∀ r ∈ after, r.Fits)
    (h : Contained c after) : scan (c ++ encodeLog after) = after := by
  have hscan := scan_encodeLog hafter (Or.inl rfl)
  rw [List.append_nil] at hscan
  rcases h with hskip | ⟨rfl, hno⟩
  · have hdrop : (c ++ encodeLog after).drop c.length = encodeLog after := List.drop_left
    have hrest : encodeLog after = [] ∨ magic.isPrefixOf (encodeLog after) = true := by
      cases after with
      | nil => exact Or.inl rfl
      | cons r rs => exact Or.inr (magic_isPrefixOf_encode r _)
    rw [scan_drop_of_skipped hskip (by rwa [hdrop]), hdrop, hscan]
  · have hnil : c ++ encodeLog [] = c := List.append_nil c
    rw [hnil]
    by_cases hskip : Skipped c.length c
    · have hdrop : c.drop c.length = [] := List.drop_length
      rw [scan_drop_of_skipped hskip (Or.inl hdrop), hdrop, scan_nil]
    · exact scan_of_not_skipped hno hskip

/-- One changed record: exactly the others are read when the change is contained, and only then
unless a record stands inside the changed bytes. -/
theorem corruption_contained {before after : List WALRecordV3} {r : WALRecordV3} {c : Bytes}
    (hbefore : ∀ r ∈ before, r.Fits) (hafter : ∀ r ∈ after, r.Fits) (h : Changed before r c)
    {fromSeq : Int64} (hseq : ∀ r ∈ before ++ after, fromSeq < r.seq) (w : WriteAheadLogV3)
    {d : Disk} (hd : d.walLog = encodeLog before ++ c ++ encodeLog after) :
    (Contained c after → (w.replay d fromSeq).1 = before ++ after) ∧
    (NoRecord c.length (c ++ encodeLog after) → (w.replay d fromSeq).1 = before ++ after →
      Contained c after) := by
  have hread := @readLog_changed before after _ _ hbefore h
  have hkeep : ∀ l : List WALRecordV3, (∀ r ∈ l, r ∈ before ++ after) →
      l.filter (fun r => fromSeq < r.seq) = l := by
    intro l hl
    rw [List.filter_eq_self]
    intro r hr
    exact decide_eq_true (hseq r (hl r hr))
  constructor
  · intro hcont
    rw [WriteAheadLogV3.replay, hd, hread, scan_contained hafter hcont]
    exact hkeep _ fun r hr => hr
  · intro hno hreplay
    by_cases hskip : Skipped c.length (c ++ encodeLog after)
    · exact Or.inl hskip
    · right
      have hstuck := scan_of_not_skipped hno hskip
      rw [WriteAheadLogV3.replay, hd, hread, hstuck, List.append_nil,
        hkeep _ fun r hr => List.mem_append_left _ hr] at hreplay
      have hnil : after = [] := List.self_eq_append_right.mp hreplay
      subst hnil
      have : c ++ encodeLog [] = c := List.append_nil c
      rw [this] at hno
      exact ⟨rfl, hno⟩

instance (buf : Bytes) (p : Nat) : Decidable (Stop buf p) := by
  unfold Stop
  infer_instance

/-- The record with the bytes at offset `n` replaced. -/
def overwrite (r : WALRecordV3) (n : Nat) (bs : Bytes) : Bytes :=
  r.encode.take n ++ bs ++ r.encode.drop (n + bs.length)

/-- A changed version number is passed over. -/
theorem version_change_contained : (WriteAheadLogV3.replay ⟨0⟩ ⟨none, none, encodeLog [] ++
      overwrite (emptyRecord 1) 4 [9] ++ encodeLog [emptyRecord 2]⟩ 0).1 = [] ++ [emptyRecord 2] := by
  have hchanged : Changed [] (emptyRecord 1) (overwrite (emptyRecord 1) 4 [9]) :=
    ⟨by decide +kernel, fun _ => rfl, by unfold CrcBroken; decide +kernel⟩
  refine (corruption_contained (by decide) (by decide) hchanged (by decide) ⟨0⟩ rfl).1 (Or.inl ?_)
  unfold Skipped
  decide +kernel

/-- A changed data length makes the reader wait for bytes that are not there. -/
theorem length_change_loses :
    Changed [] (emptyRecord 1) (overwrite (emptyRecord 1) 30 [255, 255, 255, 255]) ∧
    (WriteAheadLogV3.replay ⟨0⟩ ⟨none, none, encodeLog [] ++
      overwrite (emptyRecord 1) 30 [255, 255, 255, 255] ++ encodeLog [emptyRecord 2]⟩ 0).1 ≠
        [] ++ [emptyRecord 2] :=
  ⟨⟨by decide +kernel, fun _ => rfl, by unfold CrcBroken; decide +kernel⟩, by decide +kernel⟩

end JiaMiaoDB
