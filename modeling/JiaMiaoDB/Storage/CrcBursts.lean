import JiaMiaoDB.Lib.TableChecksum
import JiaMiaoDB.Storage.Wal

/-!
# Short changes in a log record

A change of at most four consecutive bytes of the table name or of the data. The check sum shows it
in every record whose lengths fit their fields. Where a length does not fit, the decoder reads
lengths out of the middle of the record, and there is a change that it does not report.
-/

set_option autoImplicit false

namespace JiaMiaoDB
open WALRecordV3 ByteFormat

/-! ### The table of the check sum -/

/-- One step of `crcEntry` backwards: the top bit of the result is the bit that was shifted out. -/
def crcUnstep (c : UInt32) : UInt32 :=
  if c >>> 31 = 1 then ((c ^^^ 0xEDB88320) <<< 1) ||| 1 else c <<< 1

/-- The entry's number from its top byte. -/
def crcNumber (top : UInt32) : UInt32 := Nat.repeat crcUnstep 8 (top <<< 24) &&& 0xFF

theorem crcNumber_crc32Table (i : Fin 256) :
    crcNumber (crc32Table (UInt32.ofNat i) >>> 24) = UInt32.ofNat i := by
  revert i
  decide +kernel

theorem separates_crc32Table : TableChecksum.Separates crc32Table := by
  intro i j hi hj h
  have number {k : UInt32} (hk : k < 256) : crcNumber (crc32Table k >>> 24) = k := by
    have := crcNumber_crc32Table ⟨k.toNat, UInt32.lt_iff_toNat_lt.1 hk⟩
    rwa [UInt32.ofNat_toNat] at this
  rw [← number hi, h, number hj]

theorem crc32Compute_eq (data : Bytes) : crc32Compute data =
    TableChecksum.register crc32Table 0xFFFFFFFF data ^^^ 0xFFFFFFFF := rfl

/-- A change within four consecutive bytes changes the check sum. -/
theorem crc32Compute_ne_of_burst (front back : Bytes) {w w' : Bytes} (hlen : w'.length = w.length)
    (hw : w.length ≤ 4) (hne : w' ≠ w) :
    crc32Compute (front ++ (w' ++ back)) ≠ crc32Compute (front ++ (w ++ back)) := by
  rw [crc32Compute_eq, crc32Compute_eq, ne_eq, UInt32.xor_left_inj]
  exact TableChecksum.burst_detected separates_crc32Table _ front back hlen hw hne

/-! ### Changes in a window -/

/-- Where the table name and the data stand in an encoded record. -/
def WALRecordV3.tableAt : Nat := 26

def WALRecordV3.dataAt (r : WALRecordV3) : Nat := 34 + r.table.length

/-- The window from `i` to `i + n` lies inside the table name or inside the data. -/
def WALRecordV3.Window (r : WALRecordV3) (i n : Nat) : Prop :=
  (tableAt ≤ i ∧ i + n ≤ tableAt + r.table.length) ∨ (r.dataAt ≤ i ∧ i + n ≤ r.dataAt + r.data.length)

/-- The encoded record changed within at most four consecutive bytes. -/
structure Burst (r : WALRecordV3) (s : Bytes) : Prop where
  length : s.length = r.encode.length
  ne : s ≠ r.encode
  window : ∃ i n, n ≤ 4 ∧ r.Window i n ∧ ∀ j, (j < i ∨ i + n ≤ j) → s[j]? = r.encode[j]?

/-- Every such change is reported as a failed check. -/
def DetectsBursts (r : WALRecordV3) : Prop := ∀ s, Burst r s → decode s = .error .crcFailed

/-- Bytes that agree outside a window differ by a piece of the window's length. -/
theorem eq_of_window (front w back : Bytes) {s : Bytes} (hlen : s.length = (front ++ (w ++ back)).length)
    (h : ∀ j, (j < front.length ∨ front.length + w.length ≤ j) →
      s[j]? = (front ++ (w ++ back))[j]?) :
    ∃ w', w'.length = w.length ∧ s = front ++ (w' ++ back) := by
  simp only [List.length_append] at hlen
  have hw' : ((s.drop front.length).take w.length).length = w.length := by
    simp only [List.length_take, List.length_drop]
    omega
  refine ⟨(s.drop front.length).take w.length, hw', ?_⟩
  apply List.ext_getElem?
  intro j
  by_cases hlt : j < front.length
  · rw [h j (.inl hlt), List.getElem?_append_left hlt, List.getElem?_append_left hlt]
  rw [List.getElem?_append_right (by omega)]
  by_cases hin : j < front.length + w.length
  · rw [List.getElem?_append_left (by omega), List.getElem?_take_of_lt (by omega),
      List.getElem?_drop]
    congr 1
    omega
  · rw [h j (.inr (by omega)), List.getElem?_append_right (by omega),
      List.getElem?_append_right (by omega), List.getElem?_append_right (by omega), hw']

theorem burst_of_piece {r : WALRecordV3} {front w w' back : Bytes}
    (henc : r.encode = front ++ (w ++ back)) (hlen : w'.length = w.length) (hw : w.length ≤ 4)
    (hne : w' ≠ w) (hin : r.Window front.length w.length) : Burst r (front ++ (w' ++ back)) := by
  refine ⟨by simp only [henc, List.length_append, hlen], ?_, front.length, w.length, hw, hin, ?_⟩
  · rw [henc]
    intro h
    exact hne (List.append_cancel_right (List.append_cancel_left h))
  · intro j hj
    rw [henc]
    rcases hj with hj | hj
    · rw [List.getElem?_append_left hj, List.getElem?_append_left hj]
    · rw [List.getElem?_append_right (by omega), List.getElem?_append_right (by omega),
        List.getElem?_append_right (by omega), List.getElem?_append_right (by omega), hlen]

/-- A burst as the piece that is replaced. -/
theorem Burst.piece {r : WALRecordV3} {s : Bytes} (h : Burst r s) : ∃ front w w' back,
    r.encode = front ++ (w ++ back) ∧ s = front ++ (w' ++ back) ∧ w'.length = w.length ∧
      w.length ≤ 4 ∧ w' ≠ w ∧ r.Window front.length w.length := by
  obtain ⟨i, n, hn, hin, hout⟩ := h.window
  have hlen : r.encode.length = 38 + r.table.length + r.data.length := by
    rw [encode, List.length_append, length_putLE, r.length_body]
    omega
  have hend : i + n ≤ r.encode.length := by
    unfold Window tableAt dataAt at hin
    omega
  have hsplit : r.encode =
      r.encode.take i ++ ((r.encode.drop i).take n ++ (r.encode.drop i).drop n) := by
    rw [List.take_append_drop, List.take_append_drop]
  have hfront : (r.encode.take i).length = i := by
    rw [List.length_take]
    omega
  have hw : ((r.encode.drop i).take n).length = n := by
    rw [List.length_take, List.length_drop]
    omega
  obtain ⟨w', hw', hc⟩ := eq_of_window (r.encode.take i) ((r.encode.drop i).take n)
    ((r.encode.drop i).drop n) (s := s)
    (by rw [← hsplit]; exact h.length) (by rw [← hsplit, hfront, hw]; exact hout)
  refine ⟨_, _, w', _, hsplit, hc, hw', by omega, ?_, by rwa [hfront, hw]⟩
  rintro rfl
  exact h.ne (by rw [hsplit]; exact hc)

/-! ### The two windows -/

/-- The bytes before the table name. -/
def WALRecordV3.header (r : WALRecordV3) : Bytes :=
  magic ++ (putLE 2 version ++ (putLE 2 r.op.toNat ++ (putLE 8 r.seq.toUInt64.toNat ++
    (putLE 8 r.timestamp.toUInt64.toNat ++ putLE 2 r.table.length))))

/-- The bytes between the table name and the data. -/
def WALRecordV3.middle (r : WALRecordV3) : Bytes := putLE 4 r.xid.toNat ++ putLE 4 r.data.length

theorem body_eq (r : WALRecordV3) : r.body = r.header ++ (r.table ++ (r.middle ++ r.data)) := by
  simp only [body, WALRecordV3.header, WALRecordV3.middle, putPrefixed, List.append_assoc]

theorem body_table (r : WALRecordV3) {t : Str} (h : t.length = r.table.length) :
    { r with table := t }.body = r.header ++ (t ++ (r.middle ++ r.data)) := by
  simp only [body_eq, WALRecordV3.header, WALRecordV3.middle, h]

theorem body_data (r : WALRecordV3) {d : Bytes} (h : d.length = r.data.length) :
    { r with data := d }.body = r.header ++ (r.table ++ (r.middle ++ d)) := by
  simp only [body_eq, WALRecordV3.header, WALRecordV3.middle, h]

theorem length_header (r : WALRecordV3) : r.header.length = tableAt := by
  simp only [WALRecordV3.header, List.length_append, length_putLE, magic, List.length_cons,
    List.length_nil, tableAt]

theorem length_middle (r : WALRecordV3) : r.middle.length = 8 := by
  simp only [WALRecordV3.middle, List.length_append, length_putLE]

/-- A piece of a text that lies inside its middle part. -/
theorem inside_of_window {p t q front w back : Bytes} (h : p ++ (t ++ q) = front ++ (w ++ back))
    (hleft : p.length ≤ front.length) (hright : front.length + w.length ≤ p.length + t.length) :
    ∃ a b, front = p ++ a ∧ t = a ++ (w ++ b) ∧ back = b ++ q := by
  obtain ⟨a, rfl, ht⟩ | ⟨a, rfl, ha⟩ := List.append_eq_append_iff.1 h
  · rw [List.length_append] at hright
    rw [← List.append_assoc] at ht
    obtain ⟨b, hb, rfl⟩ | ⟨b, hb, rfl⟩ := List.append_eq_append_iff.1 ht
    · have hnil : b = [] := by
        have := congrArg List.length hb
        simp only [List.length_append] at this
        exact List.length_eq_zero_iff.1 (by omega)
      subst hnil
      exact ⟨a, [], rfl, by simpa using hb.symm, rfl⟩
    · exact ⟨a, b, rfl, by rw [hb, List.append_assoc], rfl⟩
  · have hnil : a = [] := by
      rw [List.length_append] at hleft
      exact List.length_eq_zero_iff.1 (by omega)
    subst hnil
    rw [List.append_nil] at hright ⊢
    rw [List.nil_append] at ha
    obtain ⟨b, hb, rfl⟩ | ⟨b, hb, rfl⟩ := List.append_eq_append_iff.1 ha
    · exact ⟨[], b, by simp, hb, rfl⟩
    · have hb' := congrArg List.length hb
      rw [List.length_append] at hb'
      have hnil : b = [] := List.length_eq_zero_iff.1 (by omega)
      subst hnil
      exact ⟨[], [], by simp, by simpa using hb.symm, by simp⟩

/-- The window as a piece of the table name or of the data. -/
theorem Burst.inside {r : WALRecordV3} {s : Bytes} (h : Burst r s) :
    ∃ a w w' b, w'.length = w.length ∧ w.length ≤ 4 ∧ w' ≠ w ∧
      ((r.table = a ++ (w ++ b) ∧
        s = { r with table := a ++ (w' ++ b) }.body ++ putLE 4 (crc32Compute r.body).toNat) ∨
      (r.data = a ++ (w ++ b) ∧
        s = { r with data := a ++ (w' ++ b) }.body ++ putLE 4 (crc32Compute r.body).toNat)) := by
  obtain ⟨front, w, w', back, henc, rfl, hlen, hw, hne, hin⟩ := h.piece
  have hhead := length_header r
  have hmid := length_middle r
  rw [encode, body_eq] at henc
  unfold Window dataAt tableAt at hin
  rw [tableAt] at hhead
  rcases hin with ⟨hl, hr⟩ | ⟨hl, hr⟩
  · simp only [List.append_assoc] at henc
    obtain ⟨a, b, rfl, ht, rfl⟩ := inside_of_window henc (by omega) (by omega)
    refine ⟨a, w, w', b, hlen, hw, hne, .inl ⟨ht, ?_⟩⟩
    have htlen : (a ++ (w' ++ b)).length = r.table.length := by
      simp only [ht, List.length_append, hlen]
    simp only [body_table r htlen, body_eq r, List.append_assoc]
  · have henc' : (r.header ++ (r.table ++ r.middle)) ++
        (r.data ++ putLE 4 (crc32Compute r.body).toNat) = front ++ (w ++ back) := by
      simpa only [body_eq, List.append_assoc] using henc
    obtain ⟨a, b, rfl, hd, rfl⟩ := inside_of_window henc'
      (by simp only [List.length_append]; omega) (by simp only [List.length_append]; omega)
    refine ⟨a, w, w', b, hlen, hw, hne, .inr ⟨hd, ?_⟩⟩
    have hdlen : (a ++ (w' ++ b)).length = r.data.length := by
      simp only [hd, List.length_append, hlen]
    simp only [body_data r hdlen, body_eq r, List.append_assoc]

/-- A record whose lengths fit: the changed bytes hold a record with another check sum. -/
theorem detectsBursts_of_fits {r : WALRecordV3} (hfits : r.Fits) : DetectsBursts r := by
  intro s hc
  have report {r' : WALRecordV3} (hr' : r'.Fits) (hne : crc32Compute r'.body ≠ crc32Compute r.body) :
      decode (r'.body ++ putLE 4 (crc32Compute r.body).toNat) = .error .crcFailed := by
    have := decode_body hr' (crc32Compute r.body) []
    rwa [List.append_nil, if_neg hne] at this
  obtain ⟨a, w, w', b, hlen, hw, hne, ⟨ht, hc⟩ | ⟨hd, hc⟩⟩ := hc.inside
  · have htlen : (a ++ (w' ++ b)).length = r.table.length := by
      simp only [ht, List.length_append, hlen]
    have hfits' : { r with table := a ++ (w' ++ b) }.Fits := ⟨htlen ▸ hfits.1, hfits.2⟩
    have hcrc := crc32Compute_ne_of_burst (r.header ++ a) (b ++ (r.middle ++ r.data)) hlen hw hne
    rw [hc]
    apply report hfits'
    rw [body_table r htlen, body_eq r, ht]
    simpa only [List.append_assoc] using hcrc
  · have hdlen : (a ++ (w' ++ b)).length = r.data.length := by
      simp only [hd, List.length_append, hlen]
    have hfits' : { r with data := a ++ (w' ++ b) }.Fits := ⟨hfits.1, hdlen ▸ hfits.2⟩
    have hcrc := crc32Compute_ne_of_burst (r.header ++ (r.table ++ (r.middle ++ a))) b hlen hw hne
    rw [hc]
    apply report hfits'
    rw [body_data r hdlen, body_eq r, hd]
    simpa only [List.append_assoc] using hcrc

/-! ### Lengths that wrap -/

/-- The header and the lengths of a record are those of a record with the wrapped lengths. -/
theorem header_wrapped (r : WALRecordV3) {front : Bytes}
    (h : front.length = r.table.length % 256 ^ 2) : { r with table := front }.header = r.header := by
  simp only [WALRecordV3.header, h, putLE_mod]

theorem middle_wrapped (r : WALRecordV3) {front : Bytes}
    (h : front.length = r.data.length % 256 ^ 4) : { r with data := front }.middle = r.middle := by
  simp only [WALRecordV3.middle, h, putLE_mod]

theorem exists_piece {l : Bytes} {d n : Nat} (h : d + n < l.length) :
    ∃ piece x rest, l = l.take d ++ (piece ++ x :: rest) ∧ piece.length = n := by
  obtain ⟨x, rest, hrest⟩ := List.exists_cons_of_length_pos (l := l.drop (d + n))
    (by rw [List.length_drop]; omega)
  refine ⟨(l.drop d).take n, x, rest, ?_, ?_⟩
  · rw [← hrest, ← List.drop_drop, List.take_append_drop, List.take_append_drop]
  · rw [List.length_take, List.length_drop]
    omega

/-- Data from 2^32 bytes on: the check sum is taken from inside the data, where it can be made to
match. -/
theorem exists_undetected_of_data {r : WALRecordV3} (ht : r.table.length < 2 ^ 16)
    (hd : 2 ^ 32 ≤ r.data.length) : ∃ s, Burst r s ∧ decode s ≠ .error .crcFailed := by
  have hmod : r.data.length % 256 ^ 4 < 2 ^ 32 := Nat.mod_lt _ (by decide)
  have hmodle : r.data.length % 256 ^ 4 + 2 ^ 32 ≤ r.data.length := by omega
  set d := r.data.length % 256 ^ 4 with hdef
  set r₀ : WALRecordV3 := { r with data := r.data.take d } with hr₀
  have hfront : (r.data.take d).length = d := by
    rw [List.length_take]
    omega
  have hfits : r₀.Fits := ⟨ht, by rw [hr₀, hfront]; exact hmod⟩
  obtain ⟨stored, x, rest, hsplit, hstored⟩ := exists_piece (d := d) (n := 4) (l := r.data) (by omega)
  have hbody : r₀.body = r.header ++ (r.table ++ (r.middle ++ r.data.take d)) := by
    rw [body_eq, hr₀, middle_wrapped r hfront]
    rfl
  have henc : r.encode = r₀.body ++ (stored ++ (x :: rest ++ putLE 4 (crc32Compute r.body).toNat)) := by
    rw [encode, hbody]
    generalize putLE 4 (crc32Compute r.body).toNat = crc
    rw [body_eq]
    nth_rewrite 1 [hsplit]
    simp only [List.append_assoc]
  have hblen : r₀.body.length = 34 + r.table.length + d := by
    rw [r₀.length_body, hr₀, hfront]
  have hroom : d + 5 + rest.length = r.data.length := by
    have := congrArg List.length hsplit
    simp only [List.length_append, List.length_cons, hfront, hstored] at this
    omega
  by_cases heq : putLE 4 (crc32Compute r₀.body).toNat = stored
  · have hne : [x + 1] ≠ [x] := by simp
    have hb : Burst r (r₀.body ++ stored ++ ([x + 1] ++ (rest ++ putLE 4 (crc32Compute r.body).toNat))) := by
      have henc' : r.encode = r₀.body ++ stored ++
          ([x] ++ (rest ++ putLE 4 (crc32Compute r.body).toNat)) := by
        simpa only [List.append_assoc, List.cons_append, List.nil_append] using henc
      apply burst_of_piece henc' (show [x + 1].length = [x].length from rfl) (by simp) hne
      right
      simp only [dataAt, List.length_append, hstored, List.length_cons, List.length_nil]
      omega
    refine ⟨_, hb, ?_⟩
    rw [← heq, ← encode, decode_encode hfits]
    simp
  · have hb : Burst r (r₀.body ++ (putLE 4 (crc32Compute r₀.body).toNat ++
        (x :: rest ++ putLE 4 (crc32Compute r.body).toNat))) := by
      apply burst_of_piece henc (by rw [length_putLE, hstored]) (by omega) heq
      right
      simp only [dataAt]
      omega
    refine ⟨_, hb, ?_⟩
    rw [← List.append_assoc, ← encode, decode_encode hfits]
    simp

/-- More data is announced than there are bytes. -/
theorem decode_announced {r : WALRecordV3} (ht : r.table.length < 2 ^ 16) {v : Nat} (hv : v < 2 ^ 32)
    {back : Bytes} (h : back.length ≤ v) :
    decode (r.header ++ (r.table ++ (putLE 4 r.xid.toNat ++ (putLE 4 v ++ back)))) =
      .error .incomplete := by
  set r₁ : WALRecordV3 := { r with data := back ++ List.replicate (v - back.length) 0 } with hr₁
  have hdata : r₁.data.length = v := by
    rw [hr₁, List.length_append, List.length_replicate]
    omega
  have henc : r₁.encode =
      (r.header ++ (r.table ++ (putLE 4 r.xid.toNat ++ (putLE 4 v ++ back)))) ++
        (List.replicate (v - back.length) 0 ++ putLE 4 (crc32Compute r₁.body).toNat) := by
    rw [encode, body_eq, WALRecordV3.middle, hdata]
    simp only [hr₁, WALRecordV3.header, List.append_assoc]
  generalize r.header ++ (r.table ++ (putLE 4 r.xid.toNat ++ (putLE 4 v ++ back))) = shown at henc ⊢
  have hcut := decode_take_encode (r := r₁) ⟨ht, hdata ▸ hv⟩ (n := shown.length)
    (by rw [henc, List.length_append, List.length_append, length_putLE]; omega)
  rwa [henc, List.take_left] at hcut

/-- Table names from 65536 bytes on: the length of the data is taken from inside the name, and a
change of it announces more bytes than there are. -/
theorem exists_undetected_of_table {r : WALRecordV3} (ht : 2 ^ 16 ≤ r.table.length)
    (hlen : r.encode.length ≤ 2 ^ 32) : ∃ s, Burst r s ∧ decode s ≠ .error .crcFailed := by
  have hmod : r.table.length % 256 ^ 2 < 2 ^ 16 := Nat.mod_lt _ (by decide)
  have hmodle : r.table.length % 256 ^ 2 + 2 ^ 16 ≤ r.table.length := by omega
  set t := r.table.length % 256 ^ 2 with htdef
  have hfront : (r.table.take t).length = t := by
    rw [List.length_take]
    omega
  obtain ⟨piece, x, rest, hsplit, hpiece⟩ := exists_piece (d := t) (n := 8) (l := r.table) (by omega)
  obtain ⟨xid, dlen, rfl, hxid, hdlen⟩ : ∃ xid dlen, piece = xid ++ dlen ∧ xid.length = 4 ∧
      dlen.length = 4 :=
    ⟨piece.take 4, piece.drop 4, (List.take_append_drop 4 piece).symm,
      by rw [List.length_take]; omega, by rw [List.length_drop]; omega⟩
  set back := x :: rest ++ (r.middle ++ (r.data ++ putLE 4 (crc32Compute r.body).toNat)) with hback
  have henc : r.encode = (r.header ++ (r.table.take t ++ xid)) ++ (dlen ++ back) := by
    rw [encode, hback]
    generalize putLE 4 (crc32Compute r.body).toNat = crc
    rw [body_eq]
    nth_rewrite 1 [hsplit]
    simp only [List.append_assoc]
  have hhead := length_header r
  have hsize : 26 + t + 8 + back.length ≤ 2 ^ 32 := by
    rw [henc] at hlen
    simp only [List.length_append, hhead, hfront, hxid, hdlen, tableAt] at hlen
    omega
  -- A number of data bytes that is not the one read so far and too large for what is left.
  obtain ⟨v, hv, hbig, hne⟩ : ∃ v, v < 2 ^ 32 ∧ back.length ≤ v ∧ putLE 4 v ≠ dlen := by
    by_cases h : putLE 4 (2 ^ 32 - 1) = dlen
    · exact ⟨2 ^ 32 - 2, by omega, by omega, fun h' =>
        absurd (putLE_injective (by decide) (by decide) (h'.trans h.symm)) (by decide)⟩
    · exact ⟨2 ^ 32 - 1, by omega, by omega, h⟩
  have hb : Burst r (r.header ++ (r.table.take t ++ xid) ++ (putLE 4 v ++ back)) := by
    apply burst_of_piece henc (by rw [length_putLE, hdlen]) (by omega) hne
    left
    simp only [List.length_append, hhead, hfront, hxid, hdlen]
    omega
  refine ⟨_, hb, ?_⟩
  have hxidlt : getLE xid < 2 ^ 32 := by
    have := getLE_lt xid
    rwa [hxid] at this
  have hxidbytes : putLE 4 (UInt32.ofNat (getLE xid)).toNat = xid := by
    rw [UInt32.toNat_ofNat_of_lt' hxidlt, ← hxid, putLE_getLE]
  have hcut := decode_announced
    (r := { r with table := r.table.take t, xid := UInt32.ofNat (getLE xid) })
    (by rw [hfront]; exact hmod) hv hbig
  have hheader : { r with table := r.table.take t, xid := UInt32.ofNat (getLE xid) }.header =
      r.header := header_wrapped r hfront
  rw [hxidbytes, hheader] at hcut
  simp only [List.append_assoc]
  rw [hcut]
  simp

/-- Every short change is reported exactly in the records whose lengths fit their fields. Records
past 4 GiB are left out where the table name does not fit. -/
theorem detectsBursts_iff_fits {r : WALRecordV3}
    (h : r.table.length < 2 ^ 16 ∨ r.encode.length ≤ 2 ^ 32) : DetectsBursts r ↔ r.Fits := by
  constructor
  · intro hdetects
    have hno : ¬ ∃ s, Burst r s ∧ decode s ≠ .error .crcFailed :=
      fun ⟨s, hc, hne⟩ => hne (hdetects s hc)
    rcases Nat.lt_or_ge r.table.length (2 ^ 16) with ht | ht
    · refine ⟨ht, Nat.lt_of_not_le ?_⟩
      exact fun hd => hno (exists_undetected_of_data ht hd)
    · exact absurd (exists_undetected_of_table ht (h.resolve_left (Nat.not_lt.2 ht))) hno
  · exact detectsBursts_of_fits

/-- A record with a table name of 65536 bytes. -/
def longNameRecord : WALRecordV3 := ⟨1, 0, 6, List.replicate (2 ^ 16) 97, 0, []⟩

def shortNameRecord : WALRecordV3 := ⟨1, 0, 1, [116], 3, [1, 2]⟩

theorem detectsBursts_shortName :
    (shortNameRecord.table.length < 2 ^ 16 ∨ shortNameRecord.encode.length ≤ 2 ^ 32) ∧
      (DetectsBursts shortNameRecord ↔ shortNameRecord.Fits) :=
  ⟨.inl (by decide), detectsBursts_iff_fits (.inl (by decide))⟩

theorem not_detectsBursts_longName : ¬ DetectsBursts longNameRecord := by
  intro h
  have htable : longNameRecord.table.length = 2 ^ 16 := List.length_replicate
  have hlen : longNameRecord.encode.length ≤ 2 ^ 32 := by
    rw [encode, List.length_append, length_putLE, length_body, htable]
    decide
  obtain ⟨s, hc, hne⟩ := exists_undetected_of_table htable.ge hlen
  exact hne (h s hc)

end JiaMiaoDB
