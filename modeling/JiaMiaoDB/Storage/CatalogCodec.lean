import JiaMiaoDB.Storage.Catalog
import JiaMiaoDB.Storage.Transaction
import JiaMiaoDB.Storage.WalPayload

/-! Binary forms of the commit log and the catalog. Decoding writes into its target as it reads, so
a rejected input leaves what was read before the rejection. -/

set_option autoImplicit false

namespace JiaMiaoDB
open ByteFormat

/-- A decoder that fills a target. -/
abbrev FillM (τ ε α : Type) := Prog (τ × Bytes) ε α

namespace FillM
variable {τ ε α : Type}

def read (r : Reader ε α) : FillM τ ε α := Prog.zoom (·.2) (fun bs s => (s.1, bs)) r

def target (p : Prog τ ε α) : FillM τ ε α := Prog.zoom (·.1) (fun t s => (t, s.2)) p

theorem run_read {r : Reader ε α} {bs rest : Bytes} {a : α} {t : τ}
    (h : r.run bs = (.ok a, rest)) : (read r : FillM τ ε α).run (t, bs) = (.ok a, (t, rest)) := by
  simp only [read, Prog.zoom, h]

theorem run_target {p : Prog τ ε α} {bs : Bytes} {a : α} {t t' : τ}
    (h : p.run t = (.ok a, t')) : (target p : FillM τ ε α).run (t, bs) = (.ok a, (t', bs)) := by
  simp only [target, Prog.zoom, h]

/-- Repeats a filler. -/
def times (p : FillM τ ε Unit) (n : Nat) : FillM τ ε Unit :=
  Prog.forEach (fun _ => p) (List.replicate n ())

/-- `p` consumes the bytes of each item in turn and applies it to the target, as long as the target
satisfies `P`. -/
theorem run_times {β : Type} {p : FillM τ ε Unit} {w : β → Bytes} {g : τ → β → τ}
    {l : List β} (P : τ → Prop) (hP : ∀ b ∈ l, ∀ t, P t → P (g t b))
    (h : ∀ b ∈ l, ∀ t rest, P t → p.run (t, w b ++ rest) = (.ok (), (g t b, rest)))
    {t : τ} (ht : P t) (rest : Bytes) :
    (times p l.length).run (t, l.flatMap w ++ rest) =
      (.ok (), (l.foldl g t, rest)) := by
  induction l generalizing t with
  | nil => rfl
  | cons b l ih =>
    rw [times, List.length_cons, List.replicate_succ, Prog.forEach, List.flatMap_cons,
      List.append_assoc, Prog.bind_ok (h b (by simp) t _ ht)]
    exact ih (fun b hb => hP b (by simp [hb])) (fun b hb => h b (by simp [hb])) (hP b (by simp) t ht)

end FillM

/-! ### Commit log -/

namespace TransactionStatus

def toTag : TransactionStatus → UInt8
  | inProgress => 0 | committed => 1 | aborted => 2 | subCommitted => 3

def ofTag? : Nat → Option TransactionStatus
  | 0 => some inProgress | 1 => some committed | 2 => some aborted | 3 => some subCommitted
  | _ => none

end TransactionStatus

def clogMagic : Bytes := [67, 76, 71, 66]

def clogEntry (p : TransactionId × TransactionStatus) : Bytes := putU32 p.1 ++ [p.2.toTag]

def clogEncode (c : CLog) : Bytes :=
  clogMagic ++ (putLE 4 1 ++ (putLE 4 c.statusMap.toList.length ++
    c.statusMap.toList.flatMap clogEntry))

def fillClogEntry : FillM CLog Unit Unit := do
  let xid ← FillM.read readU32
  let tag ← FillM.read (readLE 1 ())
  match TransactionStatus.ofTag? tag with
  | none => Prog.throw ()
  | some status => FillM.target (Prog.modify (·.setStatus xid status))

def fillClog : FillM CLog Unit Unit := do
  let bytes ← FillM.read (Prog.get : PayloadReader Bytes)
  Prog.require (4 + 4 + 4 ≤ bytes.length) ()
  let m ← FillM.read (readBytes 4 ())
  Prog.require (m = clogMagic) ()
  let fmt ← FillM.read (readLE 4 ())
  Prog.require (fmt = 1) ()
  let count ← FillM.read (readLE 4 ())
  FillM.times fillClogEntry count
  FillM.read (readEnd ())

/-- Whether the bytes were accepted, and the log after the call. -/
def clogDecode (bytes : Bytes) (c : CLog) : Bool × CLog :=
  match fillClog.run (c, bytes) with
  | (.ok _, (c', _)) => (true, c')
  | (.error _, (c', _)) => (false, c')

theorem run_fillClogEntry (p : TransactionId × TransactionStatus) (c : CLog) (rest : Bytes) :
    fillClogEntry.run (c, clogEntry p ++ rest) = (.ok (), (c.setStatus p.1 p.2, rest)) := by
  have htag : (readLE 1 ()).run ([p.2.toTag] ++ rest) = (.ok p.2.toTag.toNat, rest) := by
    cases p.2 <;> rfl
  rw [fillClogEntry, clogEntry, List.append_assoc,
    Prog.bind_ok (FillM.run_read (reads_u32 p.1 _)), Prog.bind_ok (FillM.run_read htag)]
  rcases p with ⟨xid, _ | _ | _ | _⟩ <;> rfl

theorem foldl_setStatus (c : CLog) :
    c.statusMap.toList.foldl (fun (d : CLog) p => d.setStatus p.1 p.2) CLog.empty = c := by
  have h (l : List (TransactionId × TransactionStatus)) (d : CLog) :
      (l.foldl (fun (d : CLog) p => d.setStatus p.1 p.2) d).statusMap =
        l.foldl (fun m p => m.insert p.1 p.2) d.statusMap := by
    induction l generalizing d with
    | nil => rfl
    | cons p l ih => exact ih (d.setStatus p.1 p.2)
  rcases c with ⟨m⟩
  have hm := h m.toList CLog.empty
  rw [show CLog.empty.statusMap = ∅ from rfl, OrderedMap.foldl_toList (fun _ _ _ => rfl)] at hm
  exact congrArg CLog.mk hm

theorem size_le_length_clogEncode (c : CLog) : c.statusMap.size ≤ (clogEncode c).length := by
  have hlen : ∀ l : List (TransactionId × TransactionStatus), l.length ≤ (l.flatMap clogEntry).length := by
    intro l
    induction l with
    | nil => simp
    | cons p l ih =>
      simp only [List.flatMap_cons, List.length_append, List.length_cons, clogEntry]
      omega
  have := hlen c.statusMap.toList
  rw [Std.ExtTreeMap.length_toList] at this
  simp only [clogEncode, List.length_append]
  omega

/-- Everything in front of the check for the end. -/
def fillClogEntries : FillM CLog Unit Unit := do
  let bytes ← FillM.read (Prog.get : PayloadReader Bytes)
  Prog.require (4 + 4 + 4 ≤ bytes.length) ()
  let m ← FillM.read (readBytes 4 ())
  Prog.require (m = clogMagic) ()
  let fmt ← FillM.read (readLE 4 ())
  Prog.require (fmt = 1) ()
  let count ← FillM.read (readLE 4 ())
  FillM.times fillClogEntry count

theorem fillClog_eq : fillClog = fillClogEntries >>= fun _ => FillM.read (readEnd ()) := by
  simp only [fillClog, fillClogEntries, bind_assoc]

/-- The encoded log with anything behind it, read into any target. -/
theorem run_fillClogEntries {c : CLog} (h : c.statusMap.size < 2 ^ 32) (t : CLog) (tail : Bytes) :
    fillClogEntries.run (t, clogEncode c ++ tail) =
      (.ok (), (c.statusMap.toList.foldl (fun d p => d.setStatus p.1 p.2) t, tail)) := by
  have hcount : c.statusMap.toList.length < 256 ^ 4 := by
    rw [Std.ExtTreeMap.length_toList]
    exact h
  have hmagic (rest : Bytes) : (readBytes 4 ()).run (clogMagic ++ rest) = (.ok clogMagic, rest) :=
    Reads.bytes () clogMagic rest
  have hlen : 4 + 4 + 4 ≤ (clogEncode c ++ tail).length := by
    simp only [clogEncode, List.length_append, length_putLE]
    simp [clogMagic]
    omega
  have htimes := FillM.run_times (p := fillClogEntry) (w := clogEntry)
    (g := fun d p => d.setStatus p.1 p.2) (l := c.statusMap.toList)
    (fun _ => True) (fun _ _ _ _ => trivial) (fun p _ d rest _ => run_fillClogEntry p d rest)
    (t := t) trivial tail
  rw [fillClogEntries, Prog.bind_ok (FillM.run_read (Prog.run_get _)),
    Prog.bind_ok (Prog.run_require_true hlen _)]
  simp only [clogEncode, List.append_assoc]
  rw [Prog.bind_ok (FillM.run_read (hmagic _)), Prog.bind_ok (Prog.run_require_true rfl _),
    Prog.bind_ok (FillM.run_read (Reads.le () (n := 4) (v := 1) (by decide) _)),
    Prog.bind_ok (Prog.run_require_true rfl _),
    Prog.bind_ok (FillM.run_read (Reads.le () hcount _)), htimes]

/-- Decoding into a fresh log gives the encoded one. -/
theorem clogDecode_encode {c : CLog} (h : c.statusMap.size < 2 ^ 32) :
    clogDecode (clogEncode c) CLog.empty = (true, c) := by
  have hentries := run_fillClogEntries h CLog.empty []
  rw [List.append_nil, foldl_setStatus] at hentries
  rw [clogDecode, fillClog_eq, Prog.bind_ok hentries]
  rfl

/-! ### Catalog -/

def schemaBytes (schema : Str) : Bytes := putPrefixed 2 schema

def databaseBytes (p : Str × StrSet) : Bytes :=
  putPrefixed 2 p.1 ++ (putLE 4 p.2.toList.length ++ p.2.toList.flatMap schemaBytes)

def userBytes (p : Str × UserInfo) : Bytes :=
  putPrefixed 2 p.1 ++ (putPrefixed 2 p.2.passwordHash ++ putPrefixed 2 p.2.salt)

def catalogEncode (c : Catalog) : Bytes :=
  putLE 4 1 ++ (putPrefixed 2 c.currentDb ++
    (putLE 4 c.databases.toList.length ++ (c.databases.toList.flatMap databaseBytes ++
      (putLE 4 c.users.toList.length ++ c.users.toList.flatMap userBytes))))

/-- Filling a catalog: `none` for bytes that are rejected, else what a catalog call threw. -/
abbrev FillCatalog (α : Type) := FillM Catalog (Option Failure) α

def catalogCall {α : Type} (p : CatalogM α) : FillCatalog α := FillM.target (Prog.mapError some p)

def fillSchema (dbName : Str) : FillCatalog Unit := do
  let sn ← FillM.read (readPrefixed 2 none)
  catalogCall (Catalog.ensureSchema dbName sn)

def fillDatabase : FillCatalog Unit := do
  let dbName ← FillM.read (readPrefixed 2 none)
  let schemaCount ← FillM.read (readLE 4 none)
  catalogCall (Catalog.ensureDatabase dbName)
  FillM.times (fillSchema dbName) schemaCount

def fillUser : FillCatalog Unit := do
  let uname ← FillM.read (readPrefixed 2 none)
  let pw ← FillM.read (readPrefixed 2 none)
  let salt ← FillM.read (readPrefixed 2 none)
  FillM.target (Prog.modify (·.internalSetUser uname pw salt))

def fillCatalog : FillCatalog Unit := do
  let fmt ← FillM.read (readLE 4 none)
  Prog.require (fmt = 1) none
  let curDb ← FillM.read (readPrefixed 2 none)
  let dbCount ← FillM.read (readLE 4 none)
  FillM.times fillDatabase dbCount
  let userCount ← FillM.read (readLE 4 none)
  FillM.times fillUser userCount
  if curDb ≠ [] then catalogCall (Catalog.setCurrentDatabase curDb) else pure ()
  FillM.read (readEnd none)

/-- Whether the bytes were accepted. -/
def catalogDecode (bytes : Bytes) : CatalogM Bool := ⟨fun c =>
  match fillCatalog.run (c, bytes) with
  | (.ok _, (c', _)) => (.ok true, c')
  | (.error none, (c', _)) => (.ok false, c')
  | (.error (some e), (c', _)) => (.error e, c')⟩

theorem run_catalogCall {α : Type} {p : CatalogM α} {c c' : Catalog} {a : α} {bs : Bytes}
    (h : p.run c = (.ok a, c')) : (catalogCall p).run (c, bs) = (.ok a, (c', bs)) :=
  FillM.run_target (Prog.run_mapError_ok h)

/-- No length field of the catalog wraps. -/
structure CatalogFits (c : Catalog) : Prop where
  currentDb : c.currentDb.length < 2 ^ 16
  databases : c.databases.size < 2 ^ 32
  schemas : ∀ p ∈ c.databases.toList, p.1.length < 2 ^ 16 ∧ p.2.size < 2 ^ 32 ∧
    ∀ s ∈ p.2.toList, s.length < 2 ^ 16
  users : c.users.size < 2 ^ 32
  userFields : ∀ p ∈ c.users.toList, p.1.length < 2 ^ 16 ∧ p.2.passwordHash.length < 2 ^ 16 ∧
    p.2.salt.length < 2 ^ 16

instance (c : Catalog) : Decidable (CatalogFits c) :=
  decidable_of_iff (c.currentDb.length < 2 ^ 16 ∧ c.databases.size < 2 ^ 32 ∧
    (∀ p ∈ c.databases.toList, p.1.length < 2 ^ 16 ∧ p.2.size < 2 ^ 32 ∧
      ∀ s ∈ p.2.toList, s.length < 2 ^ 16) ∧
    c.users.size < 2 ^ 32 ∧ ∀ p ∈ c.users.toList, p.1.length < 2 ^ 16 ∧
      p.2.passwordHash.length < 2 ^ 16 ∧ p.2.salt.length < 2 ^ 16)
    ⟨fun ⟨h₁, h₂, h₃, h₄, h₅⟩ => ⟨h₁, h₂, h₃, h₄, h₅⟩, fun ⟨h₁, h₂, h₃, h₄, h₅⟩ => ⟨h₁, h₂, h₃, h₄, h₅⟩⟩

section Decode

theorem run_readPrefixed {τ : Type} {s : Str} (h : s.length < 2 ^ 16) (t : τ) (rest : Bytes) :
    (FillM.read (readPrefixed 2 none) : FillM τ (Option Failure) Str).run
      (t, putPrefixed 2 s ++ rest) = (.ok s, (t, rest)) :=
  FillM.run_read (Reads.prefixed none h rest)

theorem run_readCount {τ : Type} {n : Nat} (h : n < 2 ^ 32) (t : τ) (rest : Bytes) :
    (FillM.read (readLE 4 none) : FillM τ (Option Failure) Nat).run (t, putLE 4 n ++ rest) =
      (.ok n, (t, rest)) :=
  FillM.run_read (Reads.le none (n := 4) h rest)

theorem foldl_addSchemas (c : Catalog) (name : Str) (before l : List Str) :
    l.foldl (fun d s => d.addSchemas name [s]) (c.addSchemas name before) =
      c.addSchemas name (before ++ l) := by
  induction l generalizing before with
  | nil => rw [List.append_nil, List.foldl_nil]
  | cons s l ih =>
    rw [List.foldl_cons, Catalog.addSchemas_append, ih, List.append_assoc, List.singleton_append]

theorem run_fillSchemas {name : Str} {schemas : List Str} (h : ∀ s ∈ schemas, s.length < 2 ^ 16)
    (c : Catalog) (rest : Bytes) :
    (FillM.times (fillSchema name) schemas.length).run
        (c.addSchemas name [], schemas.flatMap schemaBytes ++ rest) =
      (.ok (), (c.addSchemas name schemas, rest)) := by
  rw [FillM.run_times (g := fun d s => d.addSchemas name [s]) (fun d => name ∈ d.databases)
    (fun _ _ d hd => by simp [Catalog.addSchemas]) (fun s hs d rest hd => ?_)
    (by simp [Catalog.addSchemas]) rest, foldl_addSchemas, List.nil_append]
  rw [fillSchema, schemaBytes, Prog.bind_ok (run_readPrefixed (h s hs) d rest),
    run_catalogCall (Catalog.run_ensureSchema s hd)]

theorem run_fillDatabase {p : Str × StrSet} (hname : p.1.length < 2 ^ 16) (hcount : p.2.size < 2 ^ 32)
    (hschemas : ∀ s ∈ p.2.toList, s.length < 2 ^ 16) (c : Catalog) (rest : Bytes) :
    fillDatabase.run (c, databaseBytes p ++ rest) =
      (.ok (), (c.addSchemas p.1 p.2.toList, rest)) := by
  have hn : p.2.toList.length < 2 ^ 32 := by rwa [Std.ExtTreeSet.length_toList]
  rw [fillDatabase, databaseBytes, List.append_assoc, List.append_assoc,
    Prog.bind_ok (run_readPrefixed hname c _), Prog.bind_ok (run_readCount hn c _),
    Prog.bind_ok (run_catalogCall (Catalog.run_ensureDatabase c p.1)), run_fillSchemas hschemas]

theorem run_fillUser {p : Str × UserInfo} (h : p.1.length < 2 ^ 16 ∧
    p.2.passwordHash.length < 2 ^ 16 ∧ p.2.salt.length < 2 ^ 16) (c : Catalog) (rest : Bytes) :
    fillUser.run (c, userBytes p ++ rest) =
      (.ok (), ({ c with users := c.users.insert p.1 p.2 }, rest)) := by
  rw [fillUser, userBytes, List.append_assoc, List.append_assoc,
    Prog.bind_ok (run_readPrefixed h.1 c _), Prog.bind_ok (run_readPrefixed h.2.1 c _),
    Prog.bind_ok (run_readPrefixed h.2.2 c _)]
  rfl

theorem databases_foldl_of_ne (l : List (Str × StrSet)) (c : Catalog) {k : Str}
    (h : ∀ p ∈ l, p.1 ≠ k) :
    (l.foldl (fun d p => d.addSchemas p.1 p.2.toList) c).databases[k]? = c.databases[k]? := by
  induction l generalizing c with
  | nil => rfl
  | cons p l ih =>
    rw [List.foldl_cons, ih _ fun q hq => h q (by simp [hq])]
    simp [Catalog.addSchemas, Std.ExtTreeMap.getElem?_insert, h p (by simp)]

theorem databases_foldl_of_mem {l : List (Str × StrSet)} (c : Catalog)
    (distinct : l.Pairwise fun a b => a.1 ≠ b.1) {p : Str × StrSet} (h : p ∈ l) :
    (l.foldl (fun d p => d.addSchemas p.1 p.2.toList) c).databases[p.1]? =
      some (p.2.toList.foldl (fun (s : StrSet) n => s.insert n)
        (c.databases.getD p.1 Catalog.publicOnly)) := by
  induction l generalizing c with
  | nil => cases h
  | cons q l ih =>
    obtain ⟨hq, hl⟩ := List.pairwise_cons.1 distinct
    rw [List.foldl_cons]
    rcases List.mem_cons.1 h with rfl | hmem
    · rw [databases_foldl_of_ne l _ fun r hr => (hq r hr).symm]
      simp [Catalog.addSchemas]
    · rw [ih _ hl hmem]
      simp [Catalog.addSchemas, Std.ExtTreeMap.getD_insert, hq p hmem]

theorem databases_foldl {c : Catalog} (h : c.Regular) :
    (c.databases.toList.foldl (fun d p => d.addSchemas p.1 p.2.toList) Catalog.initial).databases =
      c.databases := by
  refine Std.ExtTreeMap.ext_getElem? fun k => ?_
  have hdistinct : c.databases.toList.Pairwise fun a b => a.1 ≠ b.1 :=
    Std.ExtTreeMap.distinct_keys_toList.imp fun hab he => hab (by simp [he])
  cases hk : c.databases[k]? with
  | none =>
    rw [databases_foldl_of_ne _ _ fun p hp he => ?_]
    · have hne : str "defaultdb" ≠ k := fun he => by
        have := he ▸ h.defaultdb
        rw [Std.ExtTreeMap.mem_iff_isSome_getElem?, hk] at this
        cases this
      simp [Catalog.initial, hne]
    · rw [Std.ExtTreeMap.mem_toList_iff_getElem?_eq_some, he, hk] at hp
      cases hp
  | some schemas =>
    have hmem : (k, schemas) ∈ c.databases.toList :=
      Std.ExtTreeMap.mem_toList_iff_getElem?_eq_some.2 hk
    rw [databases_foldl_of_mem Catalog.initial hdistinct hmem]
    have hstart : Catalog.initial.databases.getD k Catalog.publicOnly = Catalog.publicOnly := by
      simp only [Catalog.initial, Std.ExtTreeMap.getD_insert, Std.ExtTreeMap.getD_empty, ite_self]
    rw [hstart, OrderedMap.foldl_insert_toList fun s hs => ?_]
    rw [Catalog.publicOnly, Std.ExtTreeSet.mem_insert, Std.LawfulEqCmp.compare_eq_iff_eq] at hs
    rcases hs with rfl | hs
    · exact h.hasPublic k schemas hk
    · cases Std.ExtTreeSet.not_mem_empty hs

theorem foldl_addSchemas_users (l : List (Str × StrSet)) (c : Catalog) :
    (l.foldl (fun d p => d.addSchemas p.1 p.2.toList) c).users = c.users := by
  induction l generalizing c with
  | nil => rfl
  | cons p l ih => rw [List.foldl_cons, ih]; rfl

theorem foldl_addSchemas_currentDb (l : List (Str × StrSet)) (c : Catalog) :
    (l.foldl (fun d p => d.addSchemas p.1 p.2.toList) c).currentDb = c.currentDb := by
  induction l generalizing c with
  | nil => rfl
  | cons p l ih => rw [List.foldl_cons, ih]; rfl

theorem foldl_users (l : List (Str × UserInfo)) (c : Catalog) :
    l.foldl (fun (d : Catalog) p => { d with users := d.users.insert p.1 p.2 }) c =
      { c with users := l.foldl (fun (m : StrMap UserInfo) p => m.insert p.1 p.2) c.users } := by
  induction l generalizing c with
  | nil => rfl
  | cons p l ih => rw [List.foldl_cons, ih]; rfl

/-- The catalog that comes back: an empty name is not taken as the current database. -/
def Catalog.reopened (c : Catalog) : Catalog :=
  { c with currentDb := if c.currentDb = [] then str "defaultdb" else c.currentDb }

/-- Decoding into a new catalog gives the encoded one. -/
theorem catalogDecode_reopened {c : Catalog} (hfits : CatalogFits c) (h : c.Regular) :
    (catalogDecode (catalogEncode c)).run Catalog.initial = (.ok true, c.reopened) := by
  have hdbs : c.databases.toList.length < 2 ^ 32 := by
    rw [Std.ExtTreeMap.length_toList]; exact hfits.databases
  have husers : c.users.toList.length < 2 ^ 32 := by
    rw [Std.ExtTreeMap.length_toList]; exact hfits.users
  set c₁ := c.databases.toList.foldl (fun d p => d.addSchemas p.1 p.2.toList) Catalog.initial
    with hc₁
  set c₂ : Catalog := { c₁ with users := c.users } with hc₂
  have hfold : c.users.toList.foldl
      (fun (d : Catalog) p => { d with users := d.users.insert p.1 p.2 }) c₁ = c₂ := by
    rw [foldl_users, hc₁, foldl_addSchemas_users,
      show Catalog.initial.users = (∅ : StrMap UserInfo) from rfl,
      OrderedMap.foldl_toList fun _ _ _ => rfl]
  have hlast (db : Str) : { c₂ with currentDb := db } = { c with currentDb := db } :=
    Catalog.ext_databases (fun k => by rw [hc₂, hc₁, databases_foldl h]) rfl rfl
  have hexists : c₂.databaseExists c.currentDb = true := by
    rw [hc₂, hc₁, Catalog.databaseExists, databases_foldl h]
    exact h.current
  have hset : (Catalog.setCurrentDatabase c.currentDb).run c₂ = (.ok (), c) := by
    rw [Catalog.setCurrentDatabase, Prog.bind_ok (Prog.run_get c₂), if_neg (by simp [hexists]),
      Prog.run_set, hlast]
  have hcurrent : c₁.currentDb = str "defaultdb" := by
    rw [hc₁, foldl_addSchemas_currentDb]
    rfl
  have hrun : fillCatalog.run (Catalog.initial, catalogEncode c) = (.ok (), (c.reopened, [])) := by
    rw [fillCatalog, catalogEncode, Prog.bind_ok (run_readCount (by decide) _ _),
      Prog.bind_ok (Prog.run_require_true rfl _),
      Prog.bind_ok (run_readPrefixed hfits.currentDb _ _),
      Prog.bind_ok (run_readCount hdbs _ _),
      Prog.bind_ok (FillM.run_times (fun _ => True) (fun _ _ _ _ => trivial)
        (fun p hp d rest _ => run_fillDatabase (hfits.schemas p hp).1 (hfits.schemas p hp).2.1
          (hfits.schemas p hp).2.2 d rest) trivial _), ← hc₁,
      Prog.bind_ok (run_readCount husers _ _)]
    have htimes := FillM.run_times (fun _ => True) (fun _ _ _ _ => trivial)
      (fun p hp d rest _ => run_fillUser (hfits.userFields p hp) d rest) (t := c₁) trivial []
    rw [List.append_nil, hfold] at htimes
    rw [Prog.bind_ok htimes, Catalog.reopened]
    by_cases hcur : c.currentDb = []
    · have hsame : c₂ = { c with currentDb := str "defaultdb" } := by
        rw [← hlast, ← hcurrent]
      rw [if_neg (not_not.2 hcur), if_pos hcur, ← hsame]
      rfl
    · rw [if_pos hcur, Prog.bind_ok (run_catalogCall hset), if_neg hcur]
      rfl
  simp only [catalogDecode, hrun]

theorem catalogDecode_encode {c : Catalog} (hfits : CatalogFits c) (h : c.Regular)
    (hcur : c.currentDb ≠ []) :
    (catalogDecode (catalogEncode c)).run Catalog.initial = (.ok true, c) := by
  rw [catalogDecode_reopened hfits h, Catalog.reopened, if_neg hcur]

end Decode

/-! ### Catalogs that calls have made -/

inductive CatalogCall where
  | createDatabase (name : Str)
  | dropDatabase (name : Str)
  | createSchema (dbName schemaName : Str)
  | dropSchema (dbName schemaName : Str)
  | createUser (name password salt : Str)
  | dropUser (name : Str)
  | setCurrentDatabase (name : Str)

namespace CatalogCall

def run : CatalogCall → CatalogM Unit
  | createDatabase name => Catalog.createDatabase name
  | dropDatabase name => Catalog.dropDatabase name
  | createSchema dbName schemaName => Catalog.createSchema dbName schemaName
  | dropSchema dbName schemaName => Catalog.dropSchema dbName schemaName
  | createUser name password salt => Catalog.createUser name password salt
  | dropUser name => Catalog.dropUser name
  | setCurrentDatabase name => Catalog.setCurrentDatabase name

end CatalogCall

/-- The catalog after the calls, of which some may have thrown. -/
def Catalog.after (calls : List CatalogCall) : Catalog :=
  calls.foldl (fun c call => (call.run.run c).2) Catalog.initial

theorem CatalogCall.keeps_regular (call : CatalogCall) : Prog.Keeps Catalog.Regular call.run := by
  intro c h
  cases call <;> simp only [CatalogCall.run]
  case createDatabase name =>
    rw [Catalog.createDatabase, Prog.wp_bind, Prog.wp_get]
    split
    · exact h
    · exact h.insert Std.ExtTreeSet.mem_insert_self
  case dropDatabase name =>
    rw [Catalog.dropDatabase, Prog.wp_bind, Prog.wp_get]
    split
    · exact h
    · split
      · exact h
      · exact h.drop ‹_›
  case createSchema dbName schemaName =>
    rw [Catalog.createSchema, Prog.wp_bind, Prog.wp_get]
    split
    · exact h
    · rename_i schemas hdb
      split
      · exact h
      · exact h.insert (Std.ExtTreeSet.mem_insert.mpr (.inr (h.hasPublic _ _ hdb)))
  case dropSchema dbName schemaName =>
    rw [Catalog.dropSchema, Prog.wp_bind, Prog.wp_get]
    split
    · exact h
    · rename_i hpublic
      split
      · exact h
      · rename_i schemas hdb
        split
        · exact h
        · refine h.insert (Std.ExtTreeSet.mem_erase.mpr ⟨fun he => hpublic ?_, h.hasPublic _ _ hdb⟩)
          exact Std.LawfulEqOrd.eq_of_compare he
  case createUser name password salt =>
    rw [Catalog.createUser, Prog.wp_bind, Prog.wp_get]
    split
    · exact h
    · exact h.setUsers _
  case dropUser name =>
    rw [Catalog.dropUser, Prog.wp_bind, Prog.wp_get]
    split
    · exact h
    · exact h.setUsers _
  case setCurrentDatabase name =>
    rw [Catalog.setCurrentDatabase, Prog.wp_bind, Prog.wp_get]
    split
    · exact h
    · rename_i hdb
      exact ⟨h.defaultdb, h.hasPublic, by simpa [Catalog.databaseExists] using hdb⟩

theorem regular_after (calls : List CatalogCall) : (Catalog.after calls).Regular := by
  unfold Catalog.after
  refine List.foldlRecOn calls _ Catalog.regular_initial fun c h call _ => ?_
  exact (call.keeps_regular).final h

/-- The catalog is read back as it was unless the current database has the empty name. -/
theorem catalog_roundTrip_iff {calls : List CatalogCall} (hfits : CatalogFits (Catalog.after calls)) :
    (catalogDecode (catalogEncode (Catalog.after calls))).run Catalog.initial =
      (.ok true, Catalog.after calls) ↔ (Catalog.after calls).currentDb ≠ [] := by
  constructor
  · intro h hcur
    rw [catalogDecode_reopened hfits (regular_after calls)] at h
    have hdb := congrArg Catalog.currentDb (Prod.mk.inj h).2
    rw [Catalog.reopened, if_pos hcur, hcur] at hdb
    cases hdb
  · exact catalogDecode_encode hfits (regular_after calls)

/-- A database, a schema and a user. -/
theorem catalog_roundTrip_user :
    (catalogDecode (catalogEncode (Catalog.after [.createDatabase (str "d"),
      .createSchema (str "d") (str "s"), .createUser (str "u") (str "p") (str "salt"),
      .setCurrentDatabase (str "d")]))).run Catalog.initial =
      (.ok true, Catalog.after [.createDatabase (str "d"),
      .createSchema (str "d") (str "s"), .createUser (str "u") (str "p") (str "salt"),
      .setCurrentDatabase (str "d")]) := by
  refine (catalog_roundTrip_iff ⟨?_, ?_, ?_, ?_, ?_⟩).mpr ?_ <;> decide +kernel

/-- The empty name is not read as that of the current database. -/
theorem not_catalog_roundTrip : ¬ ∀ calls, CatalogFits (Catalog.after calls) →
    (catalogDecode (catalogEncode (Catalog.after calls))).run Catalog.initial =
      (.ok true, Catalog.after calls) := by
  intro hall
  have h := hall [.createDatabase [], .setCurrentDatabase []]
    ⟨by decide +kernel, by decide +kernel, by decide +kernel, by decide +kernel, by decide +kernel⟩
  have hdb := congrArg (fun r => r.2.currentDb) h
  revert hdb
  decide +kernel

end JiaMiaoDB
