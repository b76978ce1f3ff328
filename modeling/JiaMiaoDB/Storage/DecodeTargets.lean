import JiaMiaoDB.Storage.CatalogCodec

/-!
# Rejected commit logs and catalogs

Which bytes the two decoders reject, and what a rejected input leaves in the target. The decoders
apply every entry as they read it, so the target keeps the entries before the place where the
reading stopped.
-/

set_option autoImplicit false

namespace JiaMiaoDB
open ByteFormat

namespace FillM
section Rules
variable {τ σ ε α β : Type}

/-! ### Fillers that do not look ahead -/

/-- What `p` reads and does to the target does not depend on the bytes behind it. -/
def Local (p : FillM τ ε α) : Prop :=
  ∀ t bs a t' rest, p.run (t, bs) = (.ok a, (t', rest)) →
    ∀ tail, p.run (t, bs ++ tail) = (.ok a, (t', rest ++ tail))

theorem run_read_eq (r : Reader ε α) (t : τ) (bs : Bytes) :
    (read r : FillM τ ε α).run (t, bs) = ((r.run bs).1, (t, (r.run bs).2)) := rfl

theorem run_target_eq (p : Prog τ ε α) (t : τ) (bs : Bytes) :
    (target p : FillM τ ε α).run (t, bs) = ((p.run t).1, ((p.run t).2, bs)) := rfl

theorem local_read {r : Reader ε α} (hr : Tight r) : Local (read r : FillM τ ε α) := by
  intro t bs a t' rest h tail
  rw [run_read_eq] at h ⊢
  rcases hrun : r.run bs with ⟨e | b, rest'⟩
  · rw [hrun] at h
    cases h
  · rw [hrun] at h
    cases h
    rw [hr.isLocal bs a rest' hrun tail]

theorem local_target (p : Prog τ ε α) : Local (target p) := by
  intro t bs a t' rest h tail
  rw [run_target_eq] at h ⊢
  rcases hrun : p.run t with ⟨e | b, t''⟩
  · rw [hrun] at h
    cases h
  · rw [hrun] at h
    cases h
    rfl

theorem local_pure (a : α) : Local (pure a : FillM τ ε α) := by
  intro t bs b t' rest h tail
  cases h
  rfl

theorem local_throw (e : ε) : Local (Prog.throw e : FillM τ ε α) := by
  intro t bs b t' rest h
  cases h

theorem Local.bind {p : FillM τ ε α} {f : α → FillM τ ε β} (hp : Local p) (hf : ∀ a, Local (f a)) :
    Local (p >>= f) := by
  intro t bs b t' rest h tail
  obtain ⟨a, ⟨t₁, bs₁⟩, ha, hb⟩ := Prog.exists_of_bind_ok h
  rw [Prog.bind_ok (hp t bs a t₁ bs₁ ha tail)]
  exact hf a t₁ bs₁ b t' rest hb tail

theorem local_require (c : Prop) [Decidable c] (e : ε) :
    Local (Prog.require c e : FillM τ ε Unit) := by
  rw [Prog.require]
  split
  · exact local_pure ()
  · exact local_throw e

theorem Local.times {p : FillM τ ε Unit} (hp : Local p) (n : Nat) : Local (times p n) := by
  rw [FillM.times]
  induction n with
  | zero => exact local_pure ()
  | succ n ih => exact hp.bind fun _ => ih

/-! ### Fillers and their entries -/

/-- `p` reads like `q` and applies to its target the entries that `q` lists. `I` holds of the target
before, `J` after a normal end. -/
def Follows (g : τ → σ → τ) (I J : τ → Prop) (p : FillM τ ε α) (q : FillM (List σ) ε α) : Prop :=
  ∀ t l bs r l' rest, I (l.foldl g t) → q.run (l, bs) = (r, (l', rest)) →
    p.run (l.foldl g t, bs) = (r, (l'.foldl g t, rest)) ∧ ∀ a, r = .ok a → J (l'.foldl g t)

variable {g : τ → σ → τ} {I J K : τ → Prop}

theorem follows_read (r : Reader ε α) : Follows g I I (read r) (read r) := by
  intro t l bs res l' rest hI h
  rw [run_read_eq] at h ⊢
  cases h
  exact ⟨rfl, fun _ _ => hI⟩

theorem follows_pure (a : α) : Follows (ε := ε) g I I (pure a) (pure a) := by
  intro t l bs res l' rest hI h
  cases h
  exact ⟨rfl, fun _ _ => hI⟩

theorem follows_throw (e : ε) : Follows (α := α) g I J (Prog.throw e) (Prog.throw e) := by
  intro t l bs res l' rest hI h
  cases h
  exact ⟨rfl, fun _ ha => by cases ha⟩

theorem follows_require (c : Prop) [Decidable c] (e : ε) :
    Follows g I I (Prog.require c e) (Prog.require c e) := by
  rw [Prog.require, Prog.require]
  split
  · exact follows_pure ()
  · exact follows_throw e

/-- Adds an entry to the list. -/
def list (s : σ) : FillM (List σ) ε Unit := target (Prog.modify (· ++ [s]))

theorem follows_list {p : Prog τ ε Unit} {s : σ}
    (h : ∀ t, I t → p.run t = (.ok (), g t s) ∧ J (g t s)) :
    Follows g I J (target p) (list s) := by
  intro t l bs res l' rest hI hrun
  cases hrun
  simp only [List.foldl_append, List.foldl_cons, List.foldl_nil]
  obtain ⟨hp, hJ⟩ := h _ hI
  exact ⟨run_target hp, fun _ _ => hJ⟩

theorem Follows.bind {p : FillM τ ε α} {q : FillM (List σ) ε α} {f : α → FillM τ ε β}
    {f' : α → FillM (List σ) ε β} (hp : Follows g I J p q)
    (hf : ∀ a, Follows g J K (f a) (f' a)) : Follows g I K (p >>= f) (q >>= f') := by
  intro t l bs res l' rest hI h
  rw [Prog.run_bind] at h
  rcases hq : q.run (l, bs) with ⟨e | a, l₁, bs₁⟩
  · obtain ⟨hrun, -⟩ := hp t l bs _ l₁ bs₁ hI hq
    rw [hq] at h
    cases h
    exact ⟨Prog.bind_error hrun, fun _ ha => by cases ha⟩
  · obtain ⟨hrun, hJ⟩ := hp t l bs _ l₁ bs₁ hI hq
    rw [hq] at h
    rw [Prog.bind_ok hrun]
    exact hf a t l₁ bs₁ res l' rest (hJ a rfl) h

theorem Follows.times {p : FillM τ ε Unit} {q : FillM (List σ) ε Unit} (hp : Follows g I I p q)
    (n : Nat) : Follows g I I (times p n) (times q n) := by
  rw [FillM.times, FillM.times]
  induction n with
  | zero => exact follows_pure ()
  | succ n ih => exact hp.bind fun _ => ih

theorem Follows.weaken {p : FillM τ ε α} {q : FillM (List σ) ε α} {I' J' : τ → Prop}
    (hp : Follows g I J p q) (hI : ∀ t, I' t → I t) (hJ : ∀ t, J t → J' t) :
    Follows g I' J' p q := by
  intro t l bs res l' rest ht h
  obtain ⟨hrun, hpost⟩ := hp t l bs res l' rest (hI _ ht) h
  exact ⟨hrun, fun a ha => hJ _ (hpost a ha)⟩

end Rules
end FillM

/-! ### Bytes that are no commit log -/

theorem local_fillClogEntry : FillM.Local fillClogEntry := by
  unfold fillClogEntry
  refine (FillM.local_read tight_u32).bind fun xid => (FillM.local_read (Tight.le 1 ())).bind ?_
  intro tag
  split
  · exact FillM.local_throw ()
  · exact FillM.local_target _

theorem local_fillClogEntries : FillM.Local fillClogEntries := by
  have hrest : FillM.Local (do
      let m ← FillM.read (readBytes 4 ())
      Prog.require (m = clogMagic) ()
      let fmt ← FillM.read (readLE 4 ())
      Prog.require (fmt = 1) ()
      let count ← FillM.read (readLE 4 ())
      FillM.times fillClogEntry count) :=
    (FillM.local_read (Tight.bytes 4 ())).bind fun _ => (FillM.local_require _ _).bind fun _ =>
      (FillM.local_read (Tight.le 4 ())).bind fun _ => (FillM.local_require _ _).bind fun _ =>
        (FillM.local_read (Tight.le 4 ())).bind fun count => local_fillClogEntry.times count
  intro t bs a t' rest h tail
  have hget (bytes : Bytes) : (FillM.read (Prog.get : PayloadReader Bytes) :
      FillM CLog Unit Bytes).run (t, bytes) = (.ok bytes, (t, bytes)) := rfl
  rw [fillClogEntries, Prog.bind_ok (hget _)] at h ⊢
  by_cases hlen : 4 + 4 + 4 ≤ bs.length
  · have hlen' : 4 + 4 + 4 ≤ (bs ++ tail).length := by
      rw [List.length_append]
      omega
    rw [Prog.bind_ok (Prog.run_require_true hlen _)] at h
    rw [Prog.bind_ok (Prog.run_require_true hlen' _)]
    exact hrest t bs a t' rest h tail
  · rw [Prog.bind_error (Prog.run_require_false hlen _)] at h
    cases h

theorem run_readEnd {τ : Type} (t : τ) (bs : Bytes) :
    (FillM.read (readEnd ()) : FillM τ Unit Unit).run (t, bs) =
      (if bs = [] then .ok () else .error (), (t, bs)) := by
  rw [FillM.run_read_eq]
  by_cases h : bs = []
  · subst h
    rfl
  · rw [if_neg h, run_readEnd_of_ne h]

/-- An encoded log comes back whole; with its end cut off, or with anything behind it, it is
rejected. -/
theorem clogDecode_exact {c : CLog} (h : c.statusMap.size < 2 ^ 32) :
    (∃ d, clogDecode (clogEncode c) CLog.empty = (true, d) ∧
        ∀ xid, d.getStatus xid = c.getStatus xid) ∧
      (∀ bytes, bytes <+: clogEncode c → bytes ≠ clogEncode c →
        ∀ t, (clogDecode bytes t).1 = false) ∧
      (∀ extra, extra ≠ [] → ∀ t, (clogDecode (clogEncode c ++ extra) t).1 = false) := by
  refine ⟨⟨c, clogDecode_encode h, fun _ => rfl⟩, ?_, ?_⟩
  · rintro bytes ⟨tail, htail⟩ hne t
    rw [clogDecode, fillClog_eq, Prog.run_bind]
    rcases hrun : fillClogEntries.run (t, bytes) with ⟨e | u, t', rest⟩
    · rfl
    -- On the whole encoding the same entries leave `rest ++ tail`, and they leave nothing.
    have hwhole := local_fillClogEntries t bytes u t' rest hrun tail
    have hencode := run_fillClogEntries h t []
    rw [List.append_nil, ← htail, hwhole] at hencode
    have hnil : rest ++ tail = [] := congrArg (fun r => r.2.2) hencode
    refine absurd ?_ hne
    rw [← htail, (List.append_eq_nil_iff.mp hnil).2, List.append_nil]
  · intro extra hextra t
    rw [clogDecode, fillClog_eq, Prog.bind_ok (run_fillClogEntries h t extra), run_readEnd,
      if_neg hextra]

/-- A log with two transactions. -/
def twoStatuses : CLog :=
  (CLog.empty.setStatus 3 TransactionStatus.committed).setStatus 4 TransactionStatus.aborted

theorem clogDecode_exact_two :
    twoStatuses.statusMap.size < 2 ^ 32 ∧
      (∃ d, clogDecode (clogEncode twoStatuses) CLog.empty = (true, d) ∧
        ∀ xid, d.getStatus xid = twoStatuses.getStatus xid) :=
  ⟨by decide +kernel, (clogDecode_exact (by decide +kernel)).1⟩

/-! ### The entries of a commit log -/

abbrev ClogEntry := TransactionId × TransactionStatus

def listClogEntry : FillM (List ClogEntry) Unit Unit := do
  let xid ← FillM.read readU32
  let tag ← FillM.read (readLE 1 ())
  match TransactionStatus.ofTag? tag with
  | none => Prog.throw ()
  | some status => FillM.list (xid, status)

def listClog : FillM (List ClogEntry) Unit Unit := do
  let bytes ← FillM.read (Prog.get : PayloadReader Bytes)
  Prog.require (4 + 4 + 4 ≤ bytes.length) ()
  let m ← FillM.read (readBytes 4 ())
  Prog.require (m = clogMagic) ()
  let fmt ← FillM.read (readLE 4 ())
  Prog.require (fmt = 1) ()
  let count ← FillM.read (readLE 4 ())
  FillM.times listClogEntry count

/-- The whole entries that stand before the first defect. -/
def clogEntries (bytes : Bytes) : List ClogEntry := (listClog.run ([], bytes)).2.1

def CLog.addEntry (t : CLog) (p : ClogEntry) : CLog := t.setStatus p.1 p.2

/-- The log has the status of the last entry of each transaction. -/
def CLog.HasEntries (t : CLog) (entries : List ClogEntry) : Prop :=
  ∀ xid p, entries.findRev? (·.1 = xid) = some p → t.statusMap[xid]? = some p.2

theorem follows_clogEntry :
    FillM.Follows CLog.addEntry (fun _ => True) (fun _ => True) fillClogEntry listClogEntry := by
  unfold fillClogEntry listClogEntry
  refine (FillM.follows_read _).bind fun xid => (FillM.follows_read _).bind fun tag => ?_
  cases TransactionStatus.ofTag? tag with
  | none => exact FillM.follows_throw ()
  | some status => exact FillM.follows_list fun t _ => ⟨rfl, trivial⟩

theorem follows_clog :
    FillM.Follows CLog.addEntry (fun _ => True) (fun _ => True) fillClogEntries listClog :=
  (FillM.follows_read _).bind fun _ => (FillM.follows_require _ _).bind fun _ =>
    (FillM.follows_read _).bind fun _ => (FillM.follows_require _ _).bind fun _ =>
      (FillM.follows_read _).bind fun _ => (FillM.follows_require _ _).bind fun _ =>
        (FillM.follows_read _).bind fun count => follows_clogEntry.times count

/-- What the decoder leaves, whether it accepts or not: the entries one after the other. -/
theorem clogDecode_target (bytes : Bytes) (t : CLog) :
    (clogDecode bytes t).2 = (clogEntries bytes).foldl CLog.addEntry t := by
  rcases hlist : listClog.run ([], bytes) with ⟨r, l, rest⟩
  obtain ⟨hrun, -⟩ := follows_clog t [] bytes r l rest trivial hlist
  have hentries : clogEntries bytes = l := congrArg (fun r => r.2.1) hlist
  rw [List.foldl_nil] at hrun
  rw [hentries, clogDecode, fillClog_eq]
  cases r with
  | error e => rw [Prog.bind_error hrun]
  | ok u =>
    rw [Prog.bind_ok hrun, run_readEnd]
    by_cases h : rest = []
    · rw [if_pos h]
    · rw [if_neg h]

theorem clog_eq_iff {t t' : CLog} : t = t' ↔ t.statusMap = t'.statusMap := by
  rcases t with ⟨m⟩
  rcases t' with ⟨m'⟩
  exact CLog.mk.injEq m m' ▸ Iff.rfl

theorem statusMap_foldl_addEntry (entries : List ClogEntry) (t : CLog) :
    (entries.foldl CLog.addEntry t).statusMap =
      entries.foldl (fun m p => m.insert p.1 p.2) t.statusMap := by
  induction entries generalizing t with
  | nil => rfl
  | cons p entries ih => exact ih (t.addEntry p)

theorem clogDecode_unchanged_iff (bytes : Bytes) (t : CLog) :
    (clogDecode bytes t).2 = t ↔ t.HasEntries (clogEntries bytes) := by
  rw [clogDecode_target, clog_eq_iff, statusMap_foldl_addEntry]
  exact OrderedMap.foldl_entries_eq_self_iff _ _

/-! ### The entries of a catalog -/

inductive CatalogEntry where
  | database (name : Str)
  | schema (dbName schemaName : Str)
  | user (name passwordHash salt : Str)

namespace CatalogEntry

def addTo (c : Catalog) : CatalogEntry → Catalog
  | database name => c.addSchemas name []
  | schema dbName schemaName => c.addSchemas dbName [schemaName]
  | user name passwordHash salt => c.internalSetUser name passwordHash salt

/-- A database or schema of the catalog; nothing is asked of a user. -/
def Stands (c : Catalog) : CatalogEntry → Prop
  | database name => name ∈ c.databases
  | schema dbName schemaName => c.schemaExists dbName schemaName = true
  | user _ _ _ => True

def asUser : CatalogEntry → Option (Str × UserInfo)
  | user name passwordHash salt => some (name, ⟨passwordHash, salt⟩)
  | database _ | schema _ _ => none

end CatalogEntry

/-- Filling the list of entries. -/
abbrev ListCatalog (α : Type) := FillM (List CatalogEntry) (Option Failure) α

def listSchema (dbName : Str) : ListCatalog Unit := do
  let sn ← FillM.read (readPrefixed 2 none)
  FillM.list (.schema dbName sn)

def listDatabase : ListCatalog Unit := do
  let dbName ← FillM.read (readPrefixed 2 none)
  let schemaCount ← FillM.read (readLE 4 none)
  FillM.list (.database dbName)
  FillM.times (listSchema dbName) schemaCount

def listUser : ListCatalog Unit := do
  let uname ← FillM.read (readPrefixed 2 none)
  let pw ← FillM.read (readPrefixed 2 none)
  let salt ← FillM.read (readPrefixed 2 none)
  FillM.list (.user uname pw salt)

/-- Yields the name that stands for the current database. -/
def listCatalog : ListCatalog Str := do
  let fmt ← FillM.read (readLE 4 none)
  Prog.require (fmt = 1) none
  let curDb ← FillM.read (readPrefixed 2 none)
  let dbCount ← FillM.read (readLE 4 none)
  FillM.times listDatabase dbCount
  let userCount ← FillM.read (readLE 4 none)
  FillM.times listUser userCount
  pure curDb

/-- The whole entries that stand before the first defect. -/
def catalogEntries (bytes : Bytes) : List CatalogEntry := (listCatalog.run ([], bytes)).2.1

/-- The name of the current database, once all entries have been read. -/
def catalogCurrent (bytes : Bytes) : Option Str := (listCatalog.run ([], bytes)).1.toOption

/-- The catalog has every database and schema, the last entry of each user, and the current database
if that is one of its own. -/
structure Catalog.HasEntries (c : Catalog) (bytes : Bytes) : Prop where
  stands : ∀ e ∈ catalogEntries bytes, e.Stands c
  users : ∀ name p, ((catalogEntries bytes).filterMap CatalogEntry.asUser).findRev? (·.1 = name) =
    some p → c.users[name]? = some p.2
  current : ∀ db ∈ catalogCurrent bytes, db ≠ [] → c.databaseExists db = true → c.currentDb = db

/-- Everything in front of the choice of the current database. -/
def fillCatalogEntries : FillCatalog Str := do
  let fmt ← FillM.read (readLE 4 none)
  Prog.require (fmt = 1) none
  let curDb ← FillM.read (readPrefixed 2 none)
  let dbCount ← FillM.read (readLE 4 none)
  FillM.times fillDatabase dbCount
  let userCount ← FillM.read (readLE 4 none)
  FillM.times fillUser userCount
  pure curDb

def finishCatalog (curDb : Str) : FillCatalog Unit := do
  if curDb ≠ [] then catalogCall (Catalog.setCurrentDatabase curDb) else pure ()
  FillM.read (readEnd none)

theorem fillCatalog_eq : fillCatalog = fillCatalogEntries >>= finishCatalog := by
  simp only [fillCatalog, fillCatalogEntries, bind_assoc, pure_bind]
  rfl

theorem mem_addSchemas {c : Catalog} {name db : Str} (schemas : List Str) (h : db ∈ c.databases) :
    db ∈ (c.addSchemas name schemas).databases :=
  Std.ExtTreeMap.mem_insert.mpr (.inr h)

theorem follows_database : FillM.Follows CatalogEntry.addTo (fun _ => True) (fun _ => True)
    fillDatabase listDatabase := by
  unfold fillDatabase listDatabase
  refine (FillM.follows_read _).bind fun dbName => (FillM.follows_read _).bind fun schemaCount => ?_
  -- From here on the database exists, so that no schema is refused.
  have hcreate : FillM.Follows CatalogEntry.addTo (fun _ => True) (dbName ∈ ·.databases)
      (catalogCall (Catalog.ensureDatabase dbName)) (FillM.list (.database dbName)) := by
    apply FillM.follows_list
    intro c _
    refine ⟨Prog.run_mapError_ok (Catalog.run_ensureDatabase c dbName), ?_⟩
    exact Std.ExtTreeMap.mem_insert_self
  have hschema : FillM.Follows CatalogEntry.addTo (dbName ∈ ·.databases) (dbName ∈ ·.databases)
      (fillSchema dbName) (listSchema dbName) := by
    unfold fillSchema listSchema
    refine (FillM.follows_read _).bind fun sn => FillM.follows_list ?_
    intro c hc
    exact ⟨Prog.run_mapError_ok (Catalog.run_ensureSchema sn hc), mem_addSchemas [sn] hc⟩
  exact (hcreate.bind fun _ => hschema.times schemaCount).weaken (fun _ h => h) (fun _ _ => trivial)

theorem follows_user : FillM.Follows CatalogEntry.addTo (fun _ => True) (fun _ => True)
    fillUser listUser := by
  unfold fillUser listUser
  refine (FillM.follows_read _).bind fun uname => (FillM.follows_read _).bind fun pw =>
    (FillM.follows_read _).bind fun salt => FillM.follows_list ?_
  intro c _
  exact ⟨rfl, trivial⟩

theorem follows_catalog : FillM.Follows CatalogEntry.addTo (fun _ => True) (fun _ => True)
    fillCatalogEntries listCatalog :=
  (FillM.follows_read _).bind fun _ => (FillM.follows_require _ _).bind fun _ =>
    (FillM.follows_read _).bind fun curDb => (FillM.follows_read _).bind fun dbCount =>
      (follows_database.times dbCount).bind fun _ => (FillM.follows_read _).bind fun userCount =>
        (follows_user.times userCount).bind fun _ => FillM.follows_pure curDb

/-! ### Entries that a catalog has already -/

section Entries
variable {c : Catalog}

theorem addSchemas_of_mem {name : Str} (h : name ∈ c.databases) : c.addSchemas name [] = c := by
  have hrun := Catalog.run_ensureDatabase c name
  have hexists : c.databaseExists name = true := h
  rw [Catalog.ensureDatabase, Prog.bind_ok (Prog.run_get c), if_pos hexists] at hrun
  exact (congrArg Prod.snd hrun).symm

theorem addSchemas_of_exists {dbName schemaName : Str} (h : c.schemaExists dbName schemaName = true) :
    c.addSchemas dbName [schemaName] = c := by
  have hmem : dbName ∈ c.databases := by
    rw [Std.ExtTreeMap.mem_iff_isSome_getElem?]
    unfold Catalog.schemaExists at h
    cases hdb : c.databases[dbName]? with
    | none => rw [hdb] at h; cases h
    | some schemas => rfl
  have hrun := Catalog.run_ensureSchema schemaName hmem
  rw [Catalog.ensureSchema, Prog.bind_ok (Prog.run_get c), if_pos h] at hrun
  exact (congrArg Prod.snd hrun).symm

theorem schemaExists_addSchemas {dbName schemaName name : Str} {schemas : List Str}
    (h : c.schemaExists dbName schemaName = true ∨ (name = dbName ∧ schemaName ∈ schemas)) :
    (c.addSchemas name schemas).schemaExists dbName schemaName = true := by
  unfold Catalog.schemaExists Catalog.addSchemas at *
  rw [Std.ExtTreeMap.getElem?_insert]
  by_cases hname : name = dbName
  · subst hname
    rw [if_pos Std.ReflCmp.compare_self, Option.any_some]
    refine (OrderedMap.mem_foldl_insert _ _ _).mpr ?_
    rcases h with h | ⟨-, h⟩
    · left
      cases hdb : c.databases[name]? with
      | none => rw [hdb] at h; cases h
      | some old =>
        rw [hdb, Option.any_some] at h
        rw [Std.ExtTreeMap.getD_eq_getD_getElem?, hdb]
        exact h
    · exact .inr h
  · rw [if_neg fun he => hname (Std.LawfulEqOrd.eq_of_compare he)]
    exact h.resolve_right fun hr => hname hr.1

namespace CatalogEntry

theorem stands_addTo_self (c : Catalog) (e : CatalogEntry) : e.Stands (e.addTo c) := by
  cases e with
  | database name => exact Std.ExtTreeMap.mem_insert_self
  | schema dbName schemaName => exact schemaExists_addSchemas (.inr ⟨rfl, List.mem_singleton_self _⟩)
  | user name passwordHash salt => trivial

theorem Stands.addTo {e : CatalogEntry} (h : e.Stands c) (d : CatalogEntry) :
    e.Stands (d.addTo c) := by
  cases e with
  | database name =>
    cases d with
    | database name' => exact mem_addSchemas [] h
    | schema dbName schemaName => exact mem_addSchemas [schemaName] h
    | user name passwordHash salt => exact h
  | schema dbName schemaName =>
    cases d with
    | database name => exact schemaExists_addSchemas (.inl h)
    | schema dbName' schemaName' => exact schemaExists_addSchemas (.inl h)
    | user name passwordHash salt => exact h
  | user name passwordHash salt => trivial

theorem Stands.foldl {e : CatalogEntry} (h : e.Stands c) (entries : List CatalogEntry) :
    e.Stands (entries.foldl CatalogEntry.addTo c) := by
  induction entries generalizing c with
  | nil => exact h
  | cons d entries ih => exact ih (h.addTo d)

/-- After all entries every one of them stands. -/
theorem stands_foldl (c : Catalog) (entries : List CatalogEntry) :
    ∀ e ∈ entries, e.Stands (entries.foldl CatalogEntry.addTo c) := by
  induction entries generalizing c with
  | nil => simp
  | cons d entries ih =>
    intro e he
    rcases List.mem_cons.mp he with rfl | he
    · exact (stands_addTo_self c e).foldl entries
    · exact ih (d.addTo c) e he

theorem databases_addTo {e : CatalogEntry} (h : e.Stands c) :
    (e.addTo c).databases = c.databases := by
  cases e with
  | database name => exact congrArg Catalog.databases (addSchemas_of_mem h)
  | schema dbName schemaName => exact congrArg Catalog.databases (addSchemas_of_exists h)
  | user name passwordHash salt => rfl

theorem databases_foldl_addTo {entries : List CatalogEntry} (h : ∀ e ∈ entries, e.Stands c) :
    (entries.foldl CatalogEntry.addTo c).databases = c.databases := by
  induction entries generalizing c with
  | nil => rfl
  | cons e entries ih =>
    have hnext : ∀ d ∈ entries, d.Stands (e.addTo c) := fun d hd =>
      (h d (List.mem_cons_of_mem _ hd)).addTo e
    rw [List.foldl_cons, ih hnext, databases_addTo (h e List.mem_cons_self)]

theorem users_foldl_addTo (c : Catalog) (entries : List CatalogEntry) :
    (entries.foldl CatalogEntry.addTo c).users =
      (entries.filterMap asUser).foldl (fun m p => m.insert p.1 p.2) c.users := by
  induction entries generalizing c with
  | nil => rfl
  | cons e entries ih =>
    rw [List.foldl_cons, ih]
    cases e <;> rfl

theorem currentDb_foldl_addTo (c : Catalog) (entries : List CatalogEntry) :
    (entries.foldl CatalogEntry.addTo c).currentDb = c.currentDb := by
  induction entries generalizing c with
  | nil => rfl
  | cons e entries ih =>
    rw [List.foldl_cons, ih]
    cases e <;> rfl

/-- The entries change nothing exactly when all of them stand and each user has the last entry. -/
theorem foldl_addTo_eq_self_iff (c : Catalog) (entries : List CatalogEntry) :
    entries.foldl CatalogEntry.addTo c = c ↔ (∀ e ∈ entries, e.Stands c) ∧
      ∀ name p, (entries.filterMap asUser).findRev? (·.1 = name) = some p →
        c.users[name]? = some p.2 := by
  rw [← OrderedMap.foldl_entries_eq_self_iff, ← users_foldl_addTo]
  constructor
  · intro h
    have hstands := stands_foldl c entries
    rw [h] at hstands
    exact ⟨hstands, congrArg Catalog.users h⟩
  · rintro ⟨hstands, husers⟩
    refine Catalog.ext_databases (fun k => ?_) husers (currentDb_foldl_addTo c entries)
    rw [databases_foldl_addTo hstands]

end CatalogEntry
end Entries

/-! ### What a failed call leaves -/

/-- The target behind the entries: the current database is set when it exists, whether or not
anything follows. -/
def Catalog.finished (c : Catalog) (curDb : Str) : Catalog :=
  if curDb ≠ [] ∧ c.databaseExists curDb = true then { c with currentDb := curDb } else c

theorem run_finishCatalog (c : Catalog) (curDb : Str) (bs : Bytes) :
    ((finishCatalog curDb).run (c, bs)).2.1 = c.finished curDb := by
  have hend (t : Catalog) : ((FillM.read (readEnd none) : FillCatalog Unit).run (t, bs)).2.1 = t := rfl
  unfold finishCatalog Catalog.finished
  by_cases hcur : curDb = []
  · rw [if_neg (not_not.2 hcur), if_neg fun h => h.1 hcur]
    exact hend c
  · rw [if_pos hcur]
    by_cases hdb : c.databaseExists curDb = true
    · have hset : (Catalog.setCurrentDatabase curDb).run c =
          (.ok (), { c with currentDb := curDb }) := by
        rw [Catalog.setCurrentDatabase, Prog.bind_ok (Prog.run_get c), if_neg (by simp [hdb]),
          Prog.run_set]
      rw [Prog.bind_ok (run_catalogCall hset), if_pos ⟨hcur, hdb⟩]
      exact hend _
    · have hset : (Catalog.setCurrentDatabase curDb).run c =
          (.error (Catalog.noDatabase curDb), c) := by
        rw [Catalog.setCurrentDatabase, Prog.bind_ok (Prog.run_get c), if_pos (by simp [hdb]),
          Prog.run_throw]
      have hcall : (catalogCall (Catalog.setCurrentDatabase curDb)).run (c, bs) =
          (.error (some (Catalog.noDatabase curDb)), (c, bs)) := by
        rw [catalogCall, FillM.run_target_eq, Prog.mapError]
        simp only [hset]
      rw [Prog.bind_error hcall, if_neg fun h => hdb h.2]

/-- What the decoder leaves, whether it accepts, rejects or throws. -/
theorem catalogDecode_target (bytes : Bytes) (c : Catalog) :
    ((catalogDecode bytes).run c).2 =
      (catalogCurrent bytes).elim ((catalogEntries bytes).foldl CatalogEntry.addTo c)
        ((catalogEntries bytes).foldl CatalogEntry.addTo c).finished := by
  have hfill : ((catalogDecode bytes).run c).2 = (fillCatalog.run (c, bytes)).2.1 := by
    simp only [catalogDecode]
    rcases fillCatalog.run (c, bytes) with ⟨(_ | _) | _, _, _⟩ <;> rfl
  rcases hlist : listCatalog.run ([], bytes) with ⟨r, l, rest⟩
  obtain ⟨hrun, -⟩ := follows_catalog c [] bytes r l rest trivial hlist
  have hentries : catalogEntries bytes = l := congrArg (fun r => r.2.1) hlist
  have hcurrent : catalogCurrent bytes = r.toOption := congrArg (fun r => r.1.toOption) hlist
  rw [List.foldl_nil] at hrun
  rw [hfill, hentries, hcurrent, fillCatalog_eq]
  cases r with
  | error e => rw [Prog.bind_error hrun]; rfl
  | ok curDb =>
    rw [Prog.bind_ok hrun, run_finishCatalog]
    rfl

theorem Catalog.finished_eq_iff {c d : Catalog} (curDb : Str) (hdb : d.currentDb = c.currentDb) :
    d.finished curDb = c ↔
      d = c ∧ (curDb ≠ [] → c.databaseExists curDb = true → c.currentDb = curDb) := by
  unfold Catalog.finished
  by_cases h : curDb ≠ [] ∧ d.databaseExists curDb = true
  · rw [if_pos h]
    constructor
    · intro heq
      have hcur : curDb = c.currentDb := congrArg Catalog.currentDb heq
      refine ⟨?_, fun _ _ => hcur.symm⟩
      rw [← heq, hcur, ← hdb]
    · rintro ⟨rfl, hcur⟩
      rw [← hcur h.1 h.2]
  · rw [if_neg h]
    constructor
    · rintro rfl
      exact ⟨rfl, fun hne hex => absurd ⟨hne, hex⟩ h⟩
    · exact fun h => h.1

theorem catalogDecode_unchanged_iff (bytes : Bytes) (c : Catalog) :
    ((catalogDecode bytes).run c).2 = c ↔ c.HasEntries bytes := by
  have hdb := CatalogEntry.currentDb_foldl_addTo c (catalogEntries bytes)
  have hfold := CatalogEntry.foldl_addTo_eq_self_iff c (catalogEntries bytes)
  rw [catalogDecode_target]
  constructor
  · intro h
    cases hcur : catalogCurrent bytes with
    | none =>
      rw [hcur] at h
      obtain ⟨hstands, husers⟩ := hfold.mp h
      exact ⟨hstands, husers, by simp [hcur]⟩
    | some curDb =>
      rw [hcur] at h
      obtain ⟨hself, hset⟩ := (Catalog.finished_eq_iff curDb hdb).mp h
      obtain ⟨hstands, husers⟩ := hfold.mp hself
      refine ⟨hstands, husers, ?_⟩
      intro db hmem
      rw [hcur] at hmem
      cases hmem
      exact hset
  · intro h
    have hself := hfold.mpr ⟨h.stands, h.users⟩
    cases hcur : catalogCurrent bytes with
    | none => exact hself
    | some curDb =>
      exact (Catalog.finished_eq_iff curDb hdb).mpr ⟨hself, h.current curDb hcur⟩

/-- A call that fails leaves its target alone exactly when the target has the entries before the
defect already. -/
theorem failed_decode_unchanged_iff (bytes : Bytes) (c : Catalog) (t : CLog) :
    (((catalogDecode bytes).run c).1.toOption ≠ some true →
      (((catalogDecode bytes).run c).2 = c ↔ c.HasEntries bytes)) ∧
    ((clogDecode bytes t).1 = false →
      ((clogDecode bytes t).2 = t ↔ t.HasEntries (clogEntries bytes))) :=
  ⟨fun _ => catalogDecode_unchanged_iff bytes c, fun _ => clogDecode_unchanged_iff bytes t⟩

/-- A commit log of two entries that ends behind the first one. -/
def cutClog : Bytes := clogMagic ++ (putLE 4 1 ++ (putLE 4 2 ++ clogEntry (5, .committed)))

theorem failed_decode_cutClog : (clogDecode cutClog CLog.empty).1 = false ∧
    ((clogDecode cutClog CLog.empty).2 = CLog.empty ↔ CLog.empty.HasEntries (clogEntries cutClog)) :=
  ⟨by decide +kernel,
    (failed_decode_unchanged_iff cutClog Catalog.initial CLog.empty).2 (by decide +kernel)⟩

/-- The first entry stays in the log. -/
theorem cutClog_changes : ¬ ((∀ (bytes : Bytes) (c : Catalog),
      ((catalogDecode bytes).run c).1.toOption ≠ some true → ((catalogDecode bytes).run c).2 = c) ∧
    (∀ (bytes : Bytes) (t : CLog), (clogDecode bytes t).1 = false → (clogDecode bytes t).2 = t)) := by
  intro h
  have hsame := h.2 cutClog CLog.empty (by decide +kernel)
  have hstatus := congrArg (fun t : CLog => t.getStatus 5) hsame
  revert hstatus
  decide +kernel

end JiaMiaoDB
