import JiaMiaoDB.Common.Json
import JiaMiaoDB.Lib.Sha256
import JiaMiaoDB.Lib.OrderedMap
import Std.Data.ExtTreeSet

/-! Databases, schemas, users and the current database. The salt of a new user comes from a random
device, so `createUser` takes it as an argument. -/

set_option autoImplicit false

namespace JiaMiaoDB

abbrev StrSet := Std.ExtTreeSet Str compare

structure UserInfo where
  passwordHash : Str
  salt : Str
deriving DecidableEq

structure Catalog where
  databases : StrMap StrSet
  users : StrMap UserInfo
  currentDb : Str

abbrev CatalogM := Prog Catalog Failure

namespace Catalog

def publicOnly : StrSet := (∅ : StrSet).insert (str "public")

def initial : Catalog where
  databases := (∅ : StrMap StrSet).insert (str "defaultdb") publicOnly
  users := ∅
  currentDb := str "defaultdb"

def databaseExists (c : Catalog) (name : Str) : Bool := c.databases.contains name

def noDatabase (name : Str) : Failure :=
  .runtimeError (str "数据库 \"" ++ name ++ str "\" 不存在")

def createDatabase (name : Str) : CatalogM Unit := do
  let c ← Prog.get
  if c.databaseExists name then
    Prog.throw (.runtimeError (str "数据库 \"" ++ name ++ str "\" 已存在"))
  else Prog.set { c with databases := c.databases.insert name publicOnly }

def dropDatabase (name : Str) : CatalogM Unit := do
  let c ← Prog.get
  if name = str "defaultdb" then
    Prog.throw (.runtimeError (str "不能删除系统数据库 defaultdb"))
  else if !c.databaseExists name then Prog.throw (noDatabase name)
  else
    Prog.set { c with
      currentDb := if c.currentDb = name then str "defaultdb" else c.currentDb
      databases := c.databases.erase name }

def schemaExists (c : Catalog) (dbName schemaName : Str) : Bool :=
  (c.databases[dbName]?).any (·.contains schemaName)

def createSchema (dbName schemaName : Str) : CatalogM Unit := do
  let c ← Prog.get
  match c.databases[dbName]? with
  | none => Prog.throw (noDatabase dbName)
  | some schemas =>
    if schemas.contains schemaName then
      Prog.throw (.runtimeError
        (str "模式 \"" ++ schemaName ++ str "\" 在数据库 \"" ++ dbName ++ str "\" 中已存在"))
    else Prog.set { c with databases := c.databases.insert dbName (schemas.insert schemaName) }

def dropSchema (dbName schemaName : Str) : CatalogM Unit := do
  let c ← Prog.get
  if schemaName = str "public" then Prog.throw (.runtimeError (str "不能删除 public 模式"))
  else match c.databases[dbName]? with
    | none => Prog.throw (noDatabase dbName)
    | some schemas =>
      if !schemas.contains schemaName then
        Prog.throw (.runtimeError (str "模式 \"" ++ schemaName ++ str "\" 不存在"))
      else Prog.set { c with databases := c.databases.insert dbName (schemas.erase schemaName) }

def hashPassword (password salt : Str) : Str := Sha256.sha256 (salt ++ password)

/-- `salt` is what `generate_salt` returned. -/
def createUser (name password salt : Str) : CatalogM Unit := do
  let c ← Prog.get
  if c.users.contains name then
    Prog.throw (.runtimeError (str "用户 \"" ++ name ++ str "\" 已存在"))
  else
    Prog.set { c with users := c.users.insert name ⟨hashPassword password salt, salt⟩ }

def userExists (c : Catalog) (name : Str) : Bool := c.users.contains name

def dropUser (name : Str) : CatalogM Unit := do
  let c ← Prog.get
  if !c.userExists name then
    Prog.throw (.runtimeError (str "用户 \"" ++ name ++ str "\" 不存在"))
  else Prog.set { c with users := c.users.erase name }

def setCurrentDatabase (name : Str) : CatalogM Unit := do
  let c ← Prog.get
  if !c.databaseExists name then Prog.throw (noDatabase name)
  else Prog.set { c with currentDb := name }

/-- A name with a dot is taken as it is. -/
def qualifyTableName (c : Catalog) (name : Str) : Str :=
  if (46 : UInt8) ∈ name then name else c.currentDb ++ str ".public." ++ name

def internalSetUser (c : Catalog) (name passwordHash salt : Str) : Catalog :=
  { c with users := c.users.insert name ⟨passwordHash, salt⟩ }

/-! ### Calls guarded by an existence check -/

def ensureDatabase (name : Str) : CatalogM Unit := do
  let c ← Prog.get
  if c.databaseExists name then pure () else createDatabase name

def ensureSchema (dbName schemaName : Str) : CatalogM Unit := do
  let c ← Prog.get
  if c.schemaExists dbName schemaName then pure () else createSchema dbName schemaName

/-- The catalog with the schemas added to the database, which is created first when missing. -/
def addSchemas (c : Catalog) (name : Str) (schemas : List Str) : Catalog :=
  { c with
    databases := c.databases.insert name
      (schemas.foldl (fun (s : StrSet) n => s.insert n) (c.databases.getD name publicOnly)) }

theorem ext_databases {c c' : Catalog}
    (hdb : ∀ k : Str, c.databases[k]? = c'.databases[k]?) (husers : c.users = c'.users)
    (hcur : c.currentDb = c'.currentDb) : c = c' := by
  rcases c with ⟨dbs, users, cur⟩
  rcases c' with ⟨dbs', users', cur'⟩
  have : dbs = dbs' := Std.ExtTreeMap.ext_getElem? hdb
  simp_all

theorem run_ensureDatabase (c : Catalog) (name : Str) :
    (ensureDatabase name).run c = (.ok (), c.addSchemas name []) := by
  have hadd : c.databaseExists name = true → c = c.addSchemas name [] := fun h =>
    ext_databases (fun k => by
      simp only [addSchemas, List.foldl_nil, Std.ExtTreeMap.getElem?_insert]
      split
      · rename_i hk
        have hk : name = k := Std.LawfulEqOrd.eq_of_compare hk
        subst hk
        have hmem : name ∈ c.databases := h
        rw [Std.ExtTreeMap.getD_eq_getD_getElem?, Std.ExtTreeMap.getElem?_eq_some_getElem hmem]
        rfl
      · rfl) rfl rfl
  rw [ensureDatabase, Prog.bind_ok (Prog.run_get c)]
  by_cases h : c.databaseExists name = true
  · rw [if_pos h, ← hadd h]
    rfl
  · rw [if_neg h, createDatabase, Prog.bind_ok (Prog.run_get c), if_neg h]
    have hnot : name ∉ c.databases := fun hm => h hm
    simp only [Prog.run_set, addSchemas, List.foldl_nil,
      Std.ExtTreeMap.getD_eq_fallback hnot]

theorem run_ensureSchema {c : Catalog} {name : Str} (schema : Str)
    (h : name ∈ c.databases) :
    (ensureSchema name schema).run c = (.ok (), c.addSchemas name [schema]) := by
  have hget : c.databases[name]? = some c.databases[name] :=
    Std.ExtTreeMap.getElem?_eq_some_getElem h
  have hgetD : c.databases.getD name publicOnly = c.databases[name] := by
    rw [Std.ExtTreeMap.getD_eq_getD_getElem?, hget]
    rfl
  rw [ensureSchema, Prog.bind_ok (Prog.run_get c)]
  simp only [schemaExists, hget, Option.any_some]
  by_cases hs : c.databases[name].contains schema = true
  · rw [if_pos hs]
    have hsame : c.databases[name].insert schema = c.databases[name] := by
      refine Std.ExtTreeSet.ext_mem fun k => ?_
      rw [Std.ExtTreeSet.mem_insert]
      refine ⟨fun hk => hk.elim (fun e => ?_) id, .inr⟩
      rw [← Std.LawfulEqOrd.eq_of_compare e]
      exact hs
    refine congrArg (Prod.mk _) (ext_databases (fun k => ?_) rfl rfl)
    simp only [addSchemas, List.foldl_cons, List.foldl_nil, hgetD, hsame,
      Std.ExtTreeMap.getElem?_insert]
    split
    · rename_i hk
      rw [← Std.LawfulEqOrd.eq_of_compare hk, hget]
    · rfl
  · rw [if_neg hs, createSchema, Prog.bind_ok (Prog.run_get c)]
    simp only [hget]
    rw [if_neg hs]
    simp only [Prog.run_set, addSchemas, List.foldl_cons, List.foldl_nil, hgetD]

theorem addSchemas_append (c : Catalog) (name : Str) (l l' : List Str) :
    (c.addSchemas name l).addSchemas name l' = c.addSchemas name (l ++ l') := by
  refine ext_databases (fun k => ?_) rfl rfl
  simp only [addSchemas, Std.ExtTreeMap.getElem?_insert, Std.ExtTreeMap.getD_insert_self,
    List.foldl_append]
  split <;> rfl

/-- Catalogs as the database operations leave them: every database has its `public` schema, and
`defaultdb` and the current database exist. -/
structure Regular (c : Catalog) : Prop where
  defaultdb : str "defaultdb" ∈ c.databases
  hasPublic : ∀ (name : Str) (schemas : StrSet), c.databases[name]? = some schemas →
    str "public" ∈ schemas
  current : c.currentDb ∈ c.databases

instance (c : Catalog) : Decidable c.Regular :=
  decidable_of_iff (str "defaultdb" ∈ c.databases ∧ (∀ p ∈ c.databases.toList, str "public" ∈ p.2) ∧
    c.currentDb ∈ c.databases)
    ⟨fun ⟨h₁, h₂, h₃⟩ => ⟨h₁, OrderedMap.forall_getElem?_iff.2 h₂, h₃⟩,
      fun ⟨h₁, h₂, h₃⟩ => ⟨h₁, OrderedMap.forall_getElem?_iff.1 h₂, h₃⟩⟩

/-! ### Successful calls -/

section Calls
variable {c c' : Catalog} {name : Str}

theorem run_createDatabase : (createDatabase name).run c = (.ok (), c') ↔
    name ∉ c.databases ∧ c' = { c with databases := c.databases.insert name publicOnly } := by
  rw [createDatabase, Prog.bind_ok (Prog.run_get c), databaseExists, Std.ExtTreeMap.mem_iff_contains]
  cases c.databases.contains name <;> simp [eq_comm]

theorem run_dropDatabase : (dropDatabase name).run c = (.ok (), c') ↔
    name ≠ str "defaultdb" ∧ name ∈ c.databases ∧ c' = { c with
      currentDb := if c.currentDb = name then str "defaultdb" else c.currentDb
      databases := c.databases.erase name } := by
  rw [dropDatabase, Prog.bind_ok (Prog.run_get c), databaseExists, Std.ExtTreeMap.mem_iff_contains]
  by_cases hname : name = str "defaultdb"
  · rw [if_pos hname]
    simp [hname]
  · rw [if_neg hname]
    cases c.databases.contains name <;> simp [hname, eq_comm]

theorem run_createSchema {schema : Str} : (createSchema name schema).run c = (.ok (), c') ↔
    ∃ schemas, c.databases[name]? = some schemas ∧ schema ∉ schemas ∧
      c' = { c with databases := c.databases.insert name (schemas.insert schema) } := by
  rw [createSchema, Prog.bind_ok (Prog.run_get c)]
  cases c.databases[name]? with
  | none => simp
  | some schemas =>
    simp only [Option.some.injEq, exists_eq_left', Std.ExtTreeSet.mem_iff_contains]
    cases schemas.contains schema <;> simp [eq_comm]

theorem run_createUser {password salt : Str} : (createUser name password salt).run c = (.ok (), c') ↔
    name ∉ c.users ∧
      c' = { c with users := c.users.insert name ⟨hashPassword password salt, salt⟩ } := by
  rw [createUser, Prog.bind_ok (Prog.run_get c), Std.ExtTreeMap.mem_iff_contains]
  cases c.users.contains name <;> simp [eq_comm]

theorem run_dropUser : (dropUser name).run c = (.ok (), c') ↔
    name ∈ c.users ∧ c' = { c with users := c.users.erase name } := by
  rw [dropUser, Prog.bind_ok (Prog.run_get c), userExists, Std.ExtTreeMap.mem_iff_contains]
  cases c.users.contains name <;> simp [eq_comm]

theorem run_setCurrentDatabase : (setCurrentDatabase name).run c = (.ok (), c') ↔
    name ∈ c.databases ∧ c' = { c with currentDb := name } := by
  rw [setCurrentDatabase, Prog.bind_ok (Prog.run_get c), databaseExists,
    Std.ExtTreeMap.mem_iff_contains]
  cases c.databases.contains name <;> simp [eq_comm]

theorem Regular.insert (h : c.Regular) {schemas : StrSet} (hs : str "public" ∈ schemas) :
    Regular { c with databases := c.databases.insert name schemas } where
  defaultdb := Std.ExtTreeMap.mem_insert.2 (.inr h.defaultdb)
  hasPublic k s hk := by
    simp only [Std.ExtTreeMap.getElem?_insert] at hk
    split at hk
    · cases hk
      exact hs
    · exact h.hasPublic k s hk
  current := Std.ExtTreeMap.mem_insert.2 (.inr h.current)

theorem Regular.drop (h : c.Regular) (hname : name ≠ str "defaultdb") :
    Regular { c with
      currentDb := if c.currentDb = name then str "defaultdb" else c.currentDb
      databases := c.databases.erase name } where
  defaultdb := by simpa [Std.ExtTreeMap.mem_erase, hname] using h.defaultdb
  hasPublic k s hk := by
    simp only [Std.ExtTreeMap.getElem?_erase] at hk
    split at hk
    · cases hk
    · exact h.hasPublic k s hk
  current := by
    by_cases hc : c.currentDb = name
    · simpa [Std.ExtTreeMap.mem_erase, hc, hname] using h.defaultdb
    · simpa [Std.ExtTreeMap.mem_erase, hc, Ne.symm hc] using h.current

theorem Regular.setUsers (h : c.Regular) (users : StrMap UserInfo) :
    Regular { c with users := users } := ⟨h.defaultdb, h.hasPublic, h.current⟩

theorem regular_initial : initial.Regular where
  defaultdb := by simp [initial]
  hasPublic k s hk := by
    simp only [initial, Std.ExtTreeMap.getElem?_insert] at hk
    split at hk
    · cases hk
      simp [publicOnly]
    · simp at hk
  current := by simp [initial]

end Calls

/-! ### Legacy JSON form -/

def schemasFromJson (j : Json) : Except Failure StrSet := do
  let names ← j.items.mapM Json.getString
  pure ((names.foldl (fun (s : StrSet) n => s.insert n) ∅).insert (str "public"))

def databaseFromJson (j : Json) : Except Failure (Str × StrSet) := do
  let name ← (j.get (str "name")).getString
  let schemas ← schemasFromJson (j.get (str "schemas"))
  pure (name, schemas)

def userFromJson (j : Json) : Except Failure (Str × UserInfo) := do
  let name ← (j.get (str "name")).getString
  let hash ← (j.get (str "password_hash")).getString
  let salt ← (j.get (str "salt")).getString
  pure (name, ⟨hash, salt⟩)

/-- The old contents are cleared first and stay cleared when a member has the wrong type. -/
def fromJson (j : Json) : CatalogM Unit := do
  Prog.modify fun c => { c with databases := ∅, users := ∅ }
  Prog.forEach (fun jdb => do
    let (name, schemas) ← Prog.ofExcept (databaseFromJson jdb)
    Prog.modify fun c => { c with databases := c.databases.insert name schemas })
    (j.get (str "databases")).items
  Prog.modify fun c =>
    if c.databaseExists (str "defaultdb") then c
    else { c with databases := c.databases.insert (str "defaultdb") publicOnly }
  Prog.forEach (fun ju => do
    let (name, info) ← Prog.ofExcept (userFromJson ju)
    Prog.modify fun c => { c with users := c.users.insert name info })
    (j.get (str "users")).items
  Prog.modify fun c =>
    { c with currentDb := j.valueString (str "current_db") (str "defaultdb") }

end Catalog
end JiaMiaoDB
