import JiaMiaoDB.Lib.Binary64
import Std.Data.ExtTreeMap

/-!
# Core types

Values, rows, schemas and the statement tree. Strings are byte strings, as `std::string` is;
an ordered map is `Std.ExtTreeMap` with the byte-wise order of its keys.
-/

set_option autoImplicit false

namespace JiaMiaoDB

abbrev Str := Bytes

/-- The bytes of a literal in the source. -/
def str (s : String) : Str := s.toUTF8.data.toList

abbrev StrMap (ν : Type) := Std.ExtTreeMap Str ν compare

/-- What a call can end with instead of a value. `undefined` is no exception: the C++ program has
no defined behaviour from there on. -/
inductive Failure where
  | runtimeError (what : Str)
  | invalidArgument (what : Str)
  | outOfRange (what : Str)
  | badVariantAccess
  | undefined
deriving DecidableEq

def Failure.what : Failure → Str
  | runtimeError w | invalidArgument w | outOfRange w => w
  | badVariantAccess => str "std::get: wrong index for variant"
  | undefined => []

/-- The enumeration is stored in one byte, and a byte from a file may name no enumerator. -/
inductive DataType where
  | integer | bigint | float | double | text | boolean | date | timestamp | unknown
  | other (tag : {t : UInt8 // 8 < t})
deriving DecidableEq

namespace DataType

def toTag : DataType → UInt8
  | integer => 0 | bigint => 1 | float => 2 | double => 3 | text => 4
  | boolean => 5 | date => 6 | timestamp => 7 | unknown => 8
  | other t => t

def ofTag (t : UInt8) : DataType :=
  if h : 8 < t then other ⟨t, h⟩
  else match t with
    | 0 => integer | 1 => bigint | 2 => float | 3 => double | 4 => text
    | 5 => boolean | 6 => date | 7 => timestamp | _ => unknown

@[simp] theorem ofTag_toTag (d : DataType) : ofTag d.toTag = d := by
  cases d with
  | other t => simp [toTag, ofTag, t.2]
  | _ => rfl

def toUpper (s : Str) : Str := s.map fun c => if 97 ≤ c && c ≤ 122 then c - 32 else c

/-- An unknown type name is taken as text. -/
def ofName (name : Str) : DataType :=
  let up := toUpper name
  if up = str "INT" ∨ up = str "INTEGER" then integer
  else if up = str "BIGINT" then bigint
  else if up = str "FLOAT" then float
  else if up = str "DOUBLE" then double
  else if up = str "TEXT" ∨ up = str "VARCHAR" ∨ up = str "STRING" then text
  else if up = str "BOOLEAN" ∨ up = str "BOOL" then boolean
  else if up = str "DATE" then date
  else if up = str "TIMESTAMP" then timestamp
  else text

end DataType

/-- A runtime value; the alternatives keep the order of the variant. -/
inductive Value where
  | null
  | int (i : Int64)
  | double (d : Binary64)
  | string (s : Str)
  | bool (b : Bool)
deriving DecidableEq

namespace Value

/-- `operator==` of the variant: same alternative and equal contents, doubles compared as
numbers. -/
def eqv : Value → Value → Bool
  | null, null => true
  | int i, int j => i == j
  | double x, double y => x.eq y
  | string s, string t => s == t
  | bool a, bool b => a == b
  | _, _ => false

end Value

def intToString (i : Int) : Str :=
  if i < 0 then 45 :: Binary64.decimal i.natAbs else Binary64.decimal i.natAbs

def valueToString : Value → Str
  | .null => str "NULL"
  | .int i => intToString i.toInt
  | .double d => d.toDecimal
  | .string s => [39] ++ s ++ [39]
  | .bool b => if b then str "true" else str "false"

/-- A row: column name to value. -/
abbrev Row := StrMap Value

abbrev RowSet := List Row

structure ColumnDef where
  name : Str
  type : DataType
  nullable : Bool
  primaryKey : Bool
  defaultValue : Option Value
deriving DecidableEq

structure TableSchema where
  name : Str
  columns : List ColumnDef
  rowCount : Int64
deriving DecidableEq

/-- An index: the printed value to the row ids that hold it. -/
structure IndexInfo where
  column : Str
  entries : StrMap (List Int64)

inductive BinaryOp where
  | or | and | eq | ne | lt | gt | le | ge | add | sub | mul | div
deriving DecidableEq

inductive Expression where
  | literal (v : Value)
  | columnRef (name : Str)
  | binary (op : BinaryOp) (left right : Expression)
  | not (expr : Expression)
deriving DecidableEq

structure SelectStmt where
  columns : List Str
  fromTable : Str
  filter : Option Expression

structure InsertStmt where
  table : Str
  columns : List Str
  values : List (List Value)

structure UpdateStmt where
  table : Str
  sets : StrMap Expression
  filter : Option Expression

structure DeleteStmt where
  table : Str
  filter : Option Expression

inductive Statement where
  | select (s : SelectStmt)
  | insert (s : InsertStmt)
  | update (s : UpdateStmt)
  | delete (s : DeleteStmt)

/-- One operator of a pipeline, with the fields its kind uses. -/
inductive PipelineOp where
  | scan (table : Str)
  | indexScan (table column : Str) (indexValue : Value)
  | filter (expr : Expression)
  | project (columns : List Str)
  | insert (table : Str) (rows : List Row)
  | update (table : Str) (filter : Option Expression) (values : StrMap Value)
  | delete (table : Str) (filter : Option Expression)

abbrev Pipeline := List PipelineOp

structure ResultSet where
  columns : List Str
  rows : RowSet
  affectedRows : Int64
  message : Str

end JiaMiaoDB
