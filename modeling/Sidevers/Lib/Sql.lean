/-
SQL tables, the statements a schema migration is made of, and what is left
of them when the process stops between two.

A table carries that its rows have one value for each column, so that a
statement which would leave a row too short or too long cannot be written.
Each statement is atomic: it fails and changes nothing, or it is done.
Constraints are part of a table's definition and compared as such; no
statement here checks them.
-/
import Sidevers.Lib.Table
import Mathlib.Data.List.Basic

namespace Sidevers.Lib.Sql

/-- A value of a column. -/
inductive Value where
  | null
  | integer (n : Int)
  | text (t : String)
  | blob (b : List UInt8)
  deriving DecidableEq

/-- A column: its declared type and constraints. -/
structure Column where
  name : String
  type : String
  notNull : Bool
  defaultValue : Value
  deriving DecidableEq

/-- A foreign key of one column, deleting on cascade. -/
structure Reference where
  column : String
  table : String
  target : String
  deriving DecidableEq

/-- The definition of a table. -/
structure TableDef where
  columns : List Column
  primaryKey : List String
  references : List Reference
  deriving DecidableEq

/-- A row: a value for each column, in order. -/
abbrev Row := List Value

/-- A table. -/
structure Relation where
  schema : TableDef
  rows : List Row
  width : ∀ r ∈ rows, r.length = schema.columns.length

/-- A database: its tables by name. -/
abbrev Database := Table String Relation

/-- Why a statement fails. -/
inductive SqlError where
  | noSuchTable (name : String)
  | noSuchColumn (name : String)
  | duplicateColumn (name : String)
  | valueCount
  deriving DecidableEq

namespace Relation

/-- A table without rows. -/
def empty (schema : TableDef) : Relation :=
  ⟨schema, [], fun _ h => absurd h List.not_mem_nil⟩

/-- The table with a column more; every row gets its default. -/
def addColumn (t : Relation) (c : Column) : Relation where
  schema := { t.schema with columns := t.schema.columns ++ [c] }
  rows := t.rows.map (· ++ [c.defaultValue])
  width := by
    intro r hr
    obtain ⟨r', hr', rfl⟩ := List.mem_map.mp hr
    simp only [List.length_append, t.width r' hr', List.length_singleton]

/-- The table with a row more. -/
def insert (t : Relation) (row : Row)
    (h : row.length = t.schema.columns.length) : Relation where
  schema := t.schema
  rows := t.rows ++ [row]
  width := by
    intro r hr
    rcases List.mem_append.mp hr with hr | hr
    · exact t.width r hr
    · rwa [List.mem_singleton.mp hr]

/-- The table with one column of every row set. -/
def setColumn (t : Relation) (i : Nat) (v : Value) : Relation where
  schema := t.schema
  rows := t.rows.map (·.set i v)
  width := by
    intro r hr
    obtain ⟨r', hr', rfl⟩ := List.mem_map.mp hr
    rw [List.length_set]
    exact t.width r' hr'

/-- Every row is in its place with its values; there may be more columns. -/
structure Keeps (t t' : Relation) : Prop where
  columns : t.schema.columns <+: t'.schema.columns
  rows : ∀ (i : Nat) (r : Row), t.rows[i]? = some r →
    ∃ r', t'.rows[i]? = some r' ∧ r <+: r'

theorem Keeps.refl (t : Relation) : t.Keeps t :=
  ⟨List.prefix_rfl, fun _ r hr => ⟨r, hr, List.prefix_rfl⟩⟩

theorem Keeps.trans {t t' t'' : Relation} (h : t.Keeps t')
    (h' : t'.Keeps t'') : t.Keeps t'' := by
  refine ⟨h.columns.trans h'.columns, fun i r hr => ?_⟩
  obtain ⟨r', hr', hpre⟩ := h.rows i r hr
  obtain ⟨r'', hr'', hpre'⟩ := h'.rows i r' hr'
  exact ⟨r'', hr'', hpre.trans hpre'⟩

theorem keeps_addColumn (t : Relation) (c : Column) :
    t.Keeps (t.addColumn c) := by
  refine ⟨List.prefix_append _ _, fun i r hr => ?_⟩
  refine ⟨r ++ [c.defaultValue], ?_, List.prefix_append _ _⟩
  show (t.rows.map _)[i]? = _
  rw [List.getElem?_map, hr]
  rfl

end Relation

-- ============================================================ statements

/-- The statements of a migration. -/
inductive Statement where
  /-- `CREATE TABLE IF NOT EXISTS`. -/
  | createTable (name : String) (schema : TableDef)
  /-- `ALTER TABLE … ADD COLUMN`. -/
  | addColumn (table : String) (column : Column)
  /-- `INSERT INTO … VALUES`. -/
  | insert (table : String) (row : Row)
  /-- `UPDATE … SET column = value`, on every row. -/
  | update (table column : String) (value : Value)
  deriving DecidableEq

/-- Run one statement. -/
def exec (db : Database) : Statement → Except SqlError Database
  | .createTable name schema =>
      match db name with
      | some _ => .ok db
      | none => .ok (db.insert name (.empty schema))
  | .addColumn table column =>
      match db table with
      | none => .error (.noSuchTable table)
      | some t =>
          if t.schema.columns.any (fun c => c.name = column.name) then
            .error (.duplicateColumn column.name)
          else .ok (db.insert table (t.addColumn column))
  | .insert table row =>
      match db table with
      | none => .error (.noSuchTable table)
      | some t =>
          if h : row.length = t.schema.columns.length then
            .ok (db.insert table (t.insert row h))
          else .error .valueCount
  | .update table column value =>
      match db table with
      | none => .error (.noSuchTable table)
      | some t =>
          match t.schema.columns.findIdx? (fun c => c.name = column) with
          | none => .error (.noSuchColumn column)
          | some i => .ok (db.insert table (t.setColumn i value))

/-- `execute_batch`: up to the first statement that fails. -/
def execBatch (db : Database) : List Statement → Except SqlError Database
  | [] => .ok db
  | s :: rest => do
      let db ← exec db s
      execBatch db rest

/-- What is on disk after as much of a batch as runs. -/
def onDisk (db : Database) : List Statement → Database
  | [] => db
  | s :: rest =>
      match exec db s with
      | .error _ => db
      | .ok db' => onDisk db' rest

/-- The first row's value of a column, when there is a row. -/
def queryColumn (db : Database) (table column : String) :
    Except SqlError (Option Value) :=
  match db table with
  | none => .error (.noSuchTable table)
  | some t =>
      match t.schema.columns.findIdx? (fun c => c.name = column) with
      | none => .error (.noSuchColumn column)
      | some i => .ok (t.rows.head?.bind fun r => r[i]?)

variable {db db' : Database}

theorem exec_createTable (db : Database) (name : String) (schema : TableDef) :
    ∃ db', exec db (.createTable name schema) = .ok db'
      ∧ db' name = some ((db name).getD (.empty schema))
      ∧ ∀ n, n ≠ name → db' n = db n := by
  cases hname : db name with
  | some t => exact ⟨db, by simp only [exec, hname], hname, fun _ _ => rfl⟩
  | none =>
      exact ⟨db.insert name (.empty schema), by simp only [exec, hname],
        Table.insert_self .., fun n hn => Table.insert_of_ne _ _ hn⟩

theorem exec_addColumn {table : String} {t : Relation} {c : Column}
    (ht : db table = some t) (hnew : ∀ d ∈ t.schema.columns, d.name ≠ c.name) :
    exec db (.addColumn table c) = .ok (db.insert table (t.addColumn c)) := by
  have hany : ¬ t.schema.columns.any (fun d => d.name = c.name) = true := by
    simpa only [List.any_eq_true, decide_eq_true_eq, not_exists, not_and]
      using hnew
  simp only [exec, ht, if_neg hany]

theorem exec_addColumn_duplicate {table : String} {t : Relation} {c d : Column}
    (ht : db table = some t) (hd : d ∈ t.schema.columns)
    (hname : d.name = c.name) :
    exec db (.addColumn table c) = .error (.duplicateColumn c.name) := by
  have hany : t.schema.columns.any (fun d => d.name = c.name) = true :=
    List.any_eq_true.mpr ⟨d, hd, decide_eq_true hname⟩
  simp only [exec, ht, if_pos hany]

theorem execBatch_append (ss ts : List Statement) :
    execBatch db (ss ++ ts) = (execBatch db ss).bind (execBatch · ts) := by
  induction ss generalizing db with
  | nil => rfl
  | cons s ss ih =>
      show (exec db s).bind _ = ((exec db s).bind _).bind _
      cases exec db s with
      | error e => rfl
      | ok db' => exact ih

/-- What is on disk after a batch that runs through and then another. -/
theorem onDisk_append {ss ts : List Statement}
    (h : execBatch db ss = .ok db') : onDisk db (ss ++ ts) = onDisk db' ts := by
  induction ss generalizing db with
  | nil =>
      injection h with h
      rw [← h]
      rfl
  | cons s ss ih =>
      unfold execBatch at h
      show (match exec db s with
        | .error _ => db
        | .ok db' => onDisk db' (ss ++ ts)) = _
      cases hs : exec db s with
      | error e =>
          rw [hs] at h
          cases h
      | ok db₁ =>
          rw [hs] at h
          exact ih h

/-- A batch that runs through is on disk. -/
theorem onDisk_of_execBatch {ss : List Statement}
    (h : execBatch db ss = .ok db') : onDisk db ss = db' := by
  rw [← List.append_nil ss, onDisk_append h]
  rfl

end Sidevers.Lib.Sql
