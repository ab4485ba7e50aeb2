/-
A migration that is stopped, any number of times, and opened again.

Every `CREATE TABLE` may run again. The one `ALTER TABLE` may not: between it
and the write of the version, a stop leaves a database on which every later
open fails (`Torn`, `stuck`). Stops at any other point do no harm.

The invariant says what is on disk in terms of the statements that ran
(`Reached`): which tables are there, whether `relationships` has its new
column, and that every row of before is there. One lemma runs a statement
(`reached_step`), and the rest is about which statements those were.
-/
import Sidevers.Lib.Run
import Sidevers.Net.SideSchema

namespace Sidevers.Proofs

open Sidevers.Lib
open Lib.Sql
open Net.SideSchema

-- ============================================================ vocabulary

/-- The tables but `relationships`, with the version they came in. -/
def tables : List (String × Int × TableDef) :=
  [("sides", 1, sides), ("profiles", 1, profiles),
   ("retired_sides_seen", 1, retiredSidesSeen), ("co_holders", 1, coHolders),
   ("revoked_devices", 1, revokedDevices),
   ("co_holder_addrs", 2, coHolderAddrs), ("settings", 3, settings),
   ("verse_memberships", 5, verseMemberships)]

/-- The definition of a table that is there. -/
def schemaOf (db : Database) (name : String) : Option TableDef :=
  (db name).map Relation.schema

/-- The version is this one or a later one. -/
def Since (v : Option Int) (n : Int) : Prop := ∃ m, v = some m ∧ n ≤ m

/-- The version table holds this version; without one it has no row. -/
def VersionRow (v : Option Int) (db : Database) : Prop :=
  ∃ t, db "schema_version" = some t ∧ t.schema = versionTable
    ∧ t.rows = v.toList.map fun n => [.integer n]

/-- The version an open finds. -/
def Versioned (v : Option Int) (db : Database) : Prop :=
  v = none ∧ db "schema_version" = none ∨ VersionRow v db

/-- A database at a version, with any rows: the tables of the version and no
later ones. -/
structure AtVersion (v : Option Int) (db : Database) : Prop where
  known : v = none ∨ Since v 1 ∧ ¬ Since v 6
  recorded : Versioned v db
  present : ∀ e ∈ tables, Since v e.2.1 → schemaOf db e.1 = some e.2.2
  absent : ∀ e ∈ tables, ¬ Since v e.2.1 → db e.1 = none
  contacts : schemaOf db "relationships" =
    v.map fun n => if n < 4 then relationships else relationshipsV4

/-- The full schema of the current version. -/
structure Complete (db : Database) : Prop where
  version : VersionRow (some schemaVersion) db
  tables : ∀ e ∈ tables, schemaOf db e.1 = some e.2.2
  contacts : schemaOf db "relationships" = some relationshipsV4

/-- Every row of the first database is in the second, with its values. -/
def RowsKept (db db' : Database) : Prop :=
  ∀ name t, name ≠ "schema_version" → db name = some t →
    ∃ t', db' name = some t' ∧ t.Keeps t'

/-- An open of the second database brings it to the current version, with the
rows of the first. -/
def Reopens (db₀ db : Database) : Prop :=
  ∃ db', runMigrations db = .ok db' ∧ Complete db' ∧ RowsKept db₀ db'

/-- The version is written. -/
def record (v : Option Int) : Statement :=
  if v = none then insertVersion else updateVersion

/-- A stop after the column was added and before the version was written. -/
def Torn (db : Database) (k : Nat) : Prop :=
  addListenAddr ∈ (openStatements db).take k
    ∧ insertVersion ∉ (openStatements db).take k
    ∧ updateVersion ∉ (openStatements db).take k

variable {v : Option Int} {db db' db₀ : Database}

theorem RowsKept.refl (db : Database) : RowsKept db db :=
  fun _ t _ ht => ⟨t, ht, .refl t⟩

theorem RowsKept.trans {db'' : Database} (h : RowsKept db db')
    (h' : RowsKept db' db'') : RowsKept db db'' := by
  intro name t hname ht
  obtain ⟨t', ht', hkeeps⟩ := h name t hname ht
  obtain ⟨t'', ht'', hkeeps'⟩ := h' name t' hname ht'
  exact ⟨t'', ht'', hkeeps.trans hkeeps'⟩

-- ======================================================== the statements

/-- The statements ahead of the `ALTER TABLE`. -/
def ahead : Option Int → List Statement
  | none => schemaV1 ++ schemaV2Delta ++ schemaV3Delta
  | some v =>
      if v < 2 then schemaV2Delta ++ schemaV3Delta
      else if v < 3 then schemaV3Delta else []

theorem migration_before_four (hv : ¬ Since v 4) :
    migration v = ahead v ++ addListenAddr :: (schemaV5Delta ++ [record v]) := by
  cases v with
  | none => rfl
  | some n =>
      have hn : n < 4 := by
        by_contra hle
        exact hv ⟨n, rfl, by omega⟩
      simp only [migration, ahead]
      by_cases h2 : n < 2
      · rw [if_pos h2, if_pos h2]
        rfl
      · by_cases h3 : n < 3
        · rw [if_neg h2, if_neg h2, if_pos h3, if_pos h3]
          rfl
        · rw [if_neg h2, if_neg h2, if_neg h3, if_neg h3, if_pos hn]
          rfl

theorem migration_four (hv : Since v 4) (hv' : ¬ Since v 5) :
    migration v = schemaV5Delta ++ [record v] := by
  obtain ⟨n, rfl, hn⟩ := hv
  have hn' : n < 5 := by
    by_contra hle
    exact hv' ⟨n, rfl, by omega⟩
  simp only [migration]
  rw [if_neg (by omega), if_neg (by omega), if_neg (by omega), if_pos hn']
  rfl

theorem migration_five (hv : Since v 5) : migration v = [] := by
  obtain ⟨n, rfl, hn⟩ := hv
  simp only [migration]
  rw [if_neg (by omega), if_neg (by omega), if_neg (by omega),
    if_neg (by omega)]

/-- What is ahead creates tables. -/
theorem mem_ahead {s : Statement} (h : s ∈ ahead v) :
    (∃ e ∈ tables, s = .createTable e.1 e.2.2) ∨
      (s = .createTable "relationships" relationships ∧ v = none) := by
  have hall : ∀ s ∈ ahead none, (∃ e ∈ tables, s = .createTable e.1 e.2.2) ∨
      s = .createTable "relationships" relationships := by
    decide
  have hsome : ∀ s ∈ schemaV2Delta ++ schemaV3Delta,
      ∃ e ∈ tables, s = .createTable e.1 e.2.2 := by
    decide
  cases v with
  | none => exact (hall s h).imp id fun hs => ⟨hs, rfl⟩
  | some n =>
      refine .inl (hsome s ?_)
      simp only [ahead] at h
      split at h
      · exact h
      · split at h
        · exact List.mem_append_right _ h
        · cases h

theorem record_ne_create (v : Option Int) (name : String)
    (schema : TableDef) : record v ≠ .createTable name schema := by
  cases v <;> nofun

theorem record_ne_alter (v : Option Int) : record v ≠ addListenAddr := by
  cases v <;> nofun

theorem record_not_ahead :
    record v ∉ ahead v ++ addListenAddr :: schemaV5Delta := by
  intro hmem
  rcases List.mem_append.mp hmem with hmem | hmem
  · rcases mem_ahead hmem with ⟨e, -, he⟩ | ⟨he, -⟩
    · exact record_ne_create v _ _ he
    · exact record_ne_create v _ _ he
  · rcases List.mem_cons.mp hmem with hmem | hmem
    · exact record_ne_alter v hmem
    · exact record_ne_create v _ _ (List.mem_singleton.mp hmem)

-- =============================================== what is on disk, and when

theorem tables_names : ∀ e ∈ tables,
    e.1 ≠ "relationships" ∧ e.1 ≠ "schema_version" := by
  decide

theorem tables_unique : ∀ e ∈ tables, ∀ e' ∈ tables, e.1 = e'.1 → e = e' := by
  decide

/-- What these statements of the migration leave of the first database. -/
structure Reached (v : Option Int) (ran : List Statement)
    (db₀ db : Database) : Prop where
  kept : RowsKept db₀ db
  shaped : ∀ e ∈ tables, schemaOf db e.1 = none ∨ schemaOf db e.1 = some e.2.2
  older : ∀ e ∈ tables, Since v e.2.1 → schemaOf db e.1 ≠ none
  made : ∀ e ∈ tables, .createTable e.1 e.2.2 ∈ ran → schemaOf db e.1 ≠ none
  widened : addListenAddr ∈ ran ∨ Since v 4 →
    schemaOf db "relationships" = some relationshipsV4
  narrow : addListenAddr ∉ ran → ¬ Since v 4 →
    schemaOf db "relationships" = some relationships ∨
      (schemaOf db "relationships" = none ∧ v = none
        ∧ .createTable "relationships" relationships ∉ ran)

theorem schemaOf_congr {name : String} (h : db' name = db name) :
    schemaOf db' name = schemaOf db name := congrArg (Option.map _) h

/-- A `CREATE TABLE` goes through, and keeps every table there is. -/
theorem create_effect (db : Database) (name : String) (schema : TableDef) :
    ∃ db', exec db (.createTable name schema) = .ok db' ∧ RowsKept db db'
      ∧ schemaOf db' name = some ((schemaOf db name).getD schema)
      ∧ ∀ n, n ≠ name → db' n = db n := by
  obtain ⟨db', hexec, hself, hother⟩ := exec_createTable db name schema
  refine ⟨db', hexec, fun n t _ ht => ⟨t, ?_, .refl t⟩, ?_, hother⟩
  · by_cases hn : n = name
    · subst hn
      rw [hself, ht]
      rfl
    · rw [hother n hn, ht]
  · unfold schemaOf
    rw [hself]
    cases db name with
    | none => rfl
    | some t => rfl

theorem VersionRow.congr (h : VersionRow v db)
    (heq : db' "schema_version" = db "schema_version") : VersionRow v db' := by
  obtain ⟨t, ht, hrow⟩ := h
  exact ⟨t, heq.trans ht, hrow⟩

namespace Reached

variable {ran : List Statement}

theorem create (h : Reached v ran db₀ db) {e : String × Int × TableDef}
    (he : e ∈ tables) :
    ∃ db', exec db (.createTable e.1 e.2.2) = .ok db'
      ∧ Reached v (ran ++ [.createTable e.1 e.2.2]) db₀ db'
      ∧ db' "schema_version" = db "schema_version" := by
  obtain ⟨db', hexec, hkept, hself, hother⟩ :=
    create_effect db e.1 e.2.2
  obtain ⟨hrel, hver⟩ := tables_names e he
  have hthere : schemaOf db' e.1 = some e.2.2 := by
    rw [hself]
    rcases h.shaped e he with hnone | hsome
    · rw [hnone]
      rfl
    · rw [hsome]
      rfl
  have hrels := schemaOf_congr (hother _ (Ne.symm hrel))
  have hnew : addListenAddr ∈ ran ++ [.createTable e.1 e.2.2]
      ↔ addListenAddr ∈ ran := by
    simp only [List.mem_append, List.mem_singleton, addListenAddr, reduceCtorEq,
      or_false]
  -- a table other than this one is as it was
  have hcases : ∀ e' ∈ tables, e' = e ∨
      (e'.1 ≠ e.1 ∧ schemaOf db' e'.1 = schemaOf db e'.1) := by
    intro e' he'
    by_cases hname : e'.1 = e.1
    · exact .inl (tables_unique e' he' e he hname)
    · exact .inr ⟨hname, schemaOf_congr (hother _ hname)⟩
  refine ⟨db', hexec, ⟨h.kept.trans hkept, ?_, ?_, ?_, ?_, ?_⟩,
    hother _ (Ne.symm hver)⟩
  · intro e' he'
    rcases hcases e' he' with rfl | ⟨-, heq⟩
    · exact .inr hthere
    · rw [heq]
      exact h.shaped e' he'
  · intro e' he' hsince
    rcases hcases e' he' with rfl | ⟨-, heq⟩
    · rw [hthere]
      exact Option.some_ne_none _
    · rw [heq]
      exact h.older e' he' hsince
  · intro e' he' hran
    rcases hcases e' he' with rfl | ⟨hname, heq⟩
    · rw [hthere]
      exact Option.some_ne_none _
    · rw [heq]
      refine h.made e' he' ?_
      rcases List.mem_append.mp hran with hran | hran
      · exact hran
      · injection List.mem_singleton.mp hran with hsame
        exact absurd hsame hname
  · rw [hnew, hrels]
    exact h.widened
  · rw [hnew, hrels]
    intro hran hsince
    refine (h.narrow hran hsince).imp id fun ⟨hnone, hv, hmem⟩ => ⟨hnone, hv, ?_⟩
    intro hmem'
    rcases List.mem_append.mp hmem' with hmem' | hmem'
    · exact hmem hmem'
    · injection List.mem_singleton.mp hmem' with hsame
      exact hrel hsame.symm

/-- A statement that touches none of these tables is told by what it does to
`relationships`. -/
theorem of_tables (h : Reached v ran db₀ db) (hkept : RowsKept db db')
    (htable : ∀ e ∈ tables, db' e.1 = db e.1) {s : Statement}
    (hs : ∀ e ∈ tables, s ≠ .createTable e.1 e.2.2)
    (hwide : addListenAddr ∈ ran ++ [s] ∨ Since v 4 →
      schemaOf db' "relationships" = some relationshipsV4)
    (hnarrow : addListenAddr ∉ ran ++ [s] → ¬ Since v 4 →
      schemaOf db' "relationships" = some relationships ∨
        (schemaOf db' "relationships" = none ∧ v = none
          ∧ .createTable "relationships" relationships ∉ ran ++ [s])) :
    Reached v (ran ++ [s]) db₀ db' := by
  refine ⟨h.kept.trans hkept, ?_, ?_, ?_, hwide, hnarrow⟩
  · intro e he
    rw [schemaOf_congr (htable e he)]
    exact h.shaped e he
  · intro e he
    rw [schemaOf_congr (htable e he)]
    exact h.older e he
  · intro e he hmem
    rw [schemaOf_congr (htable e he)]
    refine h.made e he ?_
    rcases List.mem_append.mp hmem with hmem | hmem
    · exact hmem
    · exact absurd (List.mem_singleton.mp hmem).symm (hs e he)

theorem createContacts (h : Reached v ran db₀ db) (hran : addListenAddr ∉ ran)
    (hv : ¬ Since v 4) :
    ∃ db', exec db (.createTable "relationships" relationships) = .ok db'
      ∧ Reached v (ran ++ [.createTable "relationships" relationships]) db₀ db'
      ∧ db' "schema_version" = db "schema_version" := by
  obtain ⟨db', hexec, hkept, hself, hother⟩ :=
    create_effect db "relationships" relationships
  have hthere : schemaOf db' "relationships" = some relationships := by
    rw [hself]
    rcases h.narrow hran hv with hsome | ⟨hnone, -⟩
    · rw [hsome]
      rfl
    · rw [hnone]
      rfl
  refine ⟨db', hexec, h.of_tables hkept
    (fun e he => hother _ (tables_names e he).1) ?_ ?_ ?_, hother _ (by decide)⟩
  · intro e he hsame
    injection hsame with hname
    exact (tables_names e he).1 hname.symm
  · intro hwide
    rcases hwide with hmem | hsince
    · rcases List.mem_append.mp hmem with hmem | hmem
      · exact absurd hmem hran
      · exact absurd (List.mem_singleton.mp hmem) (by decide)
    · exact absurd hsince hv
  · exact fun _ _ => .inl hthere

theorem addColumn (h : Reached v ran db₀ db) (hran : addListenAddr ∉ ran)
    (hv : ¬ Since v 4)
    (hthere : v = none → .createTable "relationships" relationships ∈ ran) :
    ∃ db', exec db addListenAddr = .ok db'
      ∧ Reached v (ran ++ [addListenAddr]) db₀ db'
      ∧ db' "schema_version" = db "schema_version" := by
  have hrels : schemaOf db "relationships" = some relationships := by
    rcases h.narrow hran hv with hsome | ⟨-, hnone, hmem⟩
    · exact hsome
    · exact absurd (hthere hnone) hmem
  obtain ⟨t, ht, hschema⟩ := Option.map_eq_some_iff.mp hrels
  have hnew : ∀ d ∈ t.schema.columns, d.name ≠ peerListenAddr.name := by
    rw [hschema]
    decide
  have hother : ∀ n, n ≠ "relationships" →
      db.insert "relationships" (t.addColumn peerListenAddr) n = db n :=
    fun n hn => Table.insert_of_ne _ _ hn
  refine ⟨_, exec_addColumn ht hnew, h.of_tables ?_
    (fun e he => hother _ (tables_names e he).1) (fun _ _ => nofun) ?_ ?_,
    hother _ (by decide)⟩
  · intro n t' _ ht'
    by_cases hn : n = "relationships"
    · subst hn
      rw [ht, Option.some.injEq] at ht'
      exact ⟨_, Table.insert_self .., ht' ▸ Relation.keeps_addColumn t _⟩
    · exact ⟨t', (hother n hn).trans ht', .refl t'⟩
  · intro _
    unfold schemaOf
    rw [Table.insert_self, Option.map_some]
    show some (TableDef.mk (t.schema.columns ++ [peerListenAddr])
      t.schema.primaryKey t.schema.references) = _
    rw [hschema]
    rfl
  · intro hmem
    exact absurd (List.mem_append_right _ (List.mem_singleton_self _)) hmem

/-- The version table is none of these. -/
theorem congr (h : Reached v ran db₀ db)
    (hother : ∀ n, n ≠ "schema_version" → db' n = db n) :
    Reached v ran db₀ db' := by
  have htable : ∀ e ∈ tables, schemaOf db' e.1 = schemaOf db e.1 := fun e he =>
    schemaOf_congr (hother _ (tables_names e he).2)
  have hrels : schemaOf db' "relationships" = schemaOf db "relationships" :=
    schemaOf_congr (hother _ (by decide))
  refine ⟨fun n t hn ht => ?_, ?_, ?_, ?_, ?_, ?_⟩
  · rw [hother n hn]
    exact h.kept n t hn ht
  · intro e he
    rw [htable e he]
    exact h.shaped e he
  · intro e he
    rw [htable e he]
    exact h.older e he
  · intro e he
    rw [htable e he]
    exact h.made e he
  · rw [hrels]
    exact h.widened
  · rw [hrels]
    exact h.narrow

/-- Nor is its write any of the statements that count. -/
theorem skipRecord (h : Reached v ran db₀ db) :
    Reached v (ran ++ [record v]) db₀ db := by
  have hrecord : ∀ {s : Statement}, s ≠ record v →
      (s ∈ ran ++ [record v] ↔ s ∈ ran) := by
    intro s hs
    rw [List.mem_append, List.mem_singleton, or_iff_left hs]
  have hcreate := fun name schema => (record_ne_create v name schema).symm
  have halter := (record_ne_alter v).symm
  refine ⟨h.kept, h.shaped, h.older, ?_, ?_, ?_⟩
  · intro e he
    rw [hrecord (hcreate _ _)]
    exact h.made e he
  · rw [hrecord halter]
    exact h.widened
  · rw [hrecord halter, hrecord (hcreate _ _)]
    exact h.narrow

theorem recordVersion (h : Reached v ran db₀ db) (hrow : VersionRow v db) :
    ∃ db', exec db (record v) = .ok db'
      ∧ Reached v (ran ++ [record v]) db₀ db'
      ∧ VersionRow (some schemaVersion) db' := by
  obtain ⟨t, ht, hschema, hrows⟩ := hrow
  have hwritten : ∃ t', exec db (record v)
        = .ok (db.insert "schema_version" t')
      ∧ t'.schema = versionTable ∧ t'.rows = [[.integer schemaVersion]] := by
    cases v with
    | none =>
        have hwidth : [Value.integer schemaVersion].length
            = t.schema.columns.length := by
          rw [hschema]
          rfl
        refine ⟨t.insert _ hwidth, ?_, hschema, ?_⟩
        · simp only [record, ↓reduceIte, insertVersion, exec, ht, dif_pos hwidth]
        · show t.rows ++ _ = _
          rw [hrows]
          rfl
    | some n =>
        refine ⟨t.setColumn 0 (.integer schemaVersion), ?_, hschema, ?_⟩
        · have hcolumn : t.schema.columns.findIdx? (fun c => c.name = "version")
              = some 0 := by
            rw [hschema]
            rfl
          simp only [record, reduceCtorEq, ↓reduceIte, updateVersion, exec, ht,
            hcolumn]
        · show t.rows.map _ = _
          rw [hrows]
          rfl
  obtain ⟨t', hexec, hschema', hrows'⟩ := hwritten
  have hother : ∀ n, n ≠ "schema_version" →
      db.insert "schema_version" t' n = db n := fun n hn =>
    Table.insert_of_ne _ _ hn
  exact ⟨_, hexec, (h.congr hother).skipRecord, t', Table.insert_self ..,
    hschema', hrows'⟩

/-- An open starts over: what ran before counts for nothing but the column. -/
theorem restart (h : Reached v ran db₀ db) (hran : addListenAddr ∉ ran) :
    Reached v [] db₀ db := by
  refine ⟨h.kept, h.shaped, h.older, fun _ _ hmem => absurd hmem
    List.not_mem_nil, ?_, ?_⟩
  · intro hwide
    exact h.widened (.inr (hwide.resolve_left List.not_mem_nil))
  · intro _ hv
    exact (h.narrow hran hv).imp id fun ⟨hnone, hv, _⟩ =>
      ⟨hnone, hv, List.not_mem_nil⟩

end Reached

-- ================================================================= a run

/-- A statement that is due after these. -/
inductive Ready (v : Option Int) (ran : List Statement) : Statement → Prop where
  | create {e : String × Int × TableDef} (he : e ∈ tables) :
      Ready v ran (.createTable e.1 e.2.2)
  | contacts (hran : addListenAddr ∉ ran) (hv : ¬ Since v 4) :
      Ready v ran (.createTable "relationships" relationships)
  | column (hran : addListenAddr ∉ ran) (hv : ¬ Since v 4)
      (hthere : v = none → .createTable "relationships" relationships ∈ ran) :
      Ready v ran addListenAddr
  | version (hran : record v ∉ ran) : Ready v ran (record v)

/-- The version on disk after these statements. -/
def stamp (v : Option Int) (ran : List Statement) : Option Int :=
  if record v ∈ ran then some schemaVersion else v

theorem reached_step {ran : List Statement} {s : Statement}
    (hs : Ready v ran s) (h : Reached v ran db₀ db)
    (hrow : VersionRow (stamp v ran) db) :
    ∃ db', exec db s = .ok db' ∧ Reached v (ran ++ [s]) db₀ db'
      ∧ VersionRow (stamp v (ran ++ [s])) db' := by
  have hstamp : ∀ {s : Statement}, s ≠ record v →
      stamp v (ran ++ [s]) = stamp v ran := by
    intro s hs
    simp only [stamp, List.mem_append, List.mem_singleton, hs.symm, or_false]
  have hcreate := fun name schema => (record_ne_create v name schema).symm
  cases hs with
  | create he =>
      obtain ⟨db', hexec, hreached, hver⟩ := h.create he
      rw [hstamp (hcreate _ _)]
      exact ⟨db', hexec, hreached, hrow.congr hver⟩
  | contacts hran hv =>
      obtain ⟨db', hexec, hreached, hver⟩ := h.createContacts hran hv
      rw [hstamp (hcreate _ _)]
      exact ⟨db', hexec, hreached, hrow.congr hver⟩
  | column hran hv hthere =>
      obtain ⟨db', hexec, hreached, hver⟩ := h.addColumn hran hv hthere
      rw [hstamp (record_ne_alter v).symm]
      exact ⟨db', hexec, hreached, hrow.congr hver⟩
  | version hran =>
      unfold stamp at hrow
      rw [if_neg hran] at hrow
      obtain ⟨db', hexec, hreached, hrow'⟩ := h.recordVersion hrow
      refine ⟨db', hexec, hreached, ?_⟩
      unfold stamp
      rwa [if_pos (List.mem_append_right _ (List.mem_singleton_self _))]

/-- The end of every migration. -/
theorem ready_at_end (ran : List Statement) {xs rest : List Statement}
    {s : Statement}
    (hsplit : schemaV5Delta ++ [record v] = xs ++ s :: rest)
    (hran : record v ∉ ran ++ schemaV5Delta) : Ready v (ran ++ xs) s := by
  cases xs with
  | nil =>
      injection hsplit with hs
      rw [← hs]
      exact .create (e := ("verse_memberships", 5, verseMemberships)) (by decide)
  | cons x xs =>
      injection hsplit with hx hsplit
      cases xs with
      | nil =>
          injection hsplit with hs
          rw [← hs, ← hx]
          exact .version hran
      | cons y ys =>
          injection hsplit with _ hsplit
          exact absurd hsplit.symm (List.append_ne_nil_of_right_ne_nil _ nofun)

/-- Whatever is next in the migration is due. -/
theorem ready_of_split {ran rest : List Statement} {s : Statement}
    (hsplit : migration v = ran ++ s :: rest) : Ready v ran s := by
  by_cases hfive : Since v 5
  · rw [migration_five hfive] at hsplit
    exact absurd hsplit.symm (List.append_ne_nil_of_right_ne_nil _ nofun)
  by_cases hfour : Since v 4
  · rw [migration_four hfour hfive] at hsplit
    refine ready_at_end [] hsplit fun hmem => ?_
    exact record_not_ahead
      (List.mem_append_right _ (List.mem_cons_of_mem _ hmem))
  · rw [migration_before_four hfour] at hsplit
    have halter : addListenAddr ∉ ahead v := by
      intro hmem
      rcases mem_ahead hmem with ⟨e, -, he⟩ | ⟨he, -⟩ <;> cases he
    have hcolumn : Ready v (ahead v) addListenAddr :=
      .column halter hfour fun hv => by
        subst hv
        decide
    rcases List.append_eq_append_iff.mp hsplit with
      ⟨xs, hran, hrest⟩ | ⟨xs, hahead, hrest⟩
    · -- the column was added, or is now
      cases xs with
      | nil =>
          injection hrest with hs
          rw [hran, List.append_nil, ← hs]
          exact hcolumn
      | cons x xs =>
          injection hrest with hx hrest
          rw [hran, ← hx, List.append_cons]
          refine ready_at_end _ hrest ?_
          rw [List.append_assoc]
          exact record_not_ahead
    · cases xs with
      | nil =>
          injection hrest with hs
          rw [List.append_nil] at hahead
          rw [← hahead, hs]
          exact hcolumn
      | cons x xs =>
          injection hrest with hx hrest
          subst hx
          have hran : addListenAddr ∉ ran := fun hmem =>
            halter (hahead ▸ List.mem_append_left _ hmem)
          have hmem : s ∈ ahead v := by
            rw [hahead]
            exact List.mem_append_right _ List.mem_cons_self
          rcases mem_ahead hmem with ⟨e, he, hs⟩ | ⟨hs, -⟩
          · rw [hs]
            exact .create he
          · rw [hs]
            exact .contacts hran hfour

/-- A stretch of the migration runs through. -/
theorem reached_batch (ran : List Statement) {ss rest : List Statement}
    (hsplit : migration v = ran ++ (ss ++ rest)) (h : Reached v ran db₀ db)
    (hrow : VersionRow (stamp v ran) db) :
    ∃ db', execBatch db ss = .ok db' ∧ Reached v (ran ++ ss) db₀ db'
      ∧ VersionRow (stamp v (ran ++ ss)) db' := by
  induction ss generalizing ran db with
  | nil =>
      rw [List.append_nil]
      exact ⟨db, rfl, h, hrow⟩
  | cons s ss ih =>
      obtain ⟨db₁, hexec, hreached, hrow⟩ :=
        reached_step (ready_of_split hsplit) h hrow
      rw [List.cons_append, List.append_cons] at hsplit
      obtain ⟨db', hbatch, hreached, hrow⟩ := ih _ hsplit hreached hrow
      rw [List.append_cons ran s ss]
      refine ⟨db', ?_, hreached, hrow⟩
      show (exec db s).bind _ = _
      rw [hexec]
      exact hbatch

-- ================================================================ an open

/-- An open finds the version, and no statement before that does harm. -/
theorem open_starts (h : Versioned v db) :
    ∃ db₁, exec db createVersionTable = .ok db₁ ∧ currentVersion db₁ = .ok v
      ∧ VersionRow v db₁ ∧ ∀ n, n ≠ "schema_version" → db₁ n = db n := by
  obtain ⟨db₁, hexec, hself, hother⟩ :=
    exec_createTable db "schema_version" versionTable
  have hrow : VersionRow v db₁ := by
    rcases h with ⟨rfl, hnone⟩ | ⟨t, ht, hschema, hrows⟩
    · rw [hnone] at hself
      exact ⟨_, hself, rfl, rfl⟩
    · rw [ht] at hself
      exact ⟨t, hself, hschema, hrows⟩
  refine ⟨db₁, hexec, ?_, hrow, hother⟩
  obtain ⟨t, ht, hschema, hrows⟩ := hrow
  have hcolumn : t.schema.columns.findIdx? (fun c => c.name = "version")
      = some 0 := by
    rw [hschema]
    rfl
  have hquery : queryColumn db₁ "schema_version" "version"
      = .ok (v.map Value.integer) := by
    simp only [queryColumn, ht, hcolumn, hrows]
    cases v <;> rfl
  unfold currentVersion
  rw [hquery]
  cases v <;> rfl

theorem openStatements_eq (h : Versioned v db) :
    openStatements db = createVersionTable :: migration v := by
  obtain ⟨db₁, hexec, hversion, -⟩ := open_starts h
  simp only [openStatements, hexec, hversion]

/-- What an open does once it found the version. -/
theorem runMigrations_eq {db₁ : Database}
    (hexec : exec db createVersionTable = .ok db₁)
    (hversion : currentVersion db₁ = .ok v) :
    runMigrations db = (execBatch db₁ (migration v)).mapError .sql := by
  unfold runMigrations
  rw [hexec]
  show (currentVersion db₁).bind _ = _
  rw [hversion]
  rfl

theorem stopped_succ (h : Versioned v db) {db₁ : Database}
    (hexec : exec db createVersionTable = .ok db₁) (k : Nat) :
    stopped db (k + 1) = onDisk db₁ ((migration v).take k) := by
  unfold stopped
  rw [openStatements_eq h, List.take_succ_cons]
  simp only [onDisk, hexec]

/-- A database an open can start from. -/
structure Restart (v : Option Int) (db₀ db : Database) : Prop where
  known : v = none ∨ Since v 1 ∧ ¬ Since v 6
  recorded : Versioned v db
  reached : Reached v [] db₀ db

/-- As far as an open gets. -/
theorem Restart.progress (h : Restart v db₀ db) (ran rest : List Statement)
    (hsplit : migration v = ran ++ rest) :
    ∃ db₁ db', exec db createVersionTable = .ok db₁
      ∧ currentVersion db₁ = .ok v ∧ execBatch db₁ ran = .ok db'
      ∧ Reached v ran db₀ db' ∧ VersionRow (stamp v ran) db' := by
  obtain ⟨db₁, hexec, hversion, hrow, hother⟩ := open_starts h.recorded
  have hstamp : stamp v [] = v := if_neg List.not_mem_nil
  obtain ⟨db', hbatch, hreached, hrow'⟩ :=
    reached_batch [] hsplit (h.reached.congr hother)
      (hstamp.symm ▸ hrow)
  exact ⟨db₁, db', hexec, hversion, hbatch, hreached, hrow'⟩

-- ============================================================ run through

/-- A table that came later than the version is created. -/
theorem create_mem_migration (hv : v = none ∨ Since v 1)
    {e : String × Int × TableDef} (he : e ∈ tables) (hlater : ¬ Since v e.2.1) :
    .createTable e.1 e.2.2 ∈ migration v := by
  have hnone : ∀ e ∈ tables, .createTable e.1 e.2.2 ∈ migration none := by
    decide
  have hsince : ∀ e ∈ tables, e.2.1 = 1 ∨
      (e.2.1 = 2 ∧ .createTable e.1 e.2.2 ∈ schemaV2Delta) ∨
      (e.2.1 = 3 ∧ .createTable e.1 e.2.2 ∈ schemaV3Delta) ∨
      (e.2.1 = 5 ∧ .createTable e.1 e.2.2 ∈ schemaV5Delta) := by
    decide
  cases v with
  | none => exact hnone e he
  | some n =>
      have hlt : ∀ m, ¬ Since (some n) m → n < m := fun m hm => by
        by_contra hle
        exact hm ⟨n, rfl, by omega⟩
      have hn := hlt _ hlater
      simp only [migration]
      rcases hsince e he with hone | ⟨htwo, hmem⟩ | ⟨hthree, hmem⟩ | ⟨hfive, hmem⟩
      · rw [hone] at hlater
        exact absurd (hv.resolve_left nofun) hlater
      · rw [htwo] at hn
        rw [if_pos hn]
        simp only [List.mem_append, hmem, true_or]
      · rw [hthree] at hn
        by_cases h2 : n < 2
        · rw [if_pos h2]
          simp only [List.mem_append, hmem, true_or, or_true]
        · rw [if_neg h2, if_pos hn]
          simp only [List.mem_append, hmem, true_or]
      · rw [hfive] at hn
        split
        · simp only [List.mem_append, hmem, true_or, or_true]
        · split
          · simp only [List.mem_append, hmem, true_or, or_true]
          · split
            · simp only [List.mem_append, hmem, true_or, or_true]
            · simp only [List.mem_append, hmem, true_or]

theorem stamp_migration (hv : v = none ∨ Since v 1 ∧ ¬ Since v 6) :
    stamp v (migration v) = some schemaVersion := by
  by_cases hfive : Since v 5
  · rw [migration_five hfive]
    obtain ⟨n, rfl, hn⟩ := hfive
    have hn' : n < 6 := by
      by_contra hle
      exact (hv.resolve_left nofun).2 ⟨n, rfl, by omega⟩
    show some n = some 5
    rw [show n = 5 by omega]
  · unfold stamp
    rw [if_pos]
    by_cases hfour : Since v 4
    · rw [migration_four hfour hfive]
      exact List.mem_append_right _ (List.mem_singleton_self _)
    · rw [migration_before_four hfour]
      refine List.mem_append_right _ (List.mem_cons_of_mem _ ?_)
      exact List.mem_append_right _ (List.mem_singleton_self _)

/-- A migration that ran through leaves the full schema. -/
theorem complete_of_reached (hv : v = none ∨ Since v 1 ∧ ¬ Since v 6)
    (h : Reached v (migration v) db₀ db)
    (hrow : VersionRow (stamp v (migration v)) db) : Complete db := by
  rw [stamp_migration hv] at hrow
  refine ⟨hrow, fun e he => (h.shaped e he).resolve_left ?_, h.widened ?_⟩
  · by_cases hsince : Since v e.2.1
    · exact h.older e he hsince
    · exact h.made e he (create_mem_migration (hv.imp id And.left) he hsince)
  · by_cases hfour : Since v 4
    · exact .inr hfour
    · rw [migration_before_four hfour]
      exact .inl (List.mem_append_right _ List.mem_cons_self)

theorem Restart.reopens (h : Restart v db₀ db) : Reopens db₀ db := by
  obtain ⟨db₁, db', hexec, hversion, hbatch, hreached, hrow⟩ :=
    h.progress (migration v) [] (List.append_nil _).symm
  refine ⟨db', ?_, complete_of_reached h.known hreached hrow, hreached.kept⟩
  rw [runMigrations_eq hexec hversion, hbatch]
  rfl

theorem Complete.restart (h : Complete db) (hkept : RowsKept db₀ db) :
    Restart (some schemaVersion) db₀ db := by
  have hfour : Since (some schemaVersion) 4 := ⟨_, rfl, by decide⟩
  refine ⟨.inr ⟨⟨_, rfl, by decide⟩, ?_⟩, .inr h.version, hkept, ?_, ?_, ?_, ?_, ?_⟩
  · rintro ⟨n, hn, hle⟩
    injection hn with hn
    rw [← hn] at hle
    exact absurd hle (by decide)
  · exact fun e he => .inr (h.tables e he)
  · intro e he _
    rw [h.tables e he]
    exact Option.some_ne_none _
  · exact fun _ _ hmem => absurd hmem List.not_mem_nil
  · exact fun _ => h.contacts
  · exact fun _ hv => absurd hfour hv

/-- A database at a version is one an open can start from. -/
theorem AtVersion.restart (h : AtVersion v db) : Restart v db db := by
  refine ⟨h.known, h.recorded, .refl db, ?_, ?_, ?_, ?_, ?_⟩
  · intro e he
    by_cases hsince : Since v e.2.1
    · exact .inr (h.present e he hsince)
    · exact .inl (congrArg (Option.map _) (h.absent e he hsince))
  · intro e he hsince
    rw [h.present e he hsince]
    exact Option.some_ne_none _
  · exact fun _ _ hmem => absurd hmem List.not_mem_nil
  · intro hwide
    obtain ⟨n, rfl, hn⟩ := hwide.resolve_left List.not_mem_nil
    rw [h.contacts, Option.map_some, if_neg (by omega)]
  · intro _ hv
    cases v with
    | none => exact .inr ⟨h.contacts, rfl, List.not_mem_nil⟩
    | some n =>
        have hn : n < 4 := by
          by_contra hle
          exact hv ⟨n, rfl, by omega⟩
        rw [h.contacts, Option.map_some, if_pos hn]
        exact .inl rfl

-- ================================================================= stops

theorem alter_before_four (h : addListenAddr ∈ migration v) : ¬ Since v 4 := by
  intro hfour
  by_cases hfive : Since v 5
  · rw [migration_five hfive] at h
    cases h
  · rw [migration_four hfour hfive] at h
    rcases List.mem_append.mp h with h | h
    · cases List.mem_singleton.mp h
    · exact record_ne_alter v (List.mem_singleton.mp h).symm

/-- The version is written last. -/
theorem record_last {ran rest : List Statement}
    (hsplit : migration v = ran ++ rest) (hran : record v ∈ ran) :
    ran = migration v := by
  have hinit : ∀ {init : List Statement}, record v ∉ init →
      init ++ [record v] = ran ++ rest → rest = [] := by
    intro init hnot heq
    rcases List.eq_nil_or_concat rest with hnil | ⟨rest', s, rfl⟩
    · exact hnil
    · rw [List.concat_eq_append, ← List.append_assoc] at heq
      have hpre := (List.append_inj' heq rfl).1
      exact absurd (hpre ▸ List.mem_append_left _ hran) hnot
  have hnil : rest = [] := by
    by_cases hfive : Since v 5
    · rw [migration_five hfive] at hsplit
      exact (List.append_eq_nil_iff.mp hsplit.symm).2
    · by_cases hfour : Since v 4
      · rw [migration_four hfour hfive] at hsplit
        refine hinit (fun hmem => ?_) hsplit
        exact record_not_ahead
          (List.mem_append_right _ (List.mem_cons_of_mem _ hmem))
      · rw [migration_before_four hfour] at hsplit
        refine hinit record_not_ahead ?_
        rw [← hsplit, List.append_assoc]
        rfl
  rw [hsplit, hnil, List.append_nil]

/-- Only the one write of the version is in the migration. -/
theorem record_of_mem {s : Statement} (h : s ∈ migration v)
    (hs : s = insertVersion ∨ s = updateVersion) : s = record v := by
  have hahead : s ∉ ahead v ++ addListenAddr :: schemaV5Delta := by
    intro hmem
    rcases List.mem_append.mp hmem with hmem | hmem
    · rcases mem_ahead hmem with ⟨e, -, he⟩ | ⟨he, -⟩ <;>
        rcases hs with rfl | rfl <;> cases he
    · revert hmem
      rcases hs with rfl | rfl <;> decide
  by_cases hfive : Since v 5
  · rw [migration_five hfive] at h
    cases h
  · have hmem : s ∈ ahead v ++ addListenAddr :: schemaV5Delta ++ [record v] := by
      by_cases hfour : Since v 4
      · rw [migration_four hfour hfive] at h
        rcases List.mem_append.mp h with h | h
        · exact List.mem_append_left _
            (List.mem_append_right _ (List.mem_cons_of_mem _ h))
        · exact List.mem_append_right _ h
      · rw [migration_before_four hfour] at h
        rwa [List.append_assoc]
    exact List.mem_singleton.mp
      ((List.mem_append.mp hmem).resolve_left hahead)

/-- A database on which an open fails: the column is there, and the version is
one before it. -/
structure Stuck (v : Option Int) (db : Database) : Prop where
  early : ¬ Since v 4
  recorded : Versioned v db
  wide : schemaOf db "relationships" = some relationshipsV4

theorem torn_iff (h : Versioned v db) (k : Nat) :
    Torn db (k + 1) ↔ addListenAddr ∈ (migration v).take k
      ∧ record v ∉ (migration v).take k := by
  have hne : ∀ s, s ≠ createVersionTable →
      (s ∈ createVersionTable :: (migration v).take k
        ↔ s ∈ (migration v).take k) := fun s hs => by
    rw [List.mem_cons, or_iff_right hs]
  unfold Torn
  rw [openStatements_eq h, List.take_succ_cons, hne _ (by decide),
    hne _ (by decide), hne _ (by decide)]
  refine and_congr_right fun _ => ⟨fun ⟨hinsert, hupdate⟩ => ?_, fun hrecord => ?_⟩
  · cases v with
    | none => exact hinsert
    | some n => exact hupdate
  · constructor
    · intro hmem
      exact hrecord
        (record_of_mem (List.mem_of_mem_take hmem) (.inl rfl) ▸ hmem)
    · intro hmem
      exact hrecord
        (record_of_mem (List.mem_of_mem_take hmem) (.inr rfl) ▸ hmem)

/-- Where a stop leaves a database. -/
theorem Restart.after_stop (h : Restart v db₀ db) (k : Nat) :
    (Torn db k → Stuck v (stopped db k)) ∧
      (¬ Torn db k → ∃ v', Restart v' db₀ (stopped db k)) := by
  cases k with
  | zero =>
      refine ⟨fun htorn => absurd htorn.1 List.not_mem_nil, fun _ => ⟨v, h⟩⟩
  | succ k =>
      obtain ⟨db₁, db', hexec, hversion, hbatch, hreached, hrow⟩ :=
        h.progress ((migration v).take k) ((migration v).drop k)
          (List.take_append_drop _ _).symm
      rw [stopped_succ h.recorded hexec, onDisk_of_execBatch hbatch,
        torn_iff h.recorded]
      constructor
      · rintro ⟨halter, hrecord⟩
        have hrow' : VersionRow v db' := by
          unfold stamp at hrow
          rwa [if_neg hrecord] at hrow
        exact ⟨alter_before_four (List.mem_of_mem_take halter), .inr hrow',
          hreached.widened (.inl halter)⟩
      · intro hsafe
        by_cases hrecord : record v ∈ (migration v).take k
        · have hall := record_last (List.take_append_drop _ _).symm hrecord
          rw [hall] at hreached hrow
          exact ⟨_, (complete_of_reached h.known hreached hrow).restart
            hreached.kept⟩
        · have halter : addListenAddr ∉ (migration v).take k :=
            fun hmem => hsafe ⟨hmem, hrecord⟩
          unfold stamp at hrow
          rw [if_neg hrecord] at hrow
          exact ⟨v, h.known, .inr hrow, hreached.restart halter⟩

/-- Creating tables does not free a database that is stuck. -/
theorem Stuck.creates (ss : List Statement) (hss : ∀ s ∈ ss, s ∈ ahead v)
    (hwide : schemaOf db "relationships" = some relationshipsV4) :
    ∃ db', execBatch db ss = .ok db'
      ∧ schemaOf db' "relationships" = some relationshipsV4
      ∧ db' "schema_version" = db "schema_version" := by
  induction ss generalizing db with
  | nil => exact ⟨db, rfl, hwide, rfl⟩
  | cons s ss ih =>
      have hcreate : ∃ name schema, s = .createTable name schema
          ∧ name ≠ "schema_version" := by
        rcases mem_ahead (hss s List.mem_cons_self) with ⟨e, he, hs⟩ | ⟨hs, -⟩
        · exact ⟨_, _, hs, (tables_names e he).2⟩
        · exact ⟨_, _, hs, by decide⟩
      obtain ⟨name, schema, rfl, hname⟩ := hcreate
      obtain ⟨db₁, hexec, -, hself, hother⟩ :=
        create_effect db name schema
      have hwide₁ : schemaOf db₁ "relationships" = some relationshipsV4 := by
        by_cases hrel : name = "relationships"
        · subst hrel
          rw [hself, hwide]
          rfl
        · rw [schemaOf_congr (hother _ (Ne.symm hrel)), hwide]
      obtain ⟨db', hbatch, hwide', hver⟩ :=
        ih (fun s hs => hss s (List.mem_cons_of_mem _ hs)) hwide₁
      refine ⟨db', ?_, hwide', hver.trans (hother _ (Ne.symm hname))⟩
      show (exec db _).bind _ = _
      rw [hexec]
      exact hbatch

/-- The column cannot be added again. -/
theorem Stuck.refuses (hwide : schemaOf db "relationships"
    = some relationshipsV4) : exec db addListenAddr
      = .error (.duplicateColumn "peer_listen_addr") := by
  obtain ⟨t, ht, hschema⟩ := Option.map_eq_some_iff.mp hwide
  refine exec_addColumn_duplicate (d := peerListenAddr) ht ?_ rfl
  rw [hschema]
  exact List.mem_append_right _ (List.mem_singleton_self _)

/-- Every open of it fails. -/
theorem Stuck.fails (h : Stuck v db) : runMigrations db
    = .error (.sql (.duplicateColumn "peer_listen_addr")) := by
  obtain ⟨db₁, hexec, hversion, -, hother⟩ := open_starts h.recorded
  obtain ⟨db', hbatch, hwide, -⟩ := Stuck.creates (v := v) (ahead v)
    (fun _ hs => hs) ((schemaOf_congr (hother _ (by decide))).trans h.wide)
  have hend : execBatch db' (addListenAddr :: (schemaV5Delta ++ [record v]))
      = .error (.duplicateColumn "peer_listen_addr") := by
    show (exec db' _).bind _ = _
    rw [Stuck.refuses hwide]
    rfl
  rw [runMigrations_eq hexec hversion, migration_before_four h.early,
    execBatch_append, hbatch]
  show (execBatch db' _).mapError _ = _
  rw [hend]
  rfl

/-- And no stop frees it. -/
theorem Stuck.after_stop (h : Stuck v db) (k : Nat) : Stuck v (stopped db k) := by
  cases k with
  | zero => exact h
  | succ k =>
      obtain ⟨db₁, hexec, -, hrow, hother⟩ := open_starts h.recorded
      rw [stopped_succ h.recorded hexec, migration_before_four h.early,
        List.take_append]
      obtain ⟨db', hbatch, hwide, hver⟩ := Stuck.creates (v := v)
        ((ahead v).take k) (fun _ hs => List.mem_of_mem_take hs)
        ((schemaOf_congr (hother _ (by decide))).trans h.wide)
      have hdisk : onDisk db' ((addListenAddr
          :: (schemaV5Delta ++ [record v])).take (k - (ahead v).length)) = db' := by
        cases k - (ahead v).length with
        | zero => rfl
        | succ j => simp only [List.take_succ_cons, onDisk, Stuck.refuses hwide]
      rw [onDisk_append hbatch, hdisk]
      exact ⟨h.early, .inr (hrow.congr hver), hwide⟩

/-- The opens of a database, each stopped somewhere. -/
def stops (db : Database) (ks : List Nat) : Database := ks.foldl stopped db

theorem Stuck.after_stops (h : Stuck v db) (ks : List Nat) :
    Stuck v (stops db ks) := by
  induction ks generalizing db with
  | nil => exact h
  | cons k ks ih => exact ih (h.after_stop k)

theorem Restart.reopens_iff (h : Restart v db₀ db) (ks : List Nat) :
    Reopens db₀ (stops db ks) ↔
      Along (fun db k => some (stopped db k)) (fun db k => ¬ Torn db k) db ks := by
  induction ks generalizing v db with
  | nil => exact ⟨fun _ => trivial, fun _ => h.reopens⟩
  | cons k ks ih =>
      obtain ⟨htorn, hsafe⟩ := h.after_stop k
      by_cases hk : Torn db k
      · refine ⟨fun ⟨db', hopen, _⟩ => ?_, fun halong => absurd hk halong.1⟩
        have hfails := ((htorn hk).after_stops ks).fails
        exact nomatch hopen.symm.trans hfails
      · obtain ⟨v', hrestart⟩ := hsafe hk
        refine (ih hrestart).trans ⟨fun halong => ⟨hk, fun db' hdb' => ?_⟩,
          fun halong => halong.2 _ rfl⟩
        injection hdb' with hdb'
        exact hdb' ▸ halong

/-- Whatever the version, the rows and the stops: a later open succeeds and
finds every row iff none of the stops was between the new column and the
version. -/
theorem reopens_iff_no_torn_stop (h : AtVersion v db) (ks : List Nat) :
    Reopens db (stops db ks) ↔
      Along (fun db k => some (stopped db k)) (fun db k => ¬ Torn db k) db ks :=
  h.restart.reopens_iff ks

-- ============================================== a database of version three

/-- A database of version 3 with a side and a contact. -/
def versionThree : Database :=
  onDisk .empty
    ([createVersionTable, .insert "schema_version" [.integer 3]] ++ schemaV1
      ++ schemaV2Delta ++ schemaV3Delta ++
      [.insert "sides" [.blob [0xAB], .blob [0xCD], .text "legacy",
          .integer 1700000000, .text "Active", .null, .integer 0],
       .insert "relationships" [.blob [0xAB], .blob [0x55],
          .text "legacy-friend", .null, .text "direct-message", .null,
          .integer 0, .integer 1700000100]])

theorem since_some {n m : Int} : Since (some n) m ↔ m ≤ n :=
  ⟨fun ⟨_, h, hle⟩ => by injection h with h; rwa [h], fun h => ⟨n, rfl, h⟩⟩

theorem versionThree_at : AtVersion (some 3) versionThree := by
  refine ⟨.inr ⟨since_some.mpr (by decide), fun h => ?_⟩,
    .inr ⟨_, rfl, rfl, rfl⟩, ?_, ?_, rfl⟩
  · exact absurd (since_some.mp h) (by decide)
  · intro e he hsince
    replace hsince := since_some.mp hsince
    revert e
    decide
  · intro e he hsince
    rw [since_some] at hsince
    have hnone : ∀ e ∈ tables, ¬ e.2.1 ≤ 3 → schemaOf versionThree e.1 = none := by
      decide
    exact Option.map_eq_none_iff.mp (hnone e he hsince)

/-- Stopped before the new column and again after everything else, it opens. -/
theorem versionThree_reopens :
    Reopens versionThree (stops versionThree [1, 4]) :=
  (reopens_iff_no_torn_stop versionThree_at [1, 4]).mpr (by
    refine .cons rfl ?_ (.cons rfl ?_ trivial)
    · unfold Torn
      decide +kernel
    · unfold Torn
      decide +kernel)

/-- Stopped right after the new column, it never opens again. -/
theorem versionThree_lost : AtVersion (some 3) versionThree ∧
    ∀ ks, ¬ Reopens versionThree (stops versionThree (2 :: ks)) := by
  have htorn : Torn versionThree 2 := by
    unfold Torn
    decide +kernel
  have hstuck := (versionThree_at.restart.after_stop 2).1 htorn
  refine ⟨versionThree_at, fun ks ⟨db', hopen, _⟩ => ?_⟩
  exact nomatch hopen.symm.trans (hstuck.after_stops ks).fails

end Sidevers.Proofs
