import Mathlib.Data.Int.Order.Basic
import RagFlow.Lib.Dict
import RagFlow.Lib.Runs
import RagFlow.Lib.Table

/-!
# Relational databases as a source

A sync run of the RDBMS connector takes the greatest timestamp of the source, yields the rows whose
timestamp is above the saved cursor and not above that maximum, and saves the maximum as the cursor
when all documents were ingested.
-/

namespace RagFlow.Sync.Rdbms

open Lib

inductive DatabaseType
  | mysql
  | postgresql
  | mssql
  deriving DecidableEq, Repr

inductive Value
  | datetime (microseconds : ℤ)
  | other (text : String)
  deriving DecidableEq, Repr

/-- A row as a dictionary; null is `none`. -/
abbrev Record := Dict String (Option Value)

structure Connector where
  databaseType : DatabaseType
  idPrefix : String
  contentColumns : List String
  idColumn : Option String
  timestampColumn : Option String
  /-- How many base queries there are, one for each table when no query is configured. -/
  baseQueries : ℕ
  /-- A value in an f-string, or `json.dumps` of one that is a dictionary or a list. -/
  render : Value → String
  md5 : String → String

section Ids

variable (connector : Connector)

def contentColumnsForRow (record : Record) : List String :=
  if connector.contentColumns ≠ [] then connector.contentColumns
  else record.keys.filter fun column =>
    some column ≠ connector.idColumn && some column ≠ connector.timestampColumn

def contentPart (record : Record) (column : String) : Option String :=
  match record.get? column with
  | some (some value) => some ("【" ++ column ++ "】:\n" ++ connector.render value)
  | _ => none

def buildContent (record : Record) : String :=
  "\n\n".intercalate ((contentColumnsForRow connector record).filterMap
    (contentPart connector record))

def idValue (record : Record) : Option Value :=
  connector.idColumn.bind fun column => (record.get? column).bind id

def buildDocumentIdFromRow (record : Record) : String :=
  match idValue connector record with
  | some value => connector.idPrefix ++ connector.render value
  | none => connector.idPrefix ++ connector.md5 (buildContent connector record)

def selectColumns (columns : List String) (record : Record) : Option Record :=
  columns.foldlM (fun selected column =>
    (record.get? column).map fun value => selected.upsert column fun _ => value) Dict.empty

/-- The row that `_build_slim_query` gives. -/
def slimRow (record : Record) : Option Record :=
  let columns := match connector.idColumn with
    | some column => [column]
    | none => connector.contentColumns
  if columns = [] then some record else selectColumns columns record

end Ids

structure Row where
  key : ℕ
  baseQuery : ℕ
  record : Record
  deriving DecidableEq

section Windows

variable (connector : Connector)

def timestampOf (row : Row) : Option ℤ :=
  match connector.timestampColumn.bind fun column => (row.record.get? column).bind id with
  | some (.datetime microseconds) => some microseconds
  | _ => none

/-- The time that the literal of `_format_sql_value` denotes: MySQL's has no sub-second part. -/
def formatSqlValue (microseconds : ℤ) : ℤ :=
  match connector.databaseType with
  | .mysql => microseconds / 1000000 * 1000000
  | .postgresql | .mssql => microseconds

/-- `ts > start` of a row with a timestamp; there is no such condition without a start. -/
def above (start : Option ℤ) (timestamp : ℤ) : Bool :=
  match start with
  | none => true
  | some start => formatSqlValue connector start < timestamp

/-- The `WHERE` clause of `_build_time_filtered_query` with an end. -/
def inWindow (start : Option ℤ) (end_ : ℤ) (row : Row) : Bool :=
  match timestampOf connector row with
  | none => false
  | some timestamp => above connector start timestamp && timestamp ≤ formatSqlValue connector end_

structure Run where
  /-- `reindex`, no start of the window in the task, or no timestamp column -/
  full : Bool
  pending : Option ℤ
  /-- The base queries that are still to be executed. -/
  queries : List ℕ

structure State where
  table : List Row
  cursor : Option ℤ
  run : Option Run
  maxima : List ℤ
  yielded : List Row

def getMaxCursorValue (table : List Row) : Option ℤ :=
  (table.filterMap (timestampOf connector)).max?

def load (run : Run) (cursor : Option ℤ) (rows : List Row) : List Row :=
  if run.full then rows
  else
    match run.pending with
    | none => []
    | some end_ =>
      match cursor with
      | some start => if end_ ≤ start then [] else rows.filter (inWindow connector cursor end_)
      | none => rows.filter (inWindow connector none end_)

inductive Move
  | write (row : Row)
  | delete (key : ℕ)
  /-- `prepare_sync_state`; `full` is what the task says. -/
  | prepare (full : Bool)
  | fetch
  | persist
  | abort

def Later (state : State) (row : Row) : Prop :=
  ∀ maximum ∈ state.maxima, ∀ timestamp ∈ timestampOf connector row, maximum < timestamp

instance decidableLater (state : State) (row : Row) : Decidable (Later connector state row) :=
  inferInstanceAs (Decidable (∀ maximum ∈ state.maxima,
    ∀ timestamp ∈ timestampOf connector row, maximum < timestamp))

def step (state : State) : Move → State
  | .write row =>
    if Later connector state row then { state with table := Table.upsert Row.key state.table row }
    else state
  | .delete key => { state with table := Table.delete Row.key key state.table }
  | .prepare full =>
    let pending := getMaxCursorValue connector state.table
    { state with
      run := some
        { full := full || connector.timestampColumn = none
          pending := pending
          queries := List.range connector.baseQueries }
      maxima := state.maxima ++ pending.toList }
  | .fetch =>
    match state.run with
    | some ⟨full, pending, query :: queries⟩ =>
      let rows := state.table.filter fun row => row.baseQuery = query
      { state with
        run := some ⟨full, pending, queries⟩
        yielded := state.yielded ++
          load connector ⟨full, pending, queries⟩ state.cursor rows }
    | _ => state
  | .persist =>
    match state.run with
    | some ⟨_, pending, []⟩ => { state with run := none, cursor := pending }
    | _ => state
  | .abort => { state with run := none }

/-- A connector that has not run yet, on an empty source. -/
def created : State where
  table := []
  cursor := none
  run := none
  maxima := []
  yielded := []

/-- The rows at or below the cursor were yielded, and the slim snapshot gives each row the id of its
document. -/
structure SyncsRight (state : State) : Prop where
  tiled : ∀ row ∈ state.table, row.baseQuery < connector.baseQueries →
    ∀ timestamp ∈ timestampOf connector row, ∀ cursor ∈ state.cursor,
      timestamp ≤ cursor → row ∈ state.yielded
  sameIds : ∀ row ∈ state.table, ∀ slim ∈ slimRow connector row.record,
    buildDocumentIdFromRow connector slim = buildDocumentIdFromRow connector row.record

def leftOut (end_ : ℤ) (row : Row) : Bool :=
  match timestampOf connector row with
  | none => false
  | some timestamp => formatSqlValue connector end_ < timestamp && timestamp ≤ end_

/-- A row that is written has a value in the id column, if there is one, or no content; when an
incremental run executes a query, the rows between the literal of the snapshot maximum and the
maximum were yielded before. -/
def WholeSeconds (state : State) : Move → Prop
  | .write row => connector.idColumn = none ∨ (idValue connector row.record).isSome ∨
      connector.md5 (buildContent connector row.record) = connector.md5 ""
  | .fetch => ∀ run ∈ state.run, run.full = false → ∀ query ∈ run.queries.head?,
      ∀ end_ ∈ run.pending, ∀ row ∈ state.table, row.baseQuery = query →
        leftOut connector end_ row = true → row ∈ state.yielded
  | _ => True

end Windows

end RagFlow.Sync.Rdbms

/-!
# Windows and ids of the relational source

A run covers the rows up to its snapshot maximum, apart from the last second on MySQL.
-/

namespace RagFlow.Sync.Rdbms

open Lib

variable {connector : Connector}

section Ids

variable {record slim : Record}

theorem get?_selectColumns {columns : List String}
    (selected : selectColumns columns record = some slim) (column : String) :
    slim.get? column = if column ∈ columns then record.get? column else none := by
  have general : ∀ (columns : List String) (start : Record),
      (∀ column value, start.get? column = some value → record.get? column = some value) →
      columns.foldlM (fun selected column =>
          (record.get? column).map fun value => selected.upsert column fun _ => value) start =
        some slim →
      slim.get? column = if column ∈ columns then record.get? column else start.get? column := by
    intro columns
    induction columns with
    | nil =>
      intro start _ folded
      obtain rfl := Option.some.inj folded
      simp
    | cons first columns ih =>
      intro start agrees folded
      rw [List.foldlM_cons] at folded
      obtain ⟨next, written, rest⟩ := Option.bind_eq_some_iff.mp folded
      obtain ⟨value, lookup, rfl⟩ := Option.map_eq_some_iff.mp written
      have nextAgrees : ∀ column stored,
          (start.upsert first fun _ => value).get? column = some stored →
          record.get? column = some stored := by
        intro column stored found
        rw [Dict.get?_upsert] at found
        split at found
        · rename_i same
          rw [same, lookup, found]
        · exact agrees column stored found
      rw [ih _ nextAgrees rest, Dict.get?_upsert]
      by_cases same : column = first
      · simp [same, lookup]
      · simp [same]
  have empty : ∀ column value, (Dict.empty : Record).get? column = some value →
      record.get? column = some value := by
    intro column value found
    cases found
  rw [general columns Dict.empty empty selected, Dict.get?_empty]

theorem buildContent_congr (configured : connector.contentColumns ≠ [])
    (same : ∀ column ∈ connector.contentColumns, slim.get? column = record.get? column) :
    buildContent connector slim = buildContent connector record := by
  unfold buildContent contentColumnsForRow
  simp only [if_pos configured]
  congr 1
  apply List.filterMap_congr
  intro column member
  unfold contentPart
  rw [same column member]

theorem buildContent_of_null
    (null : ∀ column, slim.get? column = some none ∨ slim.get? column = none) :
    buildContent connector slim = "" := by
  have noPart : ∀ column, contentPart connector slim column = none := by
    intro column
    unfold contentPart
    rcases null column with isNull | missing
    · rw [isNull]
    · rw [missing]
  unfold buildContent
  rw [List.filterMap_eq_nil_iff.mpr fun column _ => noPart column]
  decide

theorem slim_id_of_identified (snapshot : slimRow connector record = some slim)
    (identified : connector.idColumn = none ∨ (idValue connector record).isSome ∨
      connector.md5 (buildContent connector record) = connector.md5 "") :
    buildDocumentIdFromRow connector slim = buildDocumentIdFromRow connector record := by
  unfold slimRow at snapshot
  cases isId : connector.idColumn with
  | none =>
    simp only [isId] at snapshot
    by_cases configured : connector.contentColumns = []
    · rw [if_pos configured] at snapshot
      rw [Option.some.inj snapshot]
    · rw [if_neg configured] at snapshot
      have sameContent : buildContent connector slim = buildContent connector record := by
        apply buildContent_congr configured
        intro column member
        rw [get?_selectColumns snapshot, if_pos member]
      simp [buildDocumentIdFromRow, idValue, isId, sameContent]
  | some idColumn =>
    simp only [isId, List.cons_ne_nil, if_false] at snapshot
    have lookup := get?_selectColumns snapshot
    have sameValue : idValue connector slim = idValue connector record := by
      simp [idValue, isId, lookup]
    cases value : idValue connector record with
    | some present => simp [buildDocumentIdFromRow, sameValue, value]
    | none =>
      have sameHash : connector.md5 (buildContent connector record) = connector.md5 "" := by
        simpa [isId, value] using identified
      have noContent : buildContent connector slim = "" := by
        apply buildContent_of_null
        intro column
        by_cases same : column ∈ [idColumn]
        · rw [lookup, if_pos same, List.mem_singleton.mp same]
          cases found : record.get? idColumn with
          | none => exact .inr (by simp)
          | some stored =>
            have isNull : stored = none := by simpa [idValue, isId, found] using value
            exact .inl (by rw [isNull])
        · exact .inr (by rw [lookup, if_neg same])
      simp [buildDocumentIdFromRow, sameValue, value, noContent, sameHash]

end Ids

section Windows

variable {state : State}

/-- While a run is in progress: the base queries that were executed cover the rows up to the
snapshot maximum. -/
structure RunSound (connector : Connector) (state : State) (run : Run) : Prop where
  taken : ∀ end_ ∈ run.pending, end_ ∈ state.maxima
  covered : ∀ row ∈ state.table, row.baseQuery < connector.baseQueries →
    row.baseQuery ∉ run.queries → ∀ timestamp ∈ timestampOf connector row,
      ∀ end_ ∈ run.pending, timestamp ≤ end_ → row ∈ state.yielded

structure Sound (connector : Connector) (state : State) : Prop where
  taken : ∀ cursor ∈ state.cursor, cursor ∈ state.maxima
  right : SyncsRight connector state
  running : ∀ run ∈ state.run, RunSound connector state run

theorem formatSqlValue_le (connector : Connector) (microseconds : ℤ) :
    formatSqlValue connector microseconds ≤ microseconds := by
  unfold formatSqlValue
  cases connector.databaseType with
  | mysql =>
    have := Int.ediv_mul_le microseconds (b := 1000000) (by decide)
    simpa using this
  | postgresql => exact Int.le_refl _
  | mssql => exact Int.le_refl _

theorem mem_load {run : Run} {rows yielded : List Row} {row : Row} {timestamp end_ : ℤ}
    {cursor : Option ℤ} (member : row ∈ rows) (stamped : timestamp ∈ timestampOf connector row)
    (pending : end_ ∈ run.pending) (within : timestamp ≤ end_)
    (wholeSeconds : run.full = false → leftOut connector end_ row = true → row ∈ yielded)
    (earlier : ∀ start ∈ cursor, timestamp ≤ start → row ∈ yielded) :
    row ∈ yielded ∨ row ∈ load connector run cursor rows := by
  unfold load
  cases full : run.full with
  | true => exact .inr (by simpa [full] using member)
  | false =>
    have hasEnd : run.pending = some end_ := pending
    have hasStamp : timestampOf connector row = some timestamp := stamped
    simp only [hasEnd, Bool.false_eq_true, if_false]
    by_cases formatted : timestamp ≤ formatSqlValue connector end_
    · cases cursor with
      | none =>
        right
        simp [List.mem_filter, member, inWindow, hasStamp, above, formatted]
      | some start =>
        by_cases old : timestamp ≤ start
        · exact .inl (earlier start rfl old)
        · have nonempty : ¬end_ ≤ start := fun isEmpty => old (Int.le_trans within isEmpty)
          have later : formatSqlValue connector start < timestamp :=
            Int.lt_of_le_of_lt (formatSqlValue_le connector start) (Int.not_le.mp old)
          right
          simp [nonempty, List.mem_filter, member, inWindow, hasStamp, above, formatted, later]
    · left
      apply wholeSeconds full
      simp [leftOut, hasStamp, within, Int.not_le.mp formatted]

theorem getMaxCursorValue_mem {table : List Row} {maximum : ℤ}
    (taken : maximum ∈ getMaxCursorValue connector table) (maxima : List ℤ) :
    maximum ∈ maxima ++ (getMaxCursorValue connector table).toList := by
  have isMaximum : getMaxCursorValue connector table = some maximum := taken
  simp [isMaximum]

theorem sound_write (sound : Sound connector state) {row : Row}
    (later : Later connector state row)
    (identified : WholeSeconds connector state (.write row)) :
    Sound connector { state with table := Table.upsert Row.key state.table row } := by
  have uncovered : ∀ maximum ∈ state.maxima, ∀ timestamp ∈ timestampOf connector row,
      ¬timestamp ≤ maximum :=
    fun maximum taken timestamp stamped => Int.not_le.mpr (later maximum taken timestamp stamped)
  have members : ∀ other ∈ Table.upsert Row.key state.table row,
      other ∈ state.table ∨ other = row := by
    intro other stored
    rcases Table.mem_upsert.mp stored with kept | new
    · exact .inl kept.1
    · exact .inr new
  refine ⟨sound.taken, ⟨?_, ?_⟩, ?_⟩
  · intro other stored known timestamp stamped cursor saved within
    rcases members other stored with kept | rfl
    · exact sound.right.tiled other kept known timestamp stamped cursor saved within
    · exact absurd within (uncovered cursor (sound.taken cursor saved) timestamp stamped)
  · intro other stored slim snapshot
    rcases members other stored with kept | rfl
    · exact sound.right.sameIds other kept slim snapshot
    · exact slim_id_of_identified snapshot identified
  · intro run current
    have runSound := sound.running run current
    refine ⟨runSound.taken, ?_⟩
    intro other stored known executed timestamp stamped end_ pending within
    rcases members other stored with kept | rfl
    · exact runSound.covered other kept known executed timestamp stamped end_ pending within
    · exact absurd within (uncovered end_ (runSound.taken end_ pending) timestamp stamped)

theorem sound_fetch (sound : Sound connector state)
    (wholeSeconds : WholeSeconds connector state .fetch) :
    Sound connector (step connector state .fetch) := by
  cases current : state.run with
  | none => simpa only [step, current] using sound
  | some run =>
    obtain ⟨full, pending, queries⟩ := run
    cases queries with
    | nil => simpa only [step, current] using sound
    | cons query queries =>
      have runSound := sound.running _ current
      simp only [step, current]
      refine ⟨sound.taken, ⟨?_, sound.right.sameIds⟩, ?_⟩
      · intro row stored known timestamp stamped cursor saved within
        exact List.mem_append_left _
          (sound.right.tiled row stored known timestamp stamped cursor saved within)
      · intro next isNext
        obtain rfl := Option.some.inj isNext
        refine ⟨runSound.taken, ?_⟩
        intro row stored known executed timestamp stamped end_ isEnd within
        apply List.mem_append.mpr
        by_cases own : row.baseQuery = query
        · have member : row ∈ state.table.filter fun other => other.baseQuery = query :=
            List.mem_filter.mpr ⟨stored, decide_eq_true own⟩
          apply mem_load member stamped isEnd within
          · intro notFull isLeftOut
            exact wholeSeconds _ current notFull query rfl end_ isEnd row stored own isLeftOut
          · intro start saved old
            exact sound.right.tiled row stored known timestamp stamped start saved old
        · left
          apply runSound.covered row stored known ?_ timestamp stamped end_ isEnd within
          exact List.not_mem_cons_of_ne_of_not_mem own executed

theorem sound_step {move : Move} (wholeSeconds : WholeSeconds connector state move)
    (sound : Sound connector state) : Sound connector (step connector state move) := by
  cases move with
  | write row =>
    by_cases later : Later connector state row
    · simp only [step, if_pos later]
      exact sound_write sound later wholeSeconds
    · simpa only [step, if_neg later] using sound
  | delete key =>
    have kept : ∀ row ∈ Table.delete Row.key key state.table, row ∈ state.table :=
      fun row stored => List.mem_of_mem_filter stored
    refine ⟨sound.taken, ⟨?_, ?_⟩, ?_⟩
    · exact fun row stored => sound.right.tiled row (kept row stored)
    · exact fun row stored => sound.right.sameIds row (kept row stored)
    · intro run current
      have runSound := sound.running run current
      exact ⟨runSound.taken, fun row stored => runSound.covered row (kept row stored)⟩
  | prepare full =>
    refine ⟨?_, ⟨sound.right.tiled, sound.right.sameIds⟩, ?_⟩
    · exact fun cursor saved => List.mem_append_left _ (sound.taken cursor saved)
    · intro run current
      obtain rfl := Option.some.inj current
      refine ⟨?_, ?_⟩
      · exact fun end_ isEnd => getMaxCursorValue_mem isEnd state.maxima
      · intro row stored known unexecuted
        exact absurd (List.mem_range.mpr known) unexecuted
  | fetch => exact sound_fetch sound wholeSeconds
  | persist =>
    cases current : state.run with
    | none => simpa only [step, current] using sound
    | some run =>
      obtain ⟨full, pending, queries⟩ := run
      cases queries with
      | cons query queries => simpa only [step, current] using sound
      | nil =>
        have runSound := sound.running _ current
        simp only [step, current]
        refine ⟨runSound.taken, ⟨?_, sound.right.sameIds⟩, ?_⟩
        · intro row stored known timestamp stamped cursor saved within
          exact runSound.covered row stored known List.not_mem_nil timestamp stamped cursor
            saved within
        · intro run isRun
          cases isRun
  | abort =>
    refine ⟨sound.taken, ⟨sound.right.tiled, sound.right.sameIds⟩, ?_⟩
    intro run isRun
    cases isRun

end Windows

def orders : Connector where
  databaseType := .mysql
  idPrefix := "mysql:shop:"
  contentColumns := ["item"]
  idColumn := some "id"
  timestampColumn := some "updated"
  baseQueries := 1
  render value :=
    match value with
    | .datetime _ => "a time"
    | .other text => text
  md5 text := text

def order (id : String) (updated : ℤ) : Row where
  key := id.length
  baseQuery := 0
  record :=
    { items := [("id", some (.other id)), ("item", some (.other "tea")),
        ("updated", some (.datetime updated))]
      nodup := by simp }

def runMoves (full : Bool) : List Move := [.prepare full, .fetch, .persist]

instance decidableWholeSeconds (connector : Connector) (state : State) :
    (move : Move) → Decidable (WholeSeconds connector state move)
  | .write row => inferInstanceAs (Decidable (connector.idColumn = none ∨
      (idValue connector row.record).isSome ∨
      connector.md5 (buildContent connector row.record) = connector.md5 ""))
  | .fetch => inferInstanceAs (Decidable (∀ run ∈ state.run, run.full = false →
      ∀ query ∈ run.queries.head?, ∀ end_ ∈ run.pending, ∀ row ∈ state.table,
        row.baseQuery = query → leftOut connector end_ row = true → row ∈ state.yielded))
  | .delete _ => isTrue trivial
  | .prepare _ => isTrue trivial
  | .persist => isTrue trivial
  | .abort => isTrue trivial

end RagFlow.Sync.Rdbms
