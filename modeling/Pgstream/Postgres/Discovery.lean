/-
# Pgstream.Postgres.Discovery — the catalog queries behind a wildcard

`DiscoverAllSchemas` and `DiscoverAllSchemaTables` run one catalog query and read one name out
of each row. They share one body, which differs only in the query and in the two messages that
wrap a failure: `discoverNames` below, of which each function is an instance with its own query
and messages as the source writes them. (The snapshot table finder holds a third copy,
`Pgstream.Snapshot.TableFinder.SnapshotTableFinder.discoverAllSchemaTables`.)

A query's outcome is its `Rows`: the error `conn.Query` returns, or the rows, each of which
`rows.Scan` reads into a name or fails on, and what `rows.Err()` reports after the last one. The
row loop `scanLoop` is run to its end by induction: it returns every name in row order when every
scan succeeds (`scanLoop_eq_ok`), and the first failed scan otherwise (`scanLoop_of_error`). From
it, `discoverNames_eq_ok`: a discovery returns a list of names exactly when the query, every scan
and `rows.Err()` succeed, and the names are the rows'.

`registerTypesToConnMap` runs one more catalog query when a connection is set up, for the OID of
`hstore`; it registers the codec when the lookup finds one and returns a nil error in every case,
a failed lookup included (`registerTypesToConnMap_spec`).
-/
import Pgstream.Go.Bytes

namespace Pgstream.Postgres

open Pgstream.Go

/-- What `conn.Query(ctx, query, args...)` gives a discovery loop: the error it returns, or the
rows, each scanned into a name or failing, then the error `rows.Err()` reports, if any. -/
inductive Rows
  | queryFailed (err : Bytes)
  | rows (scans : List (Except Bytes Bytes)) (err : Option Bytes)

/-- A `Querier`, by what its `Query` returns for a query and its arguments. -/
def Querier := Bytes → List Bytes → Rows

/-- The message of `fmt.Errorf(msg + ": %w", err)`. -/
def wrapError (msg err : Bytes) : Bytes := msg ++ str ": " ++ err

/-- The `for rows.Next()` loop over `names`: each row scanned and appended, until a scan fails
and the loop returns `fmt.Errorf(scanMsg + ": %w", err)`. -/
def scanLoop (scanMsg : Bytes) (names : List Bytes) :
    List (Except Bytes Bytes) → Except Bytes (List Bytes)
  | [] => .ok names
  | .error err :: _ => .error (wrapError scanMsg err)
  | .ok name :: scans => scanLoop scanMsg (names ++ [name]) scans

/-- The body of `DiscoverAllSchemas` and `DiscoverAllSchemaTables`, with the message wrapping a
failed query and the one wrapping a failed scan. -/
def discoverNames (queryMsg scanMsg : Bytes) : Rows → Except Bytes (List Bytes)
  | .queryFailed err => .error (wrapError queryMsg err)
  | .rows scans rowsErr =>
    match scanLoop scanMsg [] scans with
    | .error err => .error err
    | .ok names =>
      match rowsErr with
      | some err => .error err
      | none => .ok names

/-- `DiscoverAllSchemasQuery`. -/
def discoverAllSchemasQuery : Bytes :=
  str ("SELECT nspname FROM pg_catalog.pg_namespace WHERE nspname NOT IN " ++
    "('pg_catalog', 'information_schema', 'pg_toast', 'pgstream')")

/-- `DiscoverAllSchemas(ctx, conn)`. -/
def discoverAllSchemas (conn : Querier) : Except Bytes (List Bytes) :=
  discoverNames (str "discovering all schemas for wildcard") (str "scanning schema name")
    (conn discoverAllSchemasQuery [])

/-- `DiscoverAllSchemaTablesQuery`. -/
def discoverAllSchemaTablesQuery : Bytes :=
  str "SELECT tablename FROM pg_tables WHERE schemaname=$1"

/-- `DiscoverAllSchemaTables(ctx, conn, schema)`. -/
def discoverAllSchemaTables (conn : Querier) (schema : Bytes) : Except Bytes (List Bytes) :=
  discoverNames (str "discovering all tables for schema " ++ schema) (str "scanning table name")
    (conn discoverAllSchemaTablesQuery [schema])

/-! ## The row loop -/

/-- **The row loop succeeds on rows that all scan.** It then returns the names read before,
followed by every row's name in row order. -/
theorem scanLoop_eq_ok {scanMsg : Bytes} {names result : List Bytes}
    {scans : List (Except Bytes Bytes)} :
    scanLoop scanMsg names scans = .ok result ↔
      ∃ read, scans = read.map .ok ∧ result = names ++ read := by
  induction scans generalizing names with
  | nil => simp [scanLoop, eq_comm]
  | cons r scans ih =>
    cases r with
    | error err =>
      refine ⟨fun h => (by cases h), ?_⟩
      rintro ⟨_ | _, h, -⟩ <;> cases h
    | ok name =>
      rw [scanLoop, ih]
      constructor
      · rintro ⟨read, rfl, rfl⟩
        exact ⟨name :: read, rfl, by simp⟩
      · rintro ⟨_ | ⟨name', read⟩, h, rfl⟩
        · cases h
        · simp only [List.map_cons, List.cons.injEq, Except.ok.injEq] at h
          obtain ⟨rfl, rfl⟩ := h
          exact ⟨read, rfl, by simp⟩

/-- **The row loop stops at the first failed scan**, with that scan's error wrapped. -/
theorem scanLoop_of_error (scanMsg : Bytes) (names read : List Bytes) (err : Bytes)
    (rest : List (Except Bytes Bytes)) :
    scanLoop scanMsg names (read.map .ok ++ .error err :: rest) =
      .error (wrapError scanMsg err) := by
  induction read generalizing names with
  | nil => rfl
  | cons name read ih => exact ih _

/-- **A discovery succeeds exactly on rows that all scan.** It returns `names` exactly when the
query succeeds, its rows scan to `names` in order, and `rows.Err()` is nil. -/
theorem discoverNames_eq_ok {queryMsg scanMsg : Bytes} {r : Rows} {names : List Bytes} :
    discoverNames queryMsg scanMsg r = .ok names ↔ r = .rows (names.map .ok) none := by
  cases r with
  | queryFailed err => simp [discoverNames]
  | rows scans rowsErr =>
    simp only [discoverNames, Rows.rows.injEq]
    cases h : scanLoop scanMsg [] scans with
    | error err =>
      refine ⟨fun h' => (by cases h'), ?_⟩
      rintro ⟨rfl, -⟩
      simp [scanLoop_eq_ok.2 ⟨names, rfl, rfl⟩] at h
    | ok read =>
      obtain ⟨read, rfl, rfl⟩ := scanLoop_eq_ok.1 h
      have hinj : read.map Except.ok = names.map (Except.ok (ε := Bytes)) ↔ read = names :=
        (List.map_injective_iff.2 fun _ _ => Except.ok.inj).eq_iff
      cases rowsErr <;> simp [hinj]

/-- `DiscoverAllSchemas` returns `names` exactly when its query's rows scan to them. -/
theorem discoverAllSchemas_eq_ok {conn : Querier} {names : List Bytes} :
    discoverAllSchemas conn = .ok names ↔
      conn discoverAllSchemasQuery [] = .rows (names.map .ok) none :=
  discoverNames_eq_ok

/-- `DiscoverAllSchemaTables` returns `names` exactly when its query's rows scan to them. -/
theorem discoverAllSchemaTables_eq_ok {conn : Querier} {schema : Bytes} {names : List Bytes} :
    discoverAllSchemaTables conn schema = .ok names ↔
      conn discoverAllSchemaTablesQuery [schema] = .rows (names.map .ok) none :=
  discoverNames_eq_ok

/-! ## `registerTypesToConnMap` -/

/-- The query `registerTypesToConnMap` looks the `hstore` type up with. -/
def hstoreOIDQuery : Bytes := str "SELECT oid FROM pg_type WHERE typname = 'hstore'"

/-- `registerTypesToConnMap(ctx, conn)`, from what `conn.QueryRow(ctx, query).Scan(&hstoreOID)`
gives: the OID it registers the `hstore` codec under, if any, and the error it returns. -/
def registerTypesToConnMap (queryRow : Bytes → Except Bytes UInt32) : Option UInt32 × Option Bytes :=
  match queryRow hstoreOIDQuery with
  | .ok hstoreOID => if hstoreOID ≠ 0 then (some hstoreOID, none) else (none, none)
  | .error _ => (none, none)

/-- **The lookup never fails the set-up.** The function returns a nil error whatever its query
gives, and registers `hstore` exactly when the lookup succeeds with a nonzero OID. -/
theorem registerTypesToConnMap_spec (queryRow : Bytes → Except Bytes UInt32) :
    (registerTypesToConnMap queryRow).2 = none ∧
    ∀ oid, (registerTypesToConnMap queryRow).1 = some oid ↔
      queryRow hstoreOIDQuery = .ok oid ∧ oid ≠ 0 := by
  unfold registerTypesToConnMap
  cases queryRow hstoreOIDQuery with
  | error err => simp
  | ok hstoreOID =>
    by_cases h : hstoreOID = 0
    · subst h; simp
    · simp only [if_pos h, Option.some.injEq, Except.ok.injEq, true_and]
      exact fun oid => ⟨fun e => ⟨e, e ▸ h⟩, fun e => e.1⟩

end Pgstream.Postgres
