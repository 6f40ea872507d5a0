/-
# Pgstream.Webhook.Subscription — which subscriptions an event goes to

A webhook `Subscription` names a URL and narrows the events it wants by event type, schema and
table; an empty list of event types, or an empty schema or table, leaves that dimension open.
`Subscription.IsFor(action, schema, table)` decides whether an event with those attributes (any
of which may be empty, for an unknown attribute) is for the subscription, by three early
returns, one per dimension, after an early `return true` for an event with no attributes.
`key_splitOn` reads `Subscription.Key()` back: for fields with no `/`, splitting the key at `/`
gives the URL, the schema and the table.
-/
import Pgstream.Go.Bytes

namespace Pgstream.Webhook

open Pgstream.Go

/-- `Subscription`. -/
structure Subscription where
  url : Bytes
  eventTypes : List Bytes
  schema : Bytes
  table : Bytes
deriving DecidableEq

/-- `Subscription.IsFor(action, schema, table)`. -/
def Subscription.isFor (s : Subscription) (action schema table : Bytes) : Bool :=
  if action = [] ∧ schema = [] ∧ table = [] then true
  else if action ≠ [] ∧ s.eventTypes.length > 0 ∧ action ∉ s.eventTypes then false
  else if schema ≠ [] ∧ s.schema ≠ [] ∧ s.schema ≠ schema then false
  else if table ≠ [] ∧ s.table ≠ [] ∧ s.table ≠ table then false
  else true

/-- A subscription to inserts and updates on schema `s`, any table. -/
example : (fun s : Subscription =>
    s.isFor (str "I") (str "s") (str "any") && s.isFor (str "U") (str "s") (str "other") &&
      !s.isFor (str "D") (str "s") (str "x") && !s.isFor (str "I") (str "other") (str "x"))
    ⟨str "hooks.local:8080", [str "I", str "U"], str "s", []⟩ = true := by decide

/-- `Subscription.Key()`: `fmt.Sprintf("%s/%s/%s", s.URL, s.Schema, s.Table)`. -/
def Subscription.key (s : Subscription) : Bytes :=
  s.url ++ 0x2F :: s.schema ++ 0x2F :: s.table

/-- **The key reads back.** For a subscription whose URL, schema and table hold no `/`,
splitting its key at `/` gives the three fields. -/
theorem key_splitOn (s : Subscription) (hu : 0x2F ∉ s.url) (hs : 0x2F ∉ s.schema)
    (ht : 0x2F ∉ s.table) :
    s.key.splitOn 0x2F = [s.url, s.schema, s.table] := by
  have := List.splitOn_intercalate [s.url, s.schema, s.table] 0x2F (by simp [hu, hs, ht]) (by simp)
  simpa [Subscription.key, List.intercalate] using this

end Pgstream.Webhook
