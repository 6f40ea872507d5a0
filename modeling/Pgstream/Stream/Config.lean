/-
# Pgstream.Stream.Config — which stream configurations are accepted

A stream runs one listener and processors fed by it. `Config.IsValid` accepts a configuration
that has at least one listener (Postgres, Kafka or snapshot) and at least one of the four
processors that write somewhere (Kafka, search, webhook, Postgres). The injector and the
transformer wrap another processor, so they do not count: `isValid_iff` states the rule, and a
configuration whose only processors are those two is rejected with the processor message.
The configurations are modelled by which of their sections are set (`!= nil`), the only thing
`IsValid` reads.

The search processor batches its writes by the three parameters of `search.IndexerConfig`. Each
accessor returns the configured value when it is positive and its default otherwise (100 events,
one second, 100 MiB), one definition of the family, `positiveOr`, applied to each field and default;
`indexerConfig_positive` says every parameter the indexer runs with is positive.
-/
import Pgstream.Go.Bytes

namespace Pgstream.Stream

open Pgstream.Go

/-- `ListenerConfig`, by which listeners are set. -/
structure ListenerConfig where
  postgres : Bool
  kafka : Bool
  snapshot : Bool
deriving DecidableEq

/-- `ProcessorConfig`, by which processors are set. -/
structure ProcessorConfig where
  kafka : Bool
  search : Bool
  webhook : Bool
  postgres : Bool
  injector : Bool
  transformer : Bool
deriving DecidableEq

/-- `Config`. -/
structure Config where
  listener : ListenerConfig
  processor : ProcessorConfig
deriving DecidableEq

/-- `Config.IsValid()`: `none` for a nil error. -/
def Config.isValid (c : Config) : Option Bytes :=
  if !c.listener.kafka && !c.listener.postgres && !c.listener.snapshot then
    some (str "need at least one listener configured")
  else if !c.processor.kafka && !c.processor.search && !c.processor.webhook &&
      !c.processor.postgres then
    some (str "need at least one processor configured")
  else none

/-- **A configuration is valid exactly when it sets a listener and a processor that writes.** The
injector and the transformer play no part. -/
theorem isValid_iff (c : Config) :
    c.isValid = none ↔
      (c.listener.postgres ∨ c.listener.kafka ∨ c.listener.snapshot) ∧
      (c.processor.kafka ∨ c.processor.search ∨ c.processor.webhook ∨ c.processor.postgres) := by
  obtain ⟨⟨lp, lk, ls⟩, ⟨pk, ps, pw, pp, -, -⟩⟩ := c
  simp only [Config.isValid]
  -- the listener check, then the processor check
  split_ifs with hl hp <;> simp_all
  -- both checks passed: a listener and a writing processor are set
  constructor <;> by_contra h <;> simp_all

/-- A Postgres listener feeding only an injector and a transformer is rejected, with the
processor message. -/
example :
    Config.isValid ⟨⟨true, false, false⟩, ⟨false, false, false, false, true, true⟩⟩ =
      some (str "need at least one processor configured") := rfl

/-! ## The search indexer's batching parameters -/

/-- `search.IndexerConfig`, by the fields its accessors read: `BatchSize`, `BatchTime` (a
`time.Duration`, in nanoseconds) and `MaxQueueBytes`. -/
structure IndexerConfig where
  batchSize : Int
  batchTime : Int
  maxQueueBytes : Int
deriving DecidableEq

/-- `defaultMaxQueueBytes`, 100 MiB. -/
def defaultMaxQueueBytes : Int := 100 * 1024 * 1024

/-- `defaultBatchSize`. -/
def defaultBatchSize : Int := 100

/-- `defaultBatchTime`, `time.Second` in nanoseconds. -/
def defaultBatchTime : Int := 1000000000

/-- The body every accessor shares: the configured value when it is positive, else the
default. -/
def positiveOr (value default : Int) : Int := if value > 0 then value else default

/-- `IndexerConfig.batchSize()`. -/
def batchSize (c : IndexerConfig) : Int := positiveOr c.batchSize defaultBatchSize

/-- `IndexerConfig.batchTime()`. -/
def batchTime (c : IndexerConfig) : Int := positiveOr c.batchTime defaultBatchTime

/-- `IndexerConfig.maxQueueBytes()`. -/
def maxQueueBytes (c : IndexerConfig) : Int := positiveOr c.maxQueueBytes defaultMaxQueueBytes

/-- A positive default makes the accessor positive, and a positive value is kept. -/
theorem positiveOr_spec (value default : Int) (hd : 0 < default) :
    0 < positiveOr value default ∧ (0 < value → positiveOr value default = value) := by
  unfold positiveOr
  split_ifs with h
  · exact ⟨h, fun _ => rfl⟩
  · exact ⟨hd, fun h' => absurd h' h⟩

/-- **Every batching parameter the indexer runs with is positive**, whatever the configuration
holds, and a positive configured value is the one it runs with. -/
theorem indexerConfig_positive (c : IndexerConfig) :
    (0 < batchSize c ∧ (0 < c.batchSize → batchSize c = c.batchSize)) ∧
    (0 < batchTime c ∧ (0 < c.batchTime → batchTime c = c.batchTime)) ∧
    (0 < maxQueueBytes c ∧ (0 < c.maxQueueBytes → maxQueueBytes c = c.maxQueueBytes)) :=
  ⟨positiveOr_spec _ _ (by decide), positiveOr_spec _ _ (by decide),
    positiveOr_spec _ _ (by decide)⟩

/-- The zero configuration runs with the defaults. -/
example : (batchSize ⟨0, 0, 0⟩, batchTime ⟨0, 0, 0⟩, maxQueueBytes ⟨0, 0, 0⟩) =
    (100, 1000000000, 104857600) := rfl

end Pgstream.Stream
