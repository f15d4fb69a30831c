/-
**Strata**: sorted maps of dynamically typed values over a partitioned store of versioned keys.

Values are encoded by codecs into bytes that sort as the values do.  A store keeps the versions of
every key in partitions and runs operators next to them.  A map writes batches to a store, and
views derived from it read it through ranges of keys, samples, filters, transforms and aggregates.

The definitions that run come first, from bytes to views, and the theory of each part after them, in
the same order.
-/

import Strata.Bytes
import Strata.Text.Table
import Strata.Text.Blank
import Strata.Text.Category
import Strata.Text.Script
import Strata.Text.CaseFold
import Strata.Text.Quoted
import Strata.Number.Hex
import Strata.Number.Binary
import Strata.Number.Decimal
import Strata.Number.Reader
import Strata.Sha256
import Strata.Pattern.Basic
import Strata.Pattern.Reader
import Strata.Pattern.Match
import Strata.Value.Basic
import Strata.Value.FieldOrder
import Strata.Value.Text
import Strata.Value.Hash
import Strata.Entry
import Strata.KeyRange
import Strata.Limits
import Strata.Summary
import Strata.Codec.Error
import Strata.MessagePack
import Strata.Codec.Packed
import Strata.Codec.FixedPoint
import Strata.Codec.LongWord
import Strata.Codec
import Strata.Toml.Node
import Strata.Toml.Lexeme
import Strata.Toml.Quoted
import Strata.Toml.Reader
import Strata.Settings
import Strata.Settings.File
import Strata.Operator.Basic
import Strata.Operator.Partial
import Strata.Operator.Aggregate
import Strata.Operator.PatternFilter
import Strata.Operator.Sampling
import Strata.Operator.Registry
import Strata.Store.Error
import Strata.Store.VersionChain
import Strata.Store.Partition
import Strata.Store.Scanner
import Strata.Store.Basic
import Strata.Store.Stream
import Strata.Map.Error
import Strata.Map.Container
import Strata.Map.Batch
import Strata.Map.Write
import Strata.View.Basic
import Strata.View.Derive
import Strata.View.Scan
import Strata.View.Read
import Strata.View.Aggregate
import Strata.View.Text
import Strata.Proofs.Bytes
import Strata.Proofs.Number.Exact
import Strata.Proofs.Number.Rounding
import Strata.Proofs.Number.Parts
import Strata.Proofs.Number.Arithmetic
import Strata.Proofs.Number.Division
import Strata.Proofs.Number.Equality
import Strata.Proofs.Number.Order
import Strata.Proofs.Number.Comparison
import Strata.Proofs.Number.RoundedForm
import Strata.Proofs.Number.DecimalDouble
import Strata.Proofs.Number.ReadText
import Strata.Proofs.Number.ReadInteger
import Strata.Proofs.Value.Equality
import Strata.Proofs.Value.Hash
import Strata.Proofs.Value.FieldOrder
import Strata.Proofs.KeyRange
import Strata.Proofs.KeyRange.Algebra
import Strata.Proofs.Summary.Exact
import Strata.Proofs.Summary.Extremes
import Strata.Proofs.MessagePack
import Strata.Proofs.Codec.Announced
import Strata.Proofs.Codec.ReadBack
import Strata.Proofs.Codec.RoundTrip
import Strata.Proofs.Codec.FieldOrder
import Strata.Proofs.Codec.FixedPoint
import Strata.Proofs.Codec.FixedPointOrder
import Strata.Proofs.Codec.FixedPointRoundTrip
import Strata.Proofs.Codec.FixedPointStable
import Strata.Proofs.Codec.Stable
import Strata.Proofs.Codec.TypedRange
import Strata.Proofs.Codec.LongWord
import Strata.Proofs.Toml.Quoted
import Strata.Proofs.Toml.Document
import Strata.Proofs.Settings.File
import Strata.Proofs.Operator.KeyLocal
import Strata.Proofs.Operator.Builtin
import Strata.Proofs.Operator.Gather
import Strata.Proofs.Operator.SideBySide
import Strata.Proofs.Operator.FieldOrder
import Strata.Proofs.Operator.HashPoint
import Strata.Proofs.Operator.HashPointAccuracy
import Strata.Proofs.Operator.SampleSplit
import Strata.Proofs.Store.Rows
import Strata.Proofs.Store.Contents
import Strata.Proofs.Store.Scan
import Strata.Proofs.Store.Narrow
import Strata.Proofs.Store.Newest
import Strata.Proofs.Store.VersionedMap
import Strata.Proofs.Store.PartitionScan
import Strata.Proofs.Store.PerSpan
import Strata.Proofs.Store.Layouts
import Strata.Proofs.Store.ScanOrder
import Strata.Proofs.Store.ScanStop
import Strata.Proofs.Store.LazyScan
import Strata.Proofs.Store.Installed
import Strata.Proofs.Map.Calls
import Strata.Proofs.Map.Reads
import Strata.Proofs.Map.Aggregates
import Strata.Proofs.Map.WrittenValues
import Strata.Proofs.Map.FiniteMap
import Strata.Proofs.Map.Refinement
import Strata.Proofs.Map.ImportChecksum
import Strata.Proofs.Map.Stepwise
import Strata.Proofs.Map.Session
import Strata.Proofs.Map.TypedRanges
import Strata.Proofs.View.Derived
import Strata.Proofs.View.PointReads
import Strata.Proofs.View.FieldOrder
import Strata.Proofs.View.Readable
import Strata.Proofs.View.WellTyped
import Strata.Proofs.View.StoredKeys
import Strata.Proofs.View.Wait
import Strata.Proofs.View.Fallback
import Strata.Proofs.View.AggregateReads
import Strata.Proofs.View.Compiled
import Strata.Proofs.View.Partials
import Strata.Proofs.View.AggregateScan
import Strata.Proofs.View.Sampled
import Strata.Proofs.View.Capability
import Strata.Proofs.View.Stats
import Strata.Proofs.View.RowSummaries
import Strata.Proofs.View.Disjoint
import Strata.Proofs.View.Dump
import Strata.Proofs.View.BuildChecks
