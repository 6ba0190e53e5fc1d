import KaySentinel.Bridge.Blocks
import KaySentinel.Bridge.Fixture
import KaySentinel.Bridge.Metadata
import KaySentinel.Bridge.Output
import KaySentinel.Bridge.Refusal
import KaySentinel.Bridge.Rollback
import KaySentinel.Builder.Lifecycle.Acceptance
import KaySentinel.Builder.Lifecycle.CanonicalForm
import KaySentinel.Builder.Lifecycle.Lifetimes
import KaySentinel.Builder.Projection
import KaySentinel.Builder.StoragePass
import KaySentinel.Conformance.Attribution
import KaySentinel.Conformance.Numbering
import KaySentinel.Conformance.Reversion
import KaySentinel.Harness.Archive
import KaySentinel.Multiplexer.Strict
import KaySentinel.Pipeline.Agnostic
import KaySentinel.Pipeline.Blocks
import KaySentinel.Pipeline.Certification
import KaySentinel.Pipeline.Domains
import KaySentinel.Pipeline.Transient
import KaySentinel.Ssz.Binding
import KaySentinel.Ssz.Decode
import KaySentinel.Ssz.Differential
import KaySentinel.Ssz.Folds
import KaySentinel.Tracer.ErrorLog
import KaySentinel.Tracer.Position
import KaySentinel.Validation.Diagnosis
import KaySentinel.Validation.Grammar
import KaySentinel.Verify.Completeness
import KaySentinel.Verify.Report
import KaySentinel.Verify.Shards
import KaySentinel.Verify.Tampering
