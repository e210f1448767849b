import BuildPlan.Main
import BuildPlan.Text.Utf8.RoundTrip
import BuildPlan.Text.Utf8.Exact
import BuildPlan.Proofs.Resolve.Flattening
import BuildPlan.Proofs.Resolve.Failure
import BuildPlan.Proofs.Resolve.TopLevel
import BuildPlan.Proofs.Resolve.Transparency
import BuildPlan.Proofs.Driver
import BuildPlan.Proofs.Waves
import BuildPlan.Proofs.Session.Uniform
import BuildPlan.Proofs.Session.Restoration
import BuildPlan.Proofs.Session.Inclusion
import BuildPlan.Proofs.Declarative.Item
import BuildPlan.Proofs.Table
import BuildPlan.Proofs.Declarative.Evaluation
import BuildPlan.Proofs.Script.Room
import BuildPlan.Proofs.Declarative.Reading
import BuildPlan.Proofs.Declarative.Flattening
import BuildPlan.Proofs.Declarative.Registration
import BuildPlan.Proofs.Resolve.Incremental
import BuildPlan.Proofs.Resolve.Locality
import BuildPlan.Proofs.Registry
import BuildPlan.Proofs.Resolve.Schedule
import BuildPlan.Proofs.Resolve.Reordering
import BuildPlan.Proofs.Session.Growth
import BuildPlan.Proofs.Script.Literal
import BuildPlan.Proofs.Session.Ledger
import BuildPlan.Proofs.Session.Provenance
import BuildPlan.Proofs.Declarative.Fitting
import BuildPlan.Proofs.Declarative.Visit
import BuildPlan.Proofs.Declarative.Reinclusion
import BuildPlan.Proofs.Dependents
import BuildPlan.Proofs.Redeclaration
import BuildPlan.Proofs.Session.Declaring
import BuildPlan.Proofs.CommandLine.Agreement
import BuildPlan.Proofs.CanonicalText
import BuildPlan.Proofs.Unrequired
import BuildPlan.Proofs.Resolve.Once
import BuildPlan.Proofs.Resolve.Lockstep
import BuildPlan.Proofs.Json.Faithful
