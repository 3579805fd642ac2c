import WebBundler.Text.Word
import WebBundler.Text.Utf8
import WebBundler.Json.Parser
import WebBundler.Merge.Bundles
import WebBundler.Config.Validation
import WebBundler.Config.Discovery
import WebBundler.Ignore.Glob
import WebBundler.Build.Error
import WebBundler.Ignore.Classification
import WebBundler.Script.Reference
import WebBundler.Wrapping
import WebBundler.Compiler
import WebBundler.Output.Destination
import WebBundler.Output.Modules
import WebBundler.Expansion
import WebBundler.Walk.Basic
import WebBundler.Build.Full
import WebBundler.Build.Inline
import WebBundler.Build.Smart
import WebBundler.Duration
import WebBundler.CommandLine.Invocation
import WebBundler.CommandLine.Error
import WebBundler.CommandLine.Run
import WebBundler.Main
import WebBundler.Proofs.Merge.Loading
import WebBundler.Proofs.Expansion.Serial
import WebBundler.Proofs.Path.Location
import WebBundler.Proofs.FileTree.Listing
import WebBundler.Proofs.Build.Reproducible
import WebBundler.Proofs.Build.Rules
import WebBundler.Proofs.Build.Inline
import WebBundler.Proofs.Build.Destination
import WebBundler.Proofs.Compiler.Relinking
import WebBundler.Proofs.Build.Retention
import WebBundler.Proofs.Json.RoundTrip
import WebBundler.Proofs.Compiler.Unwrapping
import WebBundler.Proofs.Build.ThirdParty
import WebBundler.Proofs.Output.Bundled
import WebBundler.Proofs.Build.Application
import WebBundler.Proofs.Walk.Survey
import WebBundler.Proofs.Build.Agreement
import WebBundler.Proofs.Graph.Places
import WebBundler.Proofs.Merge.Promotion
import WebBundler.Proofs.Path.Rereading
import WebBundler.Proofs.Merge.Apart
import WebBundler.Proofs.Walk.Abort
import WebBundler.Proofs.Output.Failures
import WebBundler.Proofs.Output.Rendering
import WebBundler.Proofs.Output.Confinement
import WebBundler.Proofs.Compiler.Splicing
import WebBundler.Proofs.Build.OwnSource
import WebBundler.Proofs.Ignore.Metadata
import WebBundler.Proofs.CommandLine.OneFile
import WebBundler.Proofs.Script.Occurrences
import WebBundler.Proofs.Resolution.Inquiry
import WebBundler.Proofs.Resolution.Idempotence
import WebBundler.Proofs.Path.Stack
import WebBundler.Proofs.CommandLine.Layers
import WebBundler.Proofs.Ignore.RuleFile
import WebBundler.Proofs.Graph.Simulation
import WebBundler.Proofs.Path.Segments
