import ScenePrune.Collector
import ScenePrune.CommandLine.Arguments
import ScenePrune.CommandLine.FileTree
import ScenePrune.CommandLine.Program
import ScenePrune.Config
import ScenePrune.Format.Animation
import ScenePrune.Format.Binding
import ScenePrune.Format.Report
import ScenePrune.Format.Scene
import ScenePrune.Json.Printer
import ScenePrune.Json.Reader
import ScenePrune.Main
import ScenePrune.Plugin.Bundled
import ScenePrune.Proofs.Graph.Exactness
import ScenePrune.Proofs.Run.Cancellation
import ScenePrune.Proofs.Run.Idempotence
import ScenePrune.Proofs.Run.Monotonicity
import ScenePrune.Proofs.Run.Permutation
import ScenePrune.Proofs.Run.Refinement
import ScenePrune.Proofs.Run.Repeats
import ScenePrune.Proofs.Run.Support
import ScenePrune.Proofs.Scene.History
import ScenePrune.Proofs.Scene.Load
import ScenePrune.Scene.Listing
import ScenePrune.Proofs.Graph.Accounting
import ScenePrune.Proofs.Graph.Explanation
import ScenePrune.Proofs.Plugin.References
import ScenePrune.Proofs.Run.References
import ScenePrune.Proofs.Decimal.Numeral
import ScenePrune.Proofs.Decimal.Shortest
import ScenePrune.Proofs.Json.Scanner
import ScenePrune.Proofs.Json.RoundTrip
import ScenePrune.Proofs.Scene.Record
import ScenePrune.Proofs.Scene.Reload
import ScenePrune.Proofs.Distance
import ScenePrune.Proofs.Graph.Activeness
import ScenePrune.Proofs.Graph.Distance
import ScenePrune.Proofs.Plugin.Resolution
import ScenePrune.Proofs.Run.Entrypoints
import ScenePrune.Proofs.Scene.Walks
import ScenePrune.Proofs.Attempts
import ScenePrune.Proofs.Run.Activity
import ScenePrune.Proofs.Scene.Failure
import ScenePrune.Proofs.Plugin.Validation
import ScenePrune.Proofs.Run.Bindings
import ScenePrune.Proofs.Records
import ScenePrune.Proofs.Plugin.Standing
import ScenePrune.Proofs.Run.Standing
import ScenePrune.Proofs.Scene.Limits
import ScenePrune.Proofs.Words
import ScenePrune.Proofs.Options
