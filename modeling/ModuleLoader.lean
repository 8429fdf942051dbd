import ModuleLoader.Specifier
import ModuleLoader.Version
import ModuleLoader.Address
import ModuleLoader.Options
import ModuleLoader.Dialect.Compiler
import ModuleLoader.SourceMap.Json
import ModuleLoader.Registry.Basic
import ModuleLoader.Registry.Evaluation
import ModuleLoader.SourceMap.Index
import ModuleLoader.Files.Basic
import ModuleLoader.Files.Tree
import ModuleLoader.Load.Basic
import ModuleLoader.Load.Overrides
import ModuleLoader.Loader.Basic
import ModuleLoader.Loader.Pending
import ModuleLoader.Loader.Access
import ModuleLoader.Loader.Graph
import ModuleLoader.Loader.Request
import ModuleLoader.Loader.Schedule
import ModuleLoader.CommandLine.Arguments
import ModuleLoader.CommandLine.Help
import ModuleLoader.CommandLine.Run
import ModuleLoader.Main
import ModuleLoader.Proofs.Loader.GatheringSteps
import ModuleLoader.Proofs.Loader.Growth
import ModuleLoader.Proofs.Loader.Holdings
import ModuleLoader.Proofs.Loader.LoadSteps
import ModuleLoader.Proofs.Loader.Releases
import ModuleLoader.Proofs.Loader.RequestHoldings
import ModuleLoader.Proofs.Loader.RequestSteps
import ModuleLoader.Proofs.Registry.Passes
import ModuleLoader.Proofs.Registry.Reachability
import ModuleLoader.Proofs.Session.Basic
import ModuleLoader.Proofs.Session.LeftBehind
import ModuleLoader.Proofs.Loader.Registration
import ModuleLoader.Proofs.Loader.Departures
import ModuleLoader.Proofs.Session.SharedLoads
import ModuleLoader.Proofs.Loader.PlannedGraphs
import ModuleLoader.Proofs.Loader.PlannedRequests
import ModuleLoader.Proofs.Loader.PlannedEvaluations
import ModuleLoader.Proofs.Loader.RestingSteps
import ModuleLoader.Proofs.Session.Reimport
import ModuleLoader.Proofs.Loader.Executions
import ModuleLoader.Proofs.Loader.SteadyLoaders
import ModuleLoader.Proofs.Session.SharedImports
import ModuleLoader.Proofs.Loader.ModuleGraphs
import ModuleLoader.Proofs.Loader.Effects
import ModuleLoader.Proofs.Session.Rejections
import ModuleLoader.Proofs.Loader.Deeds
import ModuleLoader.Proofs.Loader.Runs
import ModuleLoader.Proofs.Loader.Origins
import ModuleLoader.Proofs.Session.Histories
import ModuleLoader.Proofs.Session.Evaluations
import ModuleLoader.Proofs.Session.Repeats
import ModuleLoader.Proofs.Loader.Claims
import ModuleLoader.Proofs.Loader.ClosedGraphs
import ModuleLoader.Proofs.Loader.Definitions
import ModuleLoader.Proofs.Session.Redefinitions
import ModuleLoader.Proofs.Dialect.Transparency
import ModuleLoader.Proofs.Registry.Operations
import ModuleLoader.Proofs.Dialect.LineOrigins
import ModuleLoader.Proofs.Loader.SmoothSteps
import ModuleLoader.Proofs.Session.FirstDefinitions
import ModuleLoader.Proofs.Loader.Compilations
import ModuleLoader.Proofs.Loader.MappedSteps
import ModuleLoader.Proofs.Session.SourceMaps
import ModuleLoader.Proofs.Dialect.UnitNames
import ModuleLoader.Proofs.Loader.Requested
import ModuleLoader.Proofs.Loader.Twins
import ModuleLoader.Proofs.Registry.Detachment
import ModuleLoader.Proofs.Loader.Detachment
import ModuleLoader.Proofs.Session.Detachment
import ModuleLoader.Proofs.Dialect.Renumbering
import ModuleLoader.Proofs.Dialect.LocalNames
import ModuleLoader.Proofs.Loader.Confluence
import ModuleLoader.Proofs.Session.Confluence
import ModuleLoader.Proofs.Dialect.Tilings
import ModuleLoader.Proofs.Dialect.GrammarReading
import ModuleLoader.Proofs.PackageMap.Aliases
import ModuleLoader.Proofs.Specifiers.CanonicalNames
import ModuleLoader.Proofs.PackageMap.Chains
import ModuleLoader.Proofs.Dialect.StatementSpans
import ModuleLoader.Proofs.Registry.Outcomes
import ModuleLoader.Proofs.PackageMap.ComposedNames
import ModuleLoader.Proofs.Specifiers.BalancedPaths
import ModuleLoader.Proofs.Registry.Cycles
import ModuleLoader.Proofs.Registry.MissingNames
import ModuleLoader.Proofs.Dialect.Exports
import ModuleLoader.Proofs.Dialect.Updates
import ModuleLoader.Proofs.Registry.DetachedNames
import ModuleLoader.Proofs.Loader.LoneGraphs
import ModuleLoader.Proofs.Dialect.Assignments
import ModuleLoader.Proofs.SourceMap.UnmappedLines
import ModuleLoader.Proofs.SourceMap.Overflows
import ModuleLoader.Proofs.Dialect.Requests
import ModuleLoader.Proofs.Loader.BoundSteps
import ModuleLoader.Proofs.Session.BoundImports
import ModuleLoader.Proofs.Address.Directories
import ModuleLoader.Proofs.Json.Values
import ModuleLoader.Proofs.SourceMap.Documents
import ModuleLoader.Proofs.Text.Positions
import ModuleLoader.Proofs.Dialect.ErrorPlaces
