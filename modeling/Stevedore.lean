import Stevedore.Batch
import Stevedore.Cache
import Stevedore.Command
import Stevedore.CommandLine
import Stevedore.Container
import Stevedore.Decimal.Binary64
import Stevedore.Decimal.Literal
import Stevedore.Disk.Basic
import Stevedore.Disk.Change
import Stevedore.Docker.Arguments
import Stevedore.Docker.BuildOutput
import Stevedore.Docker.ClientRun
import Stevedore.Docker.Conversation
import Stevedore.Docker.Inspected
import Stevedore.Docker.Talk
import Stevedore.Engine.Calls
import Stevedore.Engine.Objects
import Stevedore.Event
import Stevedore.Execution
import Stevedore.Feed
import Stevedore.Files.Change
import Stevedore.Files.Injected
import Stevedore.Files.Tree
import Stevedore.Graph.Basic
import Stevedore.Graph.Resolve
import Stevedore.Graph.Teardown
import Stevedore.Invocation
import Stevedore.Json.Reader
import Stevedore.Json.Record
import Stevedore.Json.Value
import Stevedore.LogFilter
import Stevedore.LogValue
import Stevedore.Machine
import Stevedore.Main
import Stevedore.Naming
import Stevedore.NextSteps
import Stevedore.Options
import Stevedore.Path
import Stevedore.Prerequisites.Order
import Stevedore.Prerequisites.Wildcard
import Stevedore.Program
import Stevedore.Project.Check
import Stevedore.Project.Document
import Stevedore.Project.Location
import Stevedore.Project.Names
import Stevedore.Project.Settings
import Stevedore.Proofs.Account
import Stevedore.Proofs.Alike
import Stevedore.Proofs.AnyOrder
import Stevedore.Proofs.AskedContainers
import Stevedore.Proofs.Conduct
import Stevedore.Proofs.Consistency
import Stevedore.Proofs.Contract
import Stevedore.Proofs.CreateArguments
import Stevedore.Proofs.Dependents
import Stevedore.Proofs.FailureMessages
import Stevedore.Proofs.FileTrees
import Stevedore.Proofs.Gating
import Stevedore.Proofs.History
import Stevedore.Proofs.HostChanges
import Stevedore.Proofs.HostPaths
import Stevedore.Proofs.Interleaving
import Stevedore.Proofs.Interruption
import Stevedore.Proofs.Lawful
import Stevedore.Proofs.Layers
import Stevedore.Proofs.LeftBehind
import Stevedore.Proofs.LegalNames
import Stevedore.Proofs.Levels
import Stevedore.Proofs.Lifecycle
import Stevedore.Proofs.ManualCommands
import Stevedore.Proofs.Milestone
import Stevedore.Proofs.Moment
import Stevedore.Proofs.Obstacles
import Stevedore.Proofs.Once
import Stevedore.Proofs.Outline
import Stevedore.Proofs.Outstanding
import Stevedore.Proofs.Parallelism
import Stevedore.Proofs.PastedCommands
import Stevedore.Proofs.Paths
import Stevedore.Proofs.Planning
import Stevedore.Proofs.Prerequisites
import Stevedore.Proofs.Progress
import Stevedore.Proofs.ProjectsApart
import Stevedore.Proofs.ProperNames
import Stevedore.Proofs.ProxyPassing
import Stevedore.Proofs.Removal
import Stevedore.Proofs.Resolvable
import Stevedore.Proofs.Resolved
import Stevedore.Proofs.RunNames
import Stevedore.Proofs.RunStage
import Stevedore.Proofs.Scene
import Stevedore.Proofs.SceneRun
import Stevedore.Proofs.Schedule
import Stevedore.Proofs.SessionPlan
import Stevedore.Proofs.SessionRun
import Stevedore.Proofs.SetupCommands
import Stevedore.Proofs.SharedCaches
import Stevedore.Proofs.Splitting
import Stevedore.Proofs.Summary
import Stevedore.Proofs.TaskCircles
import Stevedore.Proofs.Teardown
import Stevedore.Proofs.TemporaryFiles
import Stevedore.Proofs.Verdict
import Stevedore.Proofs.WholeRun
import Stevedore.Proofs.Wildcards
import Stevedore.Proxy
import Stevedore.Rehearsal.Canned
import Stevedore.Rehearsal.Playback
import Stevedore.Rehearsal.Script
import Stevedore.Rehearsal.StandIn
import Stevedore.Report
import Stevedore.Resolution
import Stevedore.Session.Outline
import Stevedore.Session.Plan
import Stevedore.Session.Run
import Stevedore.SortedMap
import Stevedore.SortedSet
import Stevedore.Step
import Stevedore.Summary
import Stevedore.Surroundings
import Stevedore.TeardownPlan
import Stevedore.Text.Blank
import Stevedore.Text.Bytes
import Stevedore.Text.Digit
import Stevedore.Text.Letter
import Stevedore.Text.Pattern
import Stevedore.Text.Pieces
import Stevedore.Text.Quoted
import Stevedore.Text.Ranges
import Stevedore.Text.Unseen
import Stevedore.Text.Utf8
import Stevedore.Toml.DateTime
import Stevedore.Toml.Fit
import Stevedore.Toml.Reader
import Stevedore.Toml.Scalar
import Stevedore.Toml.Value
import Stevedore.User
import Stevedore.Work.CacheOwner
import Stevedore.Work.Creation
import Stevedore.Work.Perform
import Stevedore.Work.Readiness
import Stevedore.Work.Run
import Stevedore.Work.Worker
import Stevedore.Proofs.BuildLines
import Stevedore.Proofs.UserFiles
import Stevedore.Proofs.WordLoops
