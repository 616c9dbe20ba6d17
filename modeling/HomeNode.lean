import HomeNode.Lib.Bank
import HomeNode.Lib.Branch
import HomeNode.Lib.CString
import HomeNode.Lib.Decimal
import HomeNode.Lib.Fifo
import HomeNode.Lib.FileTree
import HomeNode.Lib.FlatJson
import HomeNode.Lib.Output
import HomeNode.Lib.Ticks
import HomeNode.Lib.Trace
import HomeNode.Lib.Transition
import HomeNode.Command
import HomeNode.Ota.Task
import HomeNode.Ota.Provenance
import HomeNode.Ota.Resources
import HomeNode.Ota.Phases
import HomeNode.Ota.Download
import HomeNode.Ota.Commit
import HomeNode.Ota.Service
import HomeNode.Ota.Gate
import HomeNode.Ota.Refinement
import HomeNode.Ota.Manifest
import HomeNode.Ota.Version
import HomeNode.Ota.Decision
import HomeNode.Ota.ReadLoops
import HomeNode.Ota.Fragments
import HomeNode.Ota.Delivery
import HomeNode.Ota.Balance
import HomeNode.Ota.Paths
import HomeNode.Ota.Reboot
import HomeNode.Ota.Device
import HomeNode.Ota.Fixpoint
import HomeNode.Ota.Interval
import HomeNode.Ota.Served
import HomeNode.Startup
import HomeNode.Http.Server
import HomeNode.Http.History
import HomeNode.Http.Tokens
import HomeNode.Http.Jobs
import HomeNode.Http.Invariant
import HomeNode.Http.Streaming
import HomeNode.Http.Runs
import HomeNode.Http.Progress
import HomeNode.Http.Traffic
import HomeNode.Http.Completion
import HomeNode.Http.Commands
import HomeNode.Http.Slots
import HomeNode.Http.Pools
import HomeNode.Http.LogStream
import HomeNode.Http.Fidelity
import HomeNode.Http.DelegateQueue
import HomeNode.Http.UriTable
import HomeNode.Http.Dispatch
import HomeNode.Http.Routing
import HomeNode.Http.Handles
import HomeNode.UserRequest
import HomeNode.UpdateRequests
import HomeNode.SdCard.Logger
import HomeNode.Flash.Artifact
import HomeNode.Flash.Flashing
import HomeNode.Flash.RoundTrip
import HomeNode.Flash.Download
import HomeNode.Gui.Worker
import HomeNode.Gui.HomeScreen
import HomeNode.Gui.Pipeline
import HomeNode.Release.Build
import HomeNode.Release.Files
import HomeNode.Release.Pages
import HomeNode.Release.Deploy
import HomeNode.Release.Latest
import HomeNode.Release.Device
import HomeNode.Release.Fleet
