import AutomateLinux.TransitionSystem
import AutomateLinux.OrderedMap
import AutomateLinux.DescriptorTable
import AutomateLinux.LineFraming
import AutomateLinux.StandardLibrary
import AutomateLinux.StopSearch
import AutomateLinux.ThrowingSort
import AutomateLinux.FieldAccess
import AutomateLinux.KeyboardReplay
import AutomateLinux.RateWindow
import AutomateLinux.JsonValue
import AutomateLinux.TerminalTable
import AutomateLinux.Terminal
import AutomateLinux.TerminalInvariant
import AutomateLinux.CommandRegistry
import AutomateLinux.MainCommand
import AutomateLinux.Process
import AutomateLinux.PeerManager
import AutomateLinux.LeaderLink
import AutomateLinux.PeerTable
import AutomateLinux.DaemonServer
import AutomateLinux.DaemonServerSteps
import AutomateLinux.DaemonServerDescriptors
import AutomateLinux.DaemonServerRoles
import AutomateLinux.PersistentConnections
import AutomateLinux.PeerPresence
import AutomateLinux.PeerListing
import AutomateLinux.LineExceptions
import AutomateLinux.LeaderStream
import AutomateLinux.LeaderStreamMatching
import AutomateLinux.LeaderConnections
import AutomateLinux.MacroTable
import AutomateLinux.RegroupedList
import AutomateLinux.SuppressionRegistry
import AutomateLinux.InputMapper
import AutomateLinux.GKeySequence
import AutomateLinux.InputMapperTurns
import AutomateLinux.InputMapperEscape
import AutomateLinux.SimulateInput
import AutomateLinux.InputMapperSuppression
import AutomateLinux.ProvenanceLog
import AutomateLinux.InputMapperContextSwitch
import AutomateLinux.HoldQueue
import AutomateLinux.InputMapperTransparency
import AutomateLinux.InputMapperReplayOrder
import AutomateLinux.RestartingRecogniser
import AutomateLinux.SequenceMatcher
import AutomateLinux.InputMapperMatching
import AutomateLinux.InputMapperSoundness
import AutomateLinux.InputMapperCompleteness
import AutomateLinux.InputMapperProgress
import AutomateLinux.InputMapperGrabbing
import AutomateLinux.MacroExport
import AutomateLinux.MacroImport
import AutomateLinux.InputMapperHeldKeys
import AutomateLinux.TerminalStore
import AutomateLinux.TerminalIsolation
import AutomateLinux.TerminalPointers
import AutomateLinux.TerminalPruning
import AutomateLinux.TerminalPruneOldest
import AutomateLinux.TerminalPruneFaults
import AutomateLinux.TerminalPrompts
import AutomateLinux.TerminalLastTouched
import AutomateLinux.TerminalNavigation
import AutomateLinux.DaemonServerFraming
import AutomateLinux.ExecOnPeer
import AutomateLinux.ManagerReplies
import AutomateLinux.NumberText
import AutomateLinux.ClientSender
import AutomateLinux.ClientArguments
import AutomateLinux.HandlerFields
import AutomateLinux.RequiredFields
import AutomateLinux.CollatedTable
import AutomateLinux.ExtraApps
import AutomateLinux.ExtraAppRequests
import AutomateLinux.ExtraAppPorts
import AutomateLinux.ExtraAppFailures
import AutomateLinux.TextOperations
import AutomateLinux.AppCommands
import AutomateLinux.AppPortKeys
import AutomateLinux.NativeHost
import AutomateLinux.Utf8
import AutomateLinux.ResponseReaders
import AutomateLinux.GitExtension
import AutomateLinux.ExecStreamMatching
import AutomateLinux.ServiceAgreement
import AutomateLinux.DirectoryScanOrders
import AutomateLinux.ExtraAppRemoval
import AutomateLinux.ExtraAppReservedPorts
import AutomateLinux.PortSettings
import AutomateLinux.AppShutdown
import AutomateLinux.NativeHostMessages
import AutomateLinux.GitExtensionSlots
import AutomateLinux.DiffAnnotation
import AutomateLinux.IgnoreRules
import AutomateLinux.TermControl
import AutomateLinux.CleanBetween
import AutomateLinux.TerminalCapture
import AutomateLinux.LineEditing
import AutomateLinux.WireGuardPeers
import AutomateLinux.WireGuardRegistration
import AutomateLinux.VpnAddresses
import AutomateLinux.ChromeTabs
import AutomateLinux.InputMapperNesting
import AutomateLinux.SimulateInputEvents
import AutomateLinux.SendKeys
import AutomateLinux.FocusAck
import AutomateLinux.LogMask
import AutomateLinux.McpTools
import AutomateLinux.PeriodicSends
import AutomateLinux.Heartbeats
import AutomateLinux.UnitFiles
import AutomateLinux.AppInstallation
import AutomateLinux.UnitFileRuns
import AutomateLinux.PortCluster
import AutomateLinux.PortClusterNumbers
import AutomateLinux.ExecTimeout
import AutomateLinux.FileSize
import AutomateLinux.FileSizeScan
import AutomateLinux.WindowExtension
import AutomateLinux.WindowExtensionMatching
import AutomateLinux.LengthFraming
import AutomateLinux.NativeHostCommands
import AutomateLinux.AppPortRelease
import AutomateLinux.Deployment
