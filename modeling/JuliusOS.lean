import JuliusOS.Apps.CalculatorChains
import JuliusOS.Apps.Clipboard
import JuliusOS.Apps.Countdown
import JuliusOS.Apps.EditorFile
import JuliusOS.Apps.FileManager
import JuliusOS.Apps.FileTransfer
import JuliusOS.Apps.FirewallRules
import JuliusOS.Apps.MagicPacket
import JuliusOS.Apps.NetworkMap
import JuliusOS.Apps.RowsShown
import JuliusOS.Apps.Selection
import JuliusOS.Apps.Stored
import JuliusOS.Apps.TextEditor
import JuliusOS.Audit.Daemon
import JuliusOS.Audit.Hash
import JuliusOS.Boot.OneInstance
import JuliusOS.Bridge.Framing
import JuliusOS.Bridge.Messages
import JuliusOS.Bridge.Reconnect
import JuliusOS.Cloud.Closed
import JuliusOS.Cloud.Kept
import JuliusOS.Core.OtaSignal
import JuliusOS.Drivers.Fpc1020
import JuliusOS.Drivers.JuliusDisplay
import JuliusOS.Drivers.St7796Frames
import JuliusOS.Drop.RoundTrip
import JuliusOS.Enclave.RoundTrip
import JuliusOS.Foundations.CString
import JuliusOS.Foundations.PackedTable
import JuliusOS.Foundations.StructLayout
import JuliusOS.Foundations.Utf8
import JuliusOS.Health.Monitor
import JuliusOS.Ipc.Descriptors
import JuliusOS.Keychain.Restart
import JuliusOS.Keychain.Status
import JuliusOS.Launcher.BrokenApps
import JuliusOS.Launcher.Taps
import JuliusOS.ListBuffers
import JuliusOS.Mm.SortByMem
import JuliusOS.Net.Connections
import JuliusOS.Net.Dns
import JuliusOS.Ota.Admin
import JuliusOS.Ota.Apply
import JuliusOS.Ota.Client
import JuliusOS.Ota.Counter
import JuliusOS.Permissions.Map
import JuliusOS.Power.Policy
import JuliusOS.ProcessManager.Budget
import JuliusOS.ProcessManager.Shutdown
import JuliusOS.ProcessManager.StrayKill
import JuliusOS.Push.Ids
import JuliusOS.Push.NotifFile
import JuliusOS.Push.TwoWriters
import JuliusOS.Security.Fingerprint
import JuliusOS.StoredNames
import JuliusOS.Sync.Manifest
import JuliusOS.Sync.Trigger
import JuliusOS.Ui.Bubbles
import JuliusOS.Ui.Escape
import JuliusOS.Ui.HomeTaps
import JuliusOS.Ui.Lock
import JuliusOS.Ui.NotificationPanel
import JuliusOS.Ui.Screens
import JuliusOS.Ui.SpotlightSelection
import JuliusOS.Ui.SwitcherCards
import JuliusOS.UntrustedLengths
import JuliusOS.Wifi.Daemon
import JuliusOS.Wifi.SavedNetwork
import JuliusOS.Wifi.Scan
import JuliusOS.Wifi.StateFile
import JuliusOS.Wifi.WpaConfig
