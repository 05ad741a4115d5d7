import RCControl.StepSystem
import RCControl.Resumption
import RCControl.BoundedStore
import RCControl.Sampler
import RCControl.ThrottleInput
import RCControl.SimpleBle
import RCControl.ScanCallbacks
import RCControl.BleSender
import RCControl.Selection
import RCControl.Enumeration
import RCControl.Threads
import RCControl.Moves
import RCControl.HotasInputs
import RCControl.Display
import RCControl.SendLoop
import RCControl.CaughtUp
import RCControl.Shutdown
import RCControl.Undisturbed
import RCControl.NearInteger
import RCControl.ThrottleRange
import RCControl.FadeHandshake
import RCControl.FadeCycle
import RCControl.SavedIndices
import RCControl.Disconnects
import RCControl.StringCustody
import RCControl.BusInterface
import RCControl.ObjectPath
import RCControl.PathForest
import RCControl.ProxyTree
import RCControl.BusMirror
import RCControl.AdapterScan
import RCControl.ScanReports
import RCControl.SingleScan
import RCControl.ScanDelivery
import RCControl.PeripheralConnect
import RCControl.ConnectionReports
import RCControl.PropertyCache
import RCControl.GattTable
import RCControl.NameClashes
import RCControl.OrderedForest
import RCControl.GattObjects
import RCControl.TreeContents
import RCControl.MessageFormat
import RCControl.MessageRoundTrip
import RCControl.BluezRequests
import RCControl.MessageReader
import RCControl.ReceivedSignals
