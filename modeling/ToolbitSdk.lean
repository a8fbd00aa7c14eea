import ToolbitSdk.Lib.Lts
import ToolbitSdk.Lib.Mealy
import ToolbitSdk.Lib.Bytes
import ToolbitSdk.Lib.Bits
import ToolbitSdk.Lib.Memory
import ToolbitSdk.Lib.Windows
import ToolbitSdk.Lib.CondVar
import ToolbitSdk.Lib.Brackets
import ToolbitSdk.Lib.DropQueue
import ToolbitSdk.Attribute
import ToolbitSdk.Packet
import ToolbitSdk.Service
import ToolbitSdk.Flow
import ToolbitSdk.Pairing
import ToolbitSdk.Causality
import ToolbitSdk.Delivery
import ToolbitSdk.Shutdown
import ToolbitSdk.Queue
import ToolbitSdk.Peer
import ToolbitSdk.Clients
import ToolbitSdk.StoredValue
import ToolbitSdk.Transaction
import ToolbitSdk.Turns
import ToolbitSdk.RoundTrip
import ToolbitSdk.Storage
import ToolbitSdk.Wire
import ToolbitSdk.Identity
import ToolbitSdk.Gpio
import ToolbitSdk.HalfModes
import ToolbitSdk.PinRange
import ToolbitSdk.SharedPort
import ToolbitSdk.I2c
import ToolbitSdk.Chopper
import ToolbitSdk.Meter
import ToolbitSdk.TriggerMode
import ToolbitSdk.Decoding
import ToolbitSdk.Measuring
import ToolbitSdk.Buffers
import ToolbitSdk.Sessions
import ToolbitSdk.Readings
import ToolbitSdk.Polling
import ToolbitSdk.DeviceManager
import ToolbitSdk.Descriptor
import ToolbitSdk.ReportWriter
import ToolbitSdk.Uevent
import ToolbitSdk.Enumerate
import ToolbitSdk.MacReports
import ToolbitSdk.WinReports
import ToolbitSdk.Instrument
import ToolbitSdk.MacBarrier
import ToolbitSdk.MacThread
import ToolbitSdk.TbitBoard
