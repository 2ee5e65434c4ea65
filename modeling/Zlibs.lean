import Zlibs.Drivers.UartHw
import Zlibs.EmuEeprom.Append
import Zlibs.EmuEeprom.Availability
import Zlibs.EmuEeprom.Convergence
import Zlibs.EmuEeprom.Erasing
import Zlibs.EmuEeprom.Internal
import Zlibs.EmuEeprom.Journal
import Zlibs.EmuEeprom.Mirror
import Zlibs.EmuEeprom.PowerLoss
import Zlibs.EmuEeprom.Snapshot
import Zlibs.EmuEeprom.StatusScan
import Zlibs.EmuEeprom.Transfer
import Zlibs.EmuEeprom.View
import Zlibs.Filters.Debounce
import Zlibs.Filters.Elapsed
import Zlibs.Filters.Settling
import Zlibs.Lessdb.AddressSafety
import Zlibs.Lessdb.Contents
import Zlibs.Lessdb.Frame
import Zlibs.Lessdb.Initialisation
import Zlibs.Lessdb.Isolation
import Zlibs.Lessdb.Parameters
import Zlibs.Lib.BoundedQueue
import Zlibs.Lib.Chunks
import Zlibs.Lib.FaultProgram
import Zlibs.Lib.Gregorian
import Zlibs.Lib.Insertion
import Zlibs.Lib.Machine
import Zlibs.Lib.Sending
import Zlibs.Lib.StateProgram
import Zlibs.Midi.Base
import Zlibs.Midi.Ble
import Zlibs.Midi.BleFormat
import Zlibs.Midi.BleRoundTrip
import Zlibs.Midi.Packetisation
import Zlibs.Midi.RealTime
import Zlibs.Midi.Relay
import Zlibs.Midi.Synchronisation
import Zlibs.Midi.Transparency
import Zlibs.Misc.Clock
import Zlibs.Misc.Numeric
import Zlibs.Misc.RingBuffer
import Zlibs.Misc.RingBufferThreads
import Zlibs.MotorControl.Control
import Zlibs.MotorControl.Driving
import Zlibs.MotorControl.Motor
import Zlibs.MotorControl.PulseCount
import Zlibs.MotorControl.RunTime
import Zlibs.MotorControl.Stranding
import Zlibs.Settings.Atomicity
import Zlibs.Settings.Durability
import Zlibs.Settings.Validity
import Zlibs.Signaling.Agreement
import Zlibs.Signaling.Dispatcher
import Zlibs.Signaling.Drain
import Zlibs.Signaling.ExactlyOnce
import Zlibs.Signaling.Observable
import Zlibs.Signaling.Order
import Zlibs.Signaling.Shutdown
import Zlibs.StateMachine.Lifecycle
import Zlibs.SysExConf.Readings
import Zlibs.SysExConf.BackupRoundTrip
import Zlibs.SysExConf.BackupSingle
import Zlibs.SysExConf.ErrorEcho
import Zlibs.SysExConf.GetAll
import Zlibs.SysExConf.Interleaving
import Zlibs.SysExConf.Replies
import Zlibs.SysExConf.Streams
import Zlibs.Midi.Midi1
import Zlibs.SysExConf.Responses
