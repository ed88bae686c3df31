import SecureHome.Csprng.EntropyTask
import SecureHome.Lib.Pool
import SecureHome.Lib.RelyGuarantee
import SecureHome.FreeRTOS.Timer
import SecureHome.Keypad.Steps
import SecureHome.Keypad.Mask
import SecureHome.Keypad.Deinit
import SecureHome.File.Basic
import SecureHome.Lib.Overlay
import SecureHome.File.Littlefs
import SecureHome.File.Locked
import SecureHome.File.Linearizable
import SecureHome.File.Durable
import SecureHome.FreeRTOS.Notification
import SecureHome.Hal.Uart
import SecureHome.Switch
import SecureHome.Gsm.Basic
import SecureHome.Gsm.Driver
import SecureHome.Gsm.Steps
import SecureHome.Gsm.Statements
import SecureHome.Gsm.SwitchEvents
import SecureHome.Gsm.Fresh
import SecureHome.Gsm.Released
import SecureHome.Lib.Inevitable
import SecureHome.Gsm.Reply
import SecureHome.Gsm.Complete
import SecureHome.Gsm.HalfTransfer
import SecureHome.Gsm.Mutex
import SecureHome.Gsm.Correlated
import SecureHome.Lib.Trace
import SecureHome.Switch.Nvic
import SecureHome.Lcd.Driver
import SecureHome.Lcd.Steps
import SecureHome.Lcd.Screen
import SecureHome.Lcd.Init
import SecureHome.Lcd.Shown
import SecureHome.Gsm.Frames
import SecureHome.Lib.Grouped
import SecureHome.Gsm.Transmissions
import SecureHome.Gsm.Serialized
import SecureHome.Gsm.Decoded
import SecureHome.Boot.Basic
import SecureHome.Boot.Rules
import SecureHome.Boot.Opened
import SecureHome.Boot.Statements
import SecureHome.Boot.CounterFile
import SecureHome.Boot.CounterCalls
import SecureHome.Boot.Counter
import SecureHome.Boot.Jitter
import SecureHome.Boot.Seed
import SecureHome.Boot.Storage
import SecureHome.Boot.Alone
import SecureHome.Boot.Refines
import SecureHome.Lib.Teardown
import SecureHome.Csprng.EntropyMixture
import SecureHome.Syscalls.Tick
import SecureHome.Gsm.Received
import SecureHome.Gsm.Parsed
import SecureHome.Keypad.Scan
import SecureHome.Lib.Logged
import SecureHome.Keypad.Events
import SecureHome.File.Statements
import SecureHome.File.Deinit
import SecureHome.Drivers.Deinit
import SecureHome.Csprng.Ownership
import SecureHome.Hal.Flash
import SecureHome.File.LfsConfig
import SecureHome.Gsm.Probing
import SecureHome.Gsm.Alive
import SecureHome.Gsm.Deinit
import SecureHome.Gsm.Protected
import SecureHome.Lib.Always
import SecureHome.Gsm.Sizes
import SecureHome.Gsm.Views
import SecureHome.Lib.Interleaved
import SecureHome.Ascon.Permutation
import SecureHome.Ascon.Bijective
import SecureHome.Lib.ArmV7M
import SecureHome.Ascon.Armv7m
import SecureHome.Ascon.Bytes
import SecureHome.Lib.Backend
import SecureHome.Ascon.Snp
import SecureHome.Ascon.Sliced32
import SecureHome.Ascon.Backends
import SecureHome.Ascon.Xof
import SecureHome.Lib.Sponge
import SecureHome.Ascon.Reference
import SecureHome.Ascon.Prng
import SecureHome.Littlefs.Alloc
import SecureHome.Littlefs.Ctz
import SecureHome.Littlefs.Bd
import SecureHome.Littlefs.SkipList
import SecureHome.Littlefs.File
import SecureHome.Littlefs.Represents
import SecureHome.Littlefs.Writes
import SecureHome.Littlefs.Reads
import SecureHome.Littlefs.Flush
import SecureHome.Littlefs.Refines
import SecureHome.Littlefs.Calls
import SecureHome.Littlefs.Runs
