import Fly2040.System.Clients
import Fly2040.System.Persist
import Fly2040.System.Sending
import Fly2040.System.Power
import Fly2040.App.Turns
import Fly2040.Leds.Snapshots
import Fly2040.System.Backup
import Fly2040.System.Speed
import Fly2040.Firmware.Retry
import Fly2040.Firmware.Prepare
import Fly2040.App.CfgJson
import Fly2040.Firmware.Burns
import Fly2040.Firmware.Accesses
import Fly2040.Firmware.Glitch
import Fly2040.Firmware.Random
import Fly2040.Firmware.Shuffle
import Fly2040.Firmware.Hunt
import Fly2040.Firmware.Best
import Fly2040.Firmware.Covers
import Fly2040.App.Scale
import Fly2040.Firmware.Card
import Fly2040.App.ByteQueue
import Fly2040.Firmware.BootDetect
import Fly2040.App.HexText
import Fly2040.App.Readings
import Fly2040.App.Threads
import Fly2040.App.CfgKeys
import Fly2040.Firmware.Transfers
import Fly2040.Firmware.Replies
import Fly2040.Firmware.Sniffer
import Fly2040.Firmware.Checksums
import Fly2040.System.Descriptor
import Fly2040.Leds.Colours
import Fly2040.Firmware.Damage
import Fly2040.Leds.Strip
import Fly2040.Leds.Bus
import Fly2040.System.Adapter
import Fly2040.System.Attempts
import Fly2040.Firmware.Trigger
import Fly2040.Firmware.Attempt
import Fly2040.Firmware.Blink
import Fly2040.Firmware.BootCodes
import Fly2040.Firmware.Answers
import Fly2040.System.Restart
import Fly2040.System.Install
