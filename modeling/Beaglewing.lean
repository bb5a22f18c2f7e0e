import Beaglewing.Bridge.Coalesce
import Beaglewing.Bridge.Host
import Beaglewing.Bridge.Exit
import Beaglewing.Clipframe.Loss
import Beaglewing.Agents.Delivery
import Beaglewing.Agents.Once
import Beaglewing.Agents.Schedule
import Beaglewing.Agents.Session
import Beaglewing.Agents.Converge
import Beaglewing.Input.Newest
import Beaglewing.Input.Activations
import Beaglewing.Input.Order
import Beaglewing.Relay.Replace
import Beaglewing.Relay.Align
import Beaglewing.Files.Batch
import Beaglewing.Agents.Cap
import Beaglewing.Files.Stage
import Beaglewing.Agents.Offers
import Beaglewing.Agents.Isolation
import Beaglewing.Agents.Failure
import Beaglewing.Agents.Echo
import Beaglewing.Agents.Helper
import Beaglewing.Agents.Device
import Beaglewing.Agents.Heartbeat
import Beaglewing.Agents.Pulls
import Beaglewing.Input.Pixels
import Beaglewing.Input.Hotkey
import Beaglewing.Input.Scroll
import Beaglewing.Input.RemoteSize
import Beaglewing.Clipframe.Codec
import Beaglewing.Clipframe.Bounds
import Beaglewing.Files.Signature
import Beaglewing.Agents.LineEnds
import Beaglewing.Agents.Published
import Beaglewing.Agents.Hdrop
import Beaglewing.Heal.Limit
import Beaglewing.Input.Pointer
import Beaglewing.Gadget.Lifecycle
import Beaglewing.Relay.Forward
import Beaglewing.Relay.Return
import Beaglewing.Agents.Crossing
import Beaglewing.Heal.Learn
import Beaglewing.Input.Clock
import Beaglewing.Input.Watchdog
import Beaglewing.Input.Capture
import Beaglewing.Input.SendTest
