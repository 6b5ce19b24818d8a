import Aqualung.Lib.Machine
import Aqualung.Lib.Component
import Aqualung.Lib.Register
import Aqualung.Lib.Table
import Aqualung.Lib.Roster
import Aqualung.Lib.Framing
import Aqualung.Lib.Text
import Aqualung.Wire.Json
import Aqualung.Wire.Message
import Aqualung.Wire.Frame
import Aqualung.Wire.Codec
import Aqualung.Wire.Print
import Aqualung.Hub.Loads
import Aqualung.Hub.Pending
import Aqualung.Hub.State
import Aqualung.Hub.Phones
import Aqualung.Hub.Loop
import Aqualung.Hub.Parts
import Aqualung.Hub.Step
import Aqualung.Hub.Run
import Aqualung.Hub.History
import Aqualung.Hub.Links
import Aqualung.Hub.Candidate
import Aqualung.Hub.Sessions
import Aqualung.Hub.Requests
import Aqualung.Hub.Owners
import Aqualung.Hub.Handshake
import Aqualung.Hub.Replacement
import Aqualung.Hub.Away
import Aqualung.Hub.Stranded
import Aqualung.Hub.Reverse
import Aqualung.Hub.AskingLink
import Aqualung.Hub.Isolation
import Aqualung.Hub.Admission
import Aqualung.Hub.Fanout
import Aqualung.Hub.Closing
import Aqualung.Hub.Accounts
import Aqualung.Hub.Bringup
import Aqualung.Net.HomeConnection
import Aqualung.Net.Forwarding
import Aqualung.Net.Bearer
import Aqualung.Net.HomeTask
import Aqualung.Net.PhoneTask
import Aqualung.Net.Serve
import Aqualung.Net.LinkRegister
import Aqualung.Net.PhoneRegister
import Aqualung.Net.Shutdown
import Aqualung.Net.Delivery
import Aqualung.Net.Progress
import Aqualung.Net.Ledger
import Aqualung.Net.Access
import Aqualung.Net.Tunnel
import Aqualung.Net.EndToEnd
import Aqualung.Net.Pem
import Aqualung.Net.Identity
import Aqualung.Snorkel.Copy
import Aqualung.Snorkel.Session
import Aqualung.Snorkel.Relay
import Aqualung.Snorkel.Link
import Aqualung.Snorkel.Endpoint
