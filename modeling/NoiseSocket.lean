import NoiseSocket.Lib.Result
import NoiseSocket.Lib.Loop
import NoiseSocket.Lib.Words
import NoiseSocket.Lib.Signed
import NoiseSocket.Lib.Settle
import NoiseSocket.Lib.Memory
import NoiseSocket.Lib.Socket
import NoiseSocket.Nginx
import NoiseSocket.NoiseC
import NoiseSocket.NoiseC.Pattern
import NoiseSocket.Handler.State
import NoiseSocket.Handler.Environment
import NoiseSocket.Handler.Length
import NoiseSocket.Handler.Message
import NoiseSocket.NoiseProtocol.Init
import NoiseSocket.Handler.Handshake
import NoiseSocket.Handler.Frame
import NoiseSocket.Handler.Length.Cases
import NoiseSocket.Handler.Message.Cases
import NoiseSocket.Handler.Message.Readers
import NoiseSocket.Handler.Message.Part
import NoiseSocket.Handler.Message.Gate
import NoiseSocket.Handler.Handshake.Cases
import NoiseSocket.Handler.Handshake.Phases
import NoiseSocket.Handler.Handshake.Sends
import NoiseSocket.Handler.Handshake.Written
import NoiseSocket.Handler.Timers
import NoiseSocket.Handler.Timers.Suspend
import NoiseSocket.Handler.Timers.Run
import NoiseSocket.Handler.Timers.Disarmed
import NoiseSocket.Handler.Spin
import NoiseSocket.Handler.Termination
import NoiseSocket.NoiseProtocol.Frame
import NoiseSocket.Handler.Termination.Start
import NoiseSocket.Handler.Termination.Call
import NoiseSocket.Handler.Outcome
import NoiseSocket.NoiseProtocol.Keys
import NoiseSocket.NoiseProtocol.Keys.Installed
import NoiseSocket.NoiseProtocol.Keys.Loaded
import NoiseSocket.NoiseProtocol.Keys.Passed
import NoiseSocket.Lib.Base64
import NoiseSocket.NoiseProtocol.Keys.Encoded
import NoiseSocket.NoiseProtocol.Keys.Blanks
import NoiseSocket.Session
import NoiseSocket.Session.Protect
import NoiseSocket.Handler.Data
import NoiseSocket.Handler.Data.Stream
import NoiseSocket.Handler.Data.Recv
import NoiseSocket.Handler.Data.Calls
import NoiseSocket.Handler.Data.Write
import NoiseSocket.Handler.Data.Outcome
import NoiseSocket.Handler.Data.RoundTrip
import NoiseSocket.Handler.Data.Resume
import NoiseSocket.Handler.Data.Inner
import NoiseSocket.Handler.Data.Ends
import NoiseSocket.Handler.Data.FailStop
import NoiseSocket.Handler.Data.Accounts
import NoiseSocket.Handler.Data.Confined
import NoiseSocket.Lib.Fifo
import NoiseSocket.Handler.Data.Duplex
import NoiseSocket.Handler.Data.Duplex.Run
import NoiseSocket.Handler.RecvChain
import NoiseSocket.Handler.RecvChain.Run
import NoiseSocket.Lib.Smooth
import NoiseSocket.Lib.Spread
import NoiseSocket.Lib.Gaps
import NoiseSocket.Lib.Text
import NoiseSocket.Upstream.RoundRobin
import NoiseSocket.Upstream.Fairness
import NoiseSocket.Upstream.Fairness.Run
import NoiseSocket.Upstream.Tried
import NoiseSocket.Upstream.Selection
import NoiseSocket.Upstream.Loop
import NoiseSocket.Upstream.Pick
import NoiseSocket.Upstream.Alike
import NoiseSocket.Upstream.Operations
import NoiseSocket.Upstream.Operations.Weights
import NoiseSocket.Upstream.Operations.Probes
import NoiseSocket.Upstream.Operations.Waiting
import NoiseSocket.Upstream.Operations.Waiting.Run
import NoiseSocket.Upstream.Table
import NoiseSocket.Upstream.Table.Keys
import NoiseSocket.Upstream.Table.Sound
import NoiseSocket.Handler.Outcome.Client
import NoiseSocket.Proxy
import NoiseSocket.Proxy.Account
import NoiseSocket.Proxy.Account.Calls
import NoiseSocket.Proxy.Shared
import NoiseSocket.Proxy.Tries
import NoiseSocket.Proxy.Tries.Run
import NoiseSocket.Proxy.Resolved
import NoiseSocket.Proxy.Resolved.Own
import NoiseSocket.Proxy.Resolved.Run
import NoiseSocket.Proxy.States
import NoiseSocket.Proxy.States.Run
import NoiseSocket.Proxy.States.Text
import NoiseSocket.Proxy.Protected
import NoiseSocket.Proxy.Protected.Run
import NoiseSocket.Variables
import NoiseSocket.Variables.Prefix
import NoiseSocket.Variables.Index
import NoiseSocket.Script
import NoiseSocket.Script.Template
import NoiseSocket.Script.Compile
import NoiseSocket.Script.Engine
import NoiseSocket.Script.Run
import NoiseSocket.Script.Value
import NoiseSocket.Lib.Blocks
import NoiseSocket.Phases
import NoiseSocket.Phases.Table
import NoiseSocket.Phases.Order
import NoiseSocket.Phases.Visits
import NoiseSocket.Phases.Prereading
import NoiseSocket.Phases.Prereading.Seen
import NoiseSocket.Phases.Callers
import NoiseSocket.Lib.Insertion
import NoiseSocket.Listen
import NoiseSocket.Listen.Ports
import NoiseSocket.Listen.Sockets
import NoiseSocket.Listen.Optimize
import NoiseSocket.Listen.Lookup
import NoiseSocket.Listen.Served
import NoiseSocket.Lifetime
import NoiseSocket.Lifetime.Closed
import NoiseSocket.Relay
import NoiseSocket.Relay.Halves
import NoiseSocket.Relay.Limit
import NoiseSocket.Relay.Run
import NoiseSocket.Relay.SendChain
import NoiseSocket.Relay.SendChain.Framed
import NoiseSocket.Relay.SendChain.Unbuffered
import NoiseSocket.Relay.SendChain.Buffered
import NoiseSocket.Relay.SendChain.Calls
import NoiseSocket.Relay.Sizes
import NoiseSocket.Relay.Admitted
import NoiseSocket.Relay.Confined
import NoiseSocket.Relay.Confined.Run
import NoiseSocket.Relay.Confined.Exact
import NoiseSocket.Handler.Data.Silent
import NoiseSocket.Relay.Given
import NoiseSocket.Relay.Timers
import NoiseSocket.Relay.Rates
import NoiseSocket.Relay.Both
import NoiseSocket.Relay.Both.Timers
import NoiseSocket.Relay.Both.Rates
import NoiseSocket.Prologue.Received
import NoiseSocket.Prologue.Negotiation
import NoiseSocket.Prologue.Started
import NoiseSocket.Prologue.Servers
import NoiseSocket.Prologue.Openings
import NoiseSocket.Prologue.Peer
import NoiseSocket.Prologue.Agreement
import NoiseSocket.WriteFilter
import NoiseSocket.WriteFilter.Order
import NoiseSocket.Handler.Length.Gathered
import NoiseSocket.Handler.Handshake.Taken
import NoiseSocket.Handler.Handshake.Delivered
import NoiseSocket.Handler.Handshake.NoFault
import NoiseSocket.Handler.Handshake.Entering
import NoiseSocket.Handler.Handshake.Stream
import NoiseSocket.Handler.Handshake.Reached
import NoiseSocket.Handler.Handshake.Leading
import NoiseSocket.Handler.Dialogue
import NoiseSocket.Handler.Dialogue.Standing
import NoiseSocket.Handler.Dialogue.Passes
import NoiseSocket.Handler.Dialogue.Openings
import NoiseSocket.Handler.Dialogue.Progress
import NoiseSocket.Handler.Dialogue.Cuts
import NoiseSocket.Handler.Handshake.Exchange
import NoiseSocket.Handler.Session
import NoiseSocket.Handler.Session.Arrivals
import NoiseSocket.Handler.Session.Stages
import NoiseSocket.Handler.Session.Run
import NoiseSocket.Handler.InStep
import NoiseSocket.Handler.InStep.Layout
import NoiseSocket.Handler.InStep.Accounts
import NoiseSocket.Handler.InStep.Synced
import NoiseSocket.Handler.InStep.Passes
import NoiseSocket.Handler.InStep.Openings
import NoiseSocket.Handler.InStep.Run
