import SwitchML.Lib.MatchAction
import SwitchML.Lib.Bitmap
import SwitchML.Lib.Staged
import SwitchML.Lib.History
import SwitchML.Lib.InOrder
import SwitchML.Lib.Cascade
import SwitchML.Lib.Codec
import SwitchML.Lib.Linked
import SwitchML.Lib.Rounds
import SwitchML.Lib.OnesComplement
import SwitchML.Lib.Looped
import SwitchML.Lib.Barriers
import SwitchML.Switch.Types
import SwitchML.Switch.Tables
import SwitchML.Switch.NextStep
import SwitchML.Switch.Receiver
import SwitchML.Switch.ReceiverSpec
import SwitchML.Switch.Ingress
import SwitchML.Switch.Pass
import SwitchML.Protocol.SlotMachine
import SwitchML.Protocol.Log
import SwitchML.Protocol.Pipe
import SwitchML.Protocol.Frame
import SwitchML.Protocol.Passes
import SwitchML.Protocol.Routes
import SwitchML.Protocol.Moves
import SwitchML.Protocol.Refinement
import SwitchML.Protocol.Simulation
import SwitchML.Protocol.Aggregation
import SwitchML.Protocol.Retransmission
import SwitchML.Protocol.Duplicate
import SwitchML.Protocol.Once
import SwitchML.Protocol.Order
import SwitchML.Protocol.Exponents
import SwitchML.Protocol.Receiving
import SwitchML.Protocol.SlotRecord
import SwitchML.Protocol.Idempotence
import SwitchML.Protocol.Recovery
import SwitchML.Protocol.Replies
import SwitchML.Protocol.InPlace
import SwitchML.Client.Pointers
import SwitchML.Client.TimeoutQueue
import SwitchML.Client.Thread
import SwitchML.Client.Timeouts
import SwitchML.Client.LossFree
import SwitchML.Client.Barrier
import SwitchML.Client.Reducer
import SwitchML.Control.Sender
import SwitchML.Control.Connect
import SwitchML.Control.Ports
import SwitchML.Control.AddWorker
import SwitchML.Control.Handshake
import SwitchML.System.Allreduce
import SwitchML.Protocol.Exchange
import SwitchML.Protocol.ReplyPsn
import SwitchML.Protocol.Stream
import SwitchML.Protocol.StreamMoves
import SwitchML.Protocol.StreamReceiving
import SwitchML.Protocol.VaryingSizes
import SwitchML.Wire.Headers
import SwitchML.Wire.Parser
import SwitchML.Wire.Ingress
import SwitchML.Wire.Forward
import SwitchML.Wire.Recirculation
import SwitchML.Wire.Egress
import SwitchML.Wire.UdpReply
import SwitchML.Wire.RoceReply
import SwitchML.Wire.PacketId
import SwitchML.Wire.Refinement
import SwitchML.Wire.Delivery
import SwitchML.Wire.SimulatedDrop
import SwitchML.Wire.DebugLog
