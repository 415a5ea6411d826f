import Vmecs.Pub.SerialLog
import Vmecs.Proto.WireDecoders
import Vmecs.Proto.PortText
import Vmecs.Proto.Fifo
import Vmecs.Proto.WakeUps
import Vmecs.Proto.Socks.Handover
import Vmecs.Proto.Socks.Peers
import Vmecs.Proto.Socks.Requests
import Vmecs.Proto.Vmess.Delivery
import Vmecs.Proto.Vmess.Hop
import Vmecs.Proto.Vmess.Authentication
import Vmecs.Proto.Vmess.EndChunk
import Vmecs.Proto.Vmess.Chunking
import Vmecs.Proto.Vmess.Checksum
import Vmecs.Proto.Relay.HalfClose
import Vmecs.Proto.Relay.EdgeTriggered
import Vmecs.Proto.Relay.Forwarding
import Vmecs.Proto.Relay.Closing
import Vmecs.Proto.Relay.Tcp
import Vmecs.Proto.Relay.LostPeer
import Vmecs.Proto.Relay.LifeCycle
import Vmecs.Proto.Relay.Pairs
import Vmecs.Proto.Relay.Row
import Vmecs.Proto.Relay.Serving
import Vmecs.Toml.Keywords
import Vmecs.Toml.Growth
import Vmecs.Toml.LexerLoop
import Vmecs.Toml.Dump
import Vmecs.Toml.Free
import Vmecs.App.Deployment
