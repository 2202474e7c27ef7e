import Yggdrasil.Session.KeyUse
import Yggdrasil.Session.Replay
import Yggdrasil.Session.Origin
import Yggdrasil.Session.FirstMessage
import Yggdrasil.Session.Sections
import Yggdrasil.Session.KeySeq
import Yggdrasil.Cipher.Salsa
import Yggdrasil.Router.LoopFree
import Yggdrasil.Router.Latency
import Yggdrasil.Router.Gossip
import Yggdrasil.Router.OwnPath
import Yggdrasil.Router.Multicast
import Yggdrasil.Wire.Separation
import Yggdrasil.KeyStore.Authentic
import Yggdrasil.KeyStore.Inbound
import Yggdrasil.KeyStore.AddressKeys
import Yggdrasil.Traffic.Deficit
import Yggdrasil.Wire.Total
import Yggdrasil.Peer.Silence
import Yggdrasil.Peer.Ports
import Yggdrasil.Peer.Liveness
import Yggdrasil.Peer.Writer
import Yggdrasil.KeyStore.Known
import Yggdrasil.Tun.Gso
import Yggdrasil.Peer.Sockets
import Yggdrasil.KeyStore.CidrChecked
import Yggdrasil.KeyStore.CidrMinimal
import Yggdrasil.KeyStore.Expiry
import Yggdrasil.Tun.Probe
import Yggdrasil.Peer.WebSocket
import Yggdrasil.Config.Backoff
