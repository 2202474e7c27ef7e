import Yggdrasil.Base.Run
import Yggdrasil.Router.Control
import Yggdrasil.Router.Emits

/-!
# The router task

`handle_router_msg` and the maintenance tick of `core.rs`. Queries only read the router and are left out.
-/

namespace Yggdrasil.FullRouter
open List
open Router (PathMsg handlePath)

/-- Messages to the router task; `maintenance` is its timer, with whether the wall clock has jumped. -/
inductive Msg where
  | addPeer (entry : PeerEntry)
  | removePeer (peerId : PeerId) (key : PublicKey) (port : PeerPort)
  | handleRequest (peerId : PeerId) (peerKey : PublicKey) (req : SigReq)
  | handleResponse (peerId : PeerId) (key : PublicKey) (res : SigRes) (rtt : Duration)
  | handleAnnounce (peerId : PeerId) (peerKey : PublicKey) (ann : RouterAnnounce)
  | handleBloom (peerKey : PublicKey) (filter : BloomFilter)
  | path (msg : PathMsg)
  | forceRefresh
  | maintenance (wallJump : Bool)

/-- A message with the clocks and random numbers that the task reads while it handles it. -/
structure Call where
  clk : Clock
  rand : Nat → UInt64
  msg : Msg

/-- A signature request is answered on the connection it came in on, as long as this is registered. -/
def handleRequest (self : FullRouter) (peerId : PeerId) (peerKey : PublicKey) (req : SigReq) : List RouterAction :=
  match (self.peers.lookup peerKey).bind fun peers => peers.lookup peerId with
  | some entry => [self.handleRequestWithData entry req]
  | none => []

def maintenanceTick (env : Env) (self : FullRouter) (clk : Clock) (rand : Nat → UInt64) (wallJump : Bool) :
    Option Outcome :=
  let self := if wallJump then self.forceRefresh clk.now else self
  (self.expireInfos clk.now).doMaintenance env clk rand

/-- Nothing where the source panics. -/
def exec (env : Env) (self : FullRouter) (call : Call) : Option Outcome :=
  match call.msg with
  | .addPeer entry => self.addPeer entry (call.rand 0)
  | .removePeer peerId key port => some (self.removePeer peerId key port)
  | .handleRequest peerId peerKey req => some { actions := self.handleRequest peerId peerKey req, router := self }
  | .handleResponse peerId key res rtt => some { actions := [], router := self.handleResponse peerId key res rtt }
  | .handleAnnounce peerId peerKey ann => some (self.handleAnnounce peerId peerKey ann call.clk.now)
  | .handleBloom peerKey filter => some { actions := [], router := self.handleBloom peerKey filter }
  | .path msg => some (self.lift (handlePath env call.clk self.toRouter msg))
  | .forceRefresh => (self.forceRefresh call.clk.now).doMaintenance env call.clk call.rand
  | .maintenance wallJump => self.maintenanceTick env call.clk call.rand wallJump

def execAll (env : Env) (self : FullRouter) (calls : List Call) : Option FullRouter :=
  calls.foldlM (fun r call => (r.exec env call).map Outcome.router) self

/-- A call that was handled. -/
structure Record where
  before : FullRouter
  call : Call
  outcome : Outcome

/-- A router with the log of all calls it has handled. -/
structure Watched where
  router : FullRouter
  log : List Record

namespace Watched

def new (crypto : Crypto) (config : FullConfig) (now : Instant) : Watched :=
  { router := FullRouter.new crypto config now, log := [] }

def exec (env : Env) (w : Watched) (call : Call) : Option Watched :=
  (w.router.exec env call).map fun o =>
    { router := o.router, log := w.log ++ [{ before := w.router, call, outcome := o }] }

def execAll (env : Env) (w : Watched) (calls : List Call) : Option Watched := calls.foldlM (exec env) w

theorem execAll_log {env : Env} {calls : List Call} {w w' : Watched} (h : w.execAll env calls = some w') :
    w'.log.map Record.call = w.log.map Record.call ++ calls := by
  have hrun := Lts.run_of_foldlM h
  clear h
  induction hrun with
  | nil => rw [append_nil]
  | snoc _ he ih =>
    obtain ⟨o, -, rfl⟩ := Option.map_eq_some_iff.mp he
    rw [← append_assoc, ← ih, map_append]
    rfl

end Watched

end Yggdrasil.FullRouter
