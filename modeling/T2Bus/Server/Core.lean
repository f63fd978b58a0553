import T2Bus.Lib.Table
import T2Bus.Directory.Flat

/-!
# The server core

`Core` and the tasks it processes. A function of the core takes the state and what was sent so far
and returns its result with both of them; a channel is the number of the connection it belongs to.

* `Env`: what the core does not decide: which channels are open, and the order in which a hash set
  is iterated;
* `Exec`: the core with what has left it: messages, timers and client stubs;
* `deliver`, `publish`, `request`, `respond`, …, `processMsg`, `processTask`.

`deliver` takes a message id whether or not the message arrives, so `out` lists every message that
was handed to it.
-/

namespace T2Bus

/-- A connection, and the channel that leads to its client stub. -/
abbrev Conn := ℕ

structure PendingResponse where
  requestId : MsgId
  responderId : ClientId
  requesterId : ClientId
  deriving DecidableEq

structure Core where
  protocolServerSenders : Table ClientId Conn
  directory : Directory
  nextClientId : UInt32
  nextMsgId : UInt32
  pendingResponses : Table MsgId PendingResponse

/-- `server::Task` -/
inductive Task where
  | register (transport : Conn)
  | deregister (clientId : ClientId)
  | message (clientId : ClientId) (msg : Msg ProtocolClient)
  | requestTimeout (reqId : MsgId)
  deriving DecidableEq

/-- A message handed to `deliver`, and the channel it was put into, if there was an open one. -/
structure Delivery where
  clientId : ClientId
  msg : Msg ProtocolServer
  conn : Option Conn
  deriving DecidableEq

/-- An order of iteration over a hash set. -/
structure Order where
  arrange : List ClientId → List ClientId
  perm : ∀ ids, (arrange ids).Perm ids

/-- Iteration in the order of the list. -/
def Order.given : Order := ⟨fun ids => ids, fun _ => .refl _⟩

/-- What the core finds in its environment while it processes a task. -/
structure Env where
  isOpen : Conn → Bool
  order : Order

def killTopic : Topic := ⟨"bus", ⟨"kill"⟩⟩

/-- The core and what has left it. -/
structure Exec where
  core : Core
  out : List Delivery
  /-- The requests whose timer was started. -/
  timers : List MsgId
  /-- The client stubs that were spawned. -/
  stubs : List (ClientId × Conn)

/-- Nothing has left the core yet. -/
def Exec.start (core : Core) : Exec := ⟨core, [], [], []⟩

namespace Core

def new : Core where
  protocolServerSenders := .empty
  directory := Directory.new.subscribe 0 killTopic
  nextClientId := 1
  nextMsgId := 0
  pendingResponses := .empty

/-- `"bus:kill".parse().unwrap()` -/
theorem fromStr_killTopic : Topic.fromStr "bus:kill" = .ok killTopic := by decide

def msg (self : Core) (content : ProtocolServer) : Msg ProtocolServer × Core :=
  (⟨self.nextMsgId, content⟩, { self with nextMsgId := self.nextMsgId + 1 })

def deregisterClient (self : Core) (id : ClientId) : Core :=
  { self with
    protocolServerSenders := self.protocolServerSenders.remove id
    directory := (self.directory.dropClient id).2
    pendingResponses := self.pendingResponses.retain fun _ v =>
      v.requesterId != id && v.responderId != id }

end Core

namespace Exec

variable (env : Env)

/-! ## Delivery -/

def deliver (clientId : ClientId) (payload : ProtocolServer) (s : Exec) : BusResult MsgId × Exec :=
  let (msg, core) := s.core.msg payload
  match core.protocolServerSenders clientId with
  | some client =>
    if env.isOpen client then
      (.ok msg.id, { s with core := core, out := s.out ++ [⟨clientId, msg, some client⟩] })
    else
      -- client has disconnected, cleanup
      (.error (.deliveryFailed clientId sendErrorText),
        { s with core := core.deregisterClient clientId, out := s.out ++ [⟨clientId, msg, none⟩] })
  | none =>
    (.error (.unknownClient clientId),
      { s with core := core, out := s.out ++ [⟨clientId, msg, none⟩] })

/-- The loop of `publish`. -/
def publishLoop (payload : ProtocolServer) : List ClientId → Exec → Except Fault Unit × Exec
  | [], s => (.ok (), s)
  | clientId :: rest, s =>
    if clientId = 0 then (.error .panic, s) -- "Received kill message"
    else
      match deliver env clientId payload s with
      | (.ok _, s) => publishLoop payload rest s
      | (.error e, s) => (.error (.err e), s)

def publish (params : PubMsg) (s : Exec) : Except Fault ℕ × Exec :=
  let subscriberIds := s.core.directory.getSubscribers params.topic
  match publishLoop env (.pub params) (env.order.arrange subscriberIds) s with
  | (.ok _, s) => (.ok subscriberIds.length, s)
  | (.error e, s) => (.error e, s)

/-! ## Requests -/

def request (clientId : ClientId) (reqId : MsgId) (params : ReqMsg) (s : Exec) :
    BusResult Unit × Exec :=
  match s.core.directory.getOwner params.topic with
  | some serverId =>
    match deliver env serverId (.req params) s with
    | (.ok msgId, s) =>
      let pendingResponse : PendingResponse :=
        { requestId := reqId, requesterId := clientId, responderId := serverId }
      (.ok (),
        { s with
          core := { s.core with
            pendingResponses := s.core.pendingResponses.insert msgId pendingResponse }
          timers := s.timers ++ [msgId] })
    | (.error e, s) => (.error e, s)
  | none => (.error (.serviceNotFound params.topic), s)

def respond (clientId : ClientId) (params : RspMsg) (s : Exec) : BusResult Unit × Exec :=
  match s.core.pendingResponses params.reqId with
  | some p =>
    -- the responder is trying to respond to a request that wasn't sent to them
    if clientId ≠ 0 ∧ p.responderId ≠ clientId then (.error .invalidRequestId, s)
    else
      let core := { s.core with
        pendingResponses := s.core.pendingResponses.remove params.reqId }
      let rsp := .rsp { reqId := p.requestId, status := params.status, payload := params.payload }
      match deliver env p.requesterId rsp { s with core := core } with
      | (.ok _, s) => (.ok (), s)
      | (.error e, s) => (.error e, s)
  | none => (.error .invalidRequestId, s)

/-! ## The directory -/

/-- Run a directory operation. -/
def onDirectory (op : Directory → BusResult Unit × Directory) (s : Exec) : BusResult Unit × Exec :=
  let (result, directory) := op s.core.directory
  (result, { s with core := { s.core with directory := directory } })

def serve (clientId : ClientId) (params : SrvMsg) : Exec → BusResult Unit × Exec :=
  onDirectory fun d => d.claim clientId params.topic

def unserve (clientId : ClientId) (params : UnsrvMsg) : Exec → BusResult Unit × Exec :=
  onDirectory fun d => d.unclaim clientId params.topic

def subscribe (clientId : ClientId) (params : SubMsg) : Exec → BusResult Unit × Exec :=
  onDirectory fun d => (.ok (), d.subscribe clientId params.topic)

def unsubscribe (clientId : ClientId) (params : UnsubMsg) : Exec → BusResult Unit × Exec :=
  onDirectory fun d => d.unsubscribe clientId params.topic

/-! ## Tasks -/

/-- `result.map(|_| None)`, an error being one of the task. -/
def noCount : BusResult Unit × Exec → Except Fault (Option ℕ) × Exec
  | (.ok _, s) => (.ok none, s)
  | (.error e, s) => (.error (.err e), s)

/-- The part of `process_msg` that looks at the content. -/
def processContent (clientId : ClientId) (msg : Msg ProtocolClient) (s : Exec) :
    Except Fault (Option ℕ) × Exec :=
  match msg.content with
  | .pub params =>
    match publish env params s with
    | (.ok n, s) => (.ok (some n), s)
    | (.error e, s) => (.error e, s)
  | .sub params => noCount (subscribe clientId params s)
  | .unsub params => noCount (unsubscribe clientId params s)
  | .srv params => noCount (serve clientId params s)
  | .unsrv params => noCount (unserve clientId params s)
  | .req params => noCount (request env clientId msg.id params s)
  | .rsp params => noCount (respond env clientId params s)
  | .stop => (.ok none, s)
  | .keepAlive => (.ok none, s)

def processMsg (clientId : ClientId) (msg : Msg ProtocolClient) (s : Exec) :
    Except Fault Bool × Exec :=
  let stop := decide (msg.content = .stop)
  match processContent env clientId msg s with
  | (.ok numRecipients, s) =>
    -- failure to deliver an Ack can be ignored
    (.ok stop, (deliver env clientId (.ack ⟨msg.id, none, numRecipients⟩) s).2)
  | (.error (.err e), s) =>
    (.ok stop, (deliver env clientId (.ack ⟨msg.id, some e, none⟩) s).2)
  | (.error .panic, s) => (.error .panic, s)

def registerClient (transport : Conn) (s : Exec) : Exec :=
  let clientId := s.core.nextClientId
  { s with
    core := { s.core with
      nextClientId := s.core.nextClientId + 1
      protocolServerSenders := s.core.protocolServerSenders.insert clientId transport }
    stubs := s.stubs ++ [(clientId, transport)] }

/-- The response of a request that ran into its timeout. -/
def timeoutRsp (reqId : MsgId) : RspMsg :=
  { reqId := reqId, status := .timeout, payload := ⟨[], false⟩ }

def processTask (task : Task) (s : Exec) : Except Fault Bool × Exec :=
  match task with
  | .register transport => (.ok false, registerClient transport s)
  | .deregister clientId => (.ok false, { s with core := s.core.deregisterClient clientId })
  | .message clientId msg => processMsg env clientId msg s
  | .requestTimeout reqId =>
    match respond env 0 (timeoutRsp reqId) s with
    | (.ok _, s) => (.ok false, s)
    | (.error e, s) => (.error (.err e), s)

end Exec

end T2Bus
