import T2Bus.Server.Core

/-!
# The client core

`ClientCore` and one turn of its `main_loop`. Like the server's, a function of the core takes the state
and what has left it so far, and returns its result with both of them.

* `ClientTask`: what the API hands to the core; a callback is the number of the API call it belongs to;
* `ClientEnv`: what the core does not decide: which receivers are still there, the order in which a
  hash set is iterated, and what the transport says to a message;
* `ClientExec`: the core with what has left it: messages, and what was put into callbacks;
* `beforeSend`, `send`, `afterReceive`, `turn`.
-/

namespace T2Bus

/-- The sending end of a callback channel, named by the API call that passed it in. -/
abbrev Callback := ℕ

structure TaskPub where
  msg : PubMsg
  callbackAck : Callback
  deriving DecidableEq

structure TaskSub where
  msg : SubMsg
  callbackAck : Callback
  callbackPub : Callback
  deriving DecidableEq

structure TaskUnsub where
  msg : UnsubMsg
  deriving DecidableEq

structure TaskUnsrv where
  msg : UnsrvMsg
  deriving DecidableEq

structure TaskReq where
  msg : ReqMsg
  callbackAck : Callback
  callbackRsp : Callback
  deriving DecidableEq

structure TaskRsp where
  msg : RspMsg
  callbackAck : Callback
  deriving DecidableEq

structure TaskSrv where
  msg : SrvMsg
  callbackAck : Callback
  callbackReq : Callback
  deriving DecidableEq

structure TaskStopBus where
  callbackAck : Callback
  deriving DecidableEq

/-- `client::core::Task` -/
inductive ClientTask where
  | pub (params : TaskPub)
  | sub (params : TaskSub)
  | req (params : TaskReq)
  | rsp (params : TaskRsp)
  | srv (params : TaskSrv)
  | unsub (params : TaskUnsub)
  | unsrv (params : TaskUnsrv)
  | stop
  | stopBus (params : TaskStopBus)
  | keepAlive
  deriving DecidableEq

structure ClientCore where
  nextMsgId : MsgId
  callbacksAck : Table MsgId Callback
  callbacksRsp : Table MsgId Callback
  callbacksPub : Table MsgId Callback
  callbacksReq : Table MsgId Callback
  subscriptions : Directory

/-- What was put into a callback channel. -/
inductive Call where
  | ack (callback : Callback) (payload : AckMsg)
  | rsp (callback : Callback) (payload : RspMsg)
  | pub (callback : Callback) (payload : PubMsg)
  | req (callback : Callback) (id : MsgId) (payload : ReqMsg)
  deriving DecidableEq

/-- What the core finds in its environment during a turn of the loop. -/
structure ClientEnv where
  /-- The receiver of the callback is still there. -/
  isOpen : Callback → Bool
  order : Order
  transport : Msg ProtocolClient → BusResult Unit

/-- The core and what has left it. -/
structure ClientExec where
  core : ClientCore
  sent : List (Msg ProtocolClient)
  calls : List Call

/-- What ends a `select!` of `main_loop`. -/
inductive Event where
  | msg (msg : Msg ProtocolServer)
  /-- The transport ended or failed. -/
  | lost (e : BusError)
  | task (task : ClientTask)
  /-- Every task sender is gone, and no task is left. -/
  | closed
  | tick
  deriving DecidableEq

/-- Nothing has left the core yet. -/
def ClientExec.start (core : ClientCore) : ClientExec := ⟨core, [], []⟩

namespace ClientCore

/-- The core that `ClientCore::start` makes. -/
def new : ClientCore where
  nextMsgId := 0
  callbacksAck := .empty
  callbacksRsp := .empty
  callbacksPub := .empty
  callbacksReq := .empty
  subscriptions := .new

/-- `self.next_msg_id += 1` -/
def bump (self : ClientCore) : ClientCore := { self with nextMsgId := self.nextMsgId + 1 }

/-- `before_send`, behind `self.next_msg_id += 1`. -/
def message (task : ClientTask) (self : ClientCore) :
    Except Fault (Msg ProtocolClient) × ClientCore :=
  let id := self.nextMsgId
  match task with
  | .pub params =>
    (.ok ⟨id, .pub params.msg⟩,
      { self with callbacksAck := self.callbacksAck.insert id params.callbackAck })
  | .sub params =>
    (.ok ⟨id, .sub params.msg⟩,
      { self with
        callbacksAck := self.callbacksAck.insert id params.callbackAck
        callbacksPub := self.callbacksPub.insert id params.callbackPub
        subscriptions := self.subscriptions.subscribe id params.msg.topic })
  | .req params =>
    (.ok ⟨id, .req params.msg⟩,
      { self with
        callbacksAck := self.callbacksAck.insert id params.callbackAck
        callbacksRsp := self.callbacksRsp.insert id params.callbackRsp })
  | .rsp params =>
    (.ok ⟨id, .rsp params.msg⟩,
      { self with callbacksAck := self.callbacksAck.insert id params.callbackAck })
  | .unsub params => (.ok ⟨id, .unsub params.msg⟩, self)
  | .unsrv params =>
    match self.subscriptions.getOwner params.msg.topic with
    | none => (.error .panic, self)
    | some callbackId =>
      let (result, subscriptions) := self.subscriptions.unclaim callbackId params.msg.topic
      let self := { self with subscriptions := subscriptions }
      match result with
      | .ok _ => (.ok ⟨id, .unsrv params.msg⟩, self)
      | .error e => (.error (.err e), self)
  | .srv params =>
    let (result, subscriptions) := self.subscriptions.claim id params.msg.topic
    let self := { self with
      callbacksAck := self.callbacksAck.insert id params.callbackAck
      callbacksReq := self.callbacksReq.insert id params.callbackReq
      subscriptions := subscriptions }
    match result with
    | .ok _ => (.ok ⟨id, .srv params.msg⟩, self)
    | .error e => (.error (.err e), self)
  | .stop => (.error .panic, self)
  | .stopBus params =>
    (.ok ⟨id, .stop⟩, { self with callbacksAck := self.callbacksAck.insert id params.callbackAck })
  | .keepAlive => (.ok ⟨id, .keepAlive⟩, self)

def beforeSend (task : ClientTask) (self : ClientCore) :
    Except Fault (Msg ProtocolClient) × ClientCore := self.bump.message task

end ClientCore

namespace ClientExec

variable (env : ClientEnv)

/-! ## Sending -/

def send (task : ClientTask) (s : ClientExec) : Except Fault Unit × ClientExec :=
  match s.core.beforeSend task with
  | (.ok msg, core) =>
    match env.transport msg with
    | .ok _ => (.ok (), { s with core := core, sent := s.sent ++ [msg] })
    | .error e => (.error (.err e), { s with core := core })
  | (.error e, core) => (.error e, { s with core := core })

/-! ## Receiving -/

/-- Put something into a callback. -/
def call (c : Call) (s : ClientExec) : ClientExec := { s with calls := s.calls ++ [c] }

/-- Unsubscribe from the server for topics that now have no subscribers. -/
def unsubscribeAll : List Topic → ClientExec → Except Fault Unit × ClientExec
  | [], s => (.ok (), s)
  | topic :: rest, s =>
    match send env (.unsub ⟨⟨topic⟩⟩) s with
    | (.ok _, s) => unsubscribeAll rest s
    | (.error e, s) => (.error e, s)

/-- Remove the local subscriber. -/
def forget (callbackId : MsgId) (s : ClientExec) : ClientExec :=
  { s with
    core := { s.core with
      callbacksPub := s.core.callbacksPub.remove callbackId
      subscriptions := (s.core.subscriptions.dropClient callbackId).2 } }

/-- What happens when the subscriber has dropped the callback channel. -/
def cleanup (callbackId : MsgId) (s : ClientExec) : Except Fault Unit × ClientExec :=
  unsubscribeAll env (s.core.subscriptions.dropClient callbackId).1 (s.forget callbackId)

/-- The loop over the subscribers of a publication. -/
def pubLoop (payload : PubMsg) : List MsgId → ClientExec → Except Fault Unit × ClientExec
  | [], s => (.ok (), s)
  | callbackId :: rest, s =>
    match s.core.callbacksPub callbackId with
    | none => (.error .panic, s)
    | some callback =>
      if env.isOpen callback then pubLoop payload rest (s.call (.pub callback payload))
      else
        match cleanup env callbackId s with
        | (.ok _, s) => pubLoop payload rest s
        | (.error e, s) => (.error e, s)

def afterReceive (msg : Msg ProtocolServer) (s : ClientExec) : Except Fault Unit × ClientExec :=
  match msg.content with
  | .ack payload =>
    let core := { s.core with callbacksAck := s.core.callbacksAck.remove payload.msgId }
    match s.core.callbacksAck payload.msgId with
    | some callback => (.ok (), ({ s with core := core }).call (.ack callback payload))
    | none => (.ok (), { s with core := core })
  | .rsp payload =>
    let core := { s.core with callbacksRsp := s.core.callbacksRsp.remove payload.reqId }
    match s.core.callbacksRsp payload.reqId with
    | some callback => (.ok (), ({ s with core := core }).call (.rsp callback payload))
    | none => (.error .panic, { s with core := core })
  | .pub payload =>
    pubLoop env payload (env.order.arrange (s.core.subscriptions.getSubscribers payload.topic)) s
  | .req payload =>
    match s.core.subscriptions.getOwner payload.topic with
    | some callbackId =>
      match s.core.callbacksReq callbackId with
      | some callback =>
        if env.isOpen callback then (.ok (), s.call (.req callback msg.id payload))
        else (.error (.err .channelClosed), s)
      | none => (.error .panic, s)
    | none => (.ok (), s)

/-! ## The loop -/

/-- The loop goes on. -/
def goesOn : Except Fault Unit × ClientExec → Except Fault Bool × ClientExec
  | (result, s) => (result.map fun _ => false, s)

/-- One turn of `main_loop`: an error ends it, and `true` ends it with `Ok`. -/
def turn (event : Event) (s : ClientExec) : Except Fault Bool × ClientExec :=
  match event with
  | .msg msg => goesOn (afterReceive env msg s)
  | .lost e => (.error (.err e), s)
  | .task .stop => (.ok true, s)
  | .task task => goesOn (send env task s)
  | .closed => (.ok true, s)
  | .tick => goesOn (send env .keepAlive s)

end ClientExec

end T2Bus
