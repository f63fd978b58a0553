import T2Bus.Transport.Wire
import T2Bus.Transport.Length
import T2Bus.Bus.Queues

/-!
# The bus over streams of bytes

Over TCP and Unix sockets a transport is `Framed`: what goes in is encoded, the bytes arrive in pieces,
and the other end decodes them. A failed write leaves a part of a frame behind, a message that is too long
ends its reader.

* `Wire.Carried`: the bytes on a wire are those of some messages;
* `Framed`: the server, its clients, and the wires between them; `Framed.step`;
* **`Framed.moves_of_step`**: what an action does.
-/

namespace T2Bus

open CborCodec

/-! ## Messages and their bytes -/

/-- The decoder has checked the topic. -/
theorem ProtocolClient.WellFormed.valid {content : ProtocolClient} (h : content.WellFormed) :
    content.Valid := by
  intro t ht
  cases content with
  | sub params | srv params | unsub params | unsrv params =>
    cases ht
    exact h.1
  | pub params | req params =>
    cases ht
    exact h.1.1
  | _ => cases ht

theorem ProtocolServer.WellFormed.valid {msg : Msg ProtocolServer} (h : msg.content.WellFormed) :
    (Event.msg msg).Valid := by
  obtain ⟨id, content⟩ := msg
  cases content with
  | pub params | req params => exact h.1.1
  | _ => trivial

namespace Wire

variable {T : Type} [Content T]

/-- The bytes on the wire are those of the messages. -/
def Carried (wire : Wire) (msgs : List (Msg T)) : Prop :=
  ∃ values : List (WireMsg T), values.map Subtype.val = msgs ∧ wire.Carries (serde T) values

variable {wire : Wire} {msgs : List (Msg T)}

theorem framable_serde {msg : WireMsg T} : Framable (serde T) msg ↔ frameLen msg.1 < 2 ^ 32 := by
  constructor
  · rintro ⟨bytes, hser, h⟩
    cases hser
    exact h
  · exact fun h => ⟨_, rfl, h⟩

theorem carried_empty : empty.Carried ([] : List (Msg T)) := ⟨[], rfl, carries_empty⟩

theorem Carried.carry (h : wire.Carried msgs) (n : ℕ) : (wire.carry n).Carried msgs := by
  obtain ⟨values, hvalues, hcarries⟩ := h
  exact ⟨values, hvalues, hcarries.carry n⟩

theorem Carried.write (h : wire.Carried msgs) (hb : wire.broken = false) {new : List (Msg T)}
    (wf : ∀ msg ∈ new, msg.WellFormed) (hshort : ∀ msg ∈ new, frameLen msg < 2 ^ 32) :
    (wire.write (serde T) (new.attachWith _ wf)).Carried (msgs ++ new) := by
  obtain ⟨values, rfl, hcarries⟩ := h
  refine ⟨values ++ new.attachWith _ wf, by simp, hcarries.write hb fun value hvalue => ?_⟩
  exact framable_serde.mpr (hshort _ ((List.mem_attachWith ..).mp hvalue))

theorem Carried.spill (h : wire.Carried msgs) (hb : wire.broken = false) {msg : WireMsg T} {n : ℕ}
    (hshort : frameLen msg.1 < 2 ^ 32) (hn : n < (frame (serde T) msg).length) :
    (wire.spill (serde T) msg n).Carried msgs := by
  obtain ⟨values, hvalues, hcarries⟩ := h
  exact ⟨values, hvalues, hcarries.spill hb (framable_serde.mpr hshort) hn⟩

/-- The reader takes the first message off. -/
theorem Carried.decode_some (h : wire.Carried msgs) {msg : WireMsg T} {rest : Cbor.Bytes}
    (hdec : decode (serde T) wire.buffer = (.ok (some msg), rest)) :
    ∃ msgs', msgs = msg.1 :: msgs' ∧ ({ wire with buffer := rest } : Wire).Carried msgs' := by
  obtain ⟨values, rfl, hcarries⟩ := h
  obtain ⟨values', rfl, hcarries'⟩ := hcarries.decode_some hdec
  exact ⟨_, rfl, values', rfl, hcarries'⟩

theorem sendable_serde {msg : WireMsg T} (h : frameLen msg.1 ≤ maxMessageSizeBytes) :
    Sendable (serde T) msg := ⟨_, rfl, h⟩

/-- Once everything has arrived, the reader has the first message. -/
theorem Carried.decode_arrived {msg : Msg T} (h : wire.Carried (msg :: msgs)) (hflight : wire.flight = [])
    (hlen : frameLen msg ≤ maxMessageSizeBytes) :
    ∃ value : WireMsg T, ∃ rest, value.1 = msg ∧
      decode (serde T) wire.buffer = (.ok (some value), rest) ∧
        ({ wire with buffer := rest } : Wire).Carried msgs := by
  obtain ⟨values, hvalues, hcarries⟩ := h
  obtain ⟨value, values, rfl, rfl, rfl⟩ := List.map_eq_cons_iff.mp hvalues
  obtain ⟨rest, hdec⟩ := hcarries.decode_arrived hflight (sendable_serde hlen)
  obtain ⟨_, heq, hrest⟩ := hcarries.decode_some hdec
  cases heq
  exact ⟨value, rest, rfl, hdec, _, rfl, hrest⟩

/-- The reader fails only at a message that is too long, or behind a failed write. -/
theorem Carried.decode_ok (h : wire.Carried msgs) (hb : wire.broken = false)
    (hlen : ∀ msg ∈ msgs, frameLen msg ≤ maxMessageSizeBytes) {e : BusError} {rest : Cbor.Bytes} :
    decode (serde T) wire.buffer ≠ (.error e, rest) := by
  obtain ⟨values, rfl, hcarries⟩ := h
  exact hcarries.decode_ok hb fun value hvalue =>
    sendable_serde (hlen value.1 (List.mem_map_of_mem hvalue))

end Wire

/-- The stub has stopped serving. -/
def Stub.hasLeft : Stub → Bool
  | .finishing _ | .gone _ => true
  | .absent | .accepted | .serving _ => false

theorem System.hasLeft_step {s s' : System} {act : T2Bus.Act} {conn : Conn} (hs : System.Reachable s)
    (h : s.step act = some s') (hl : (s.stubs conn).hasLeft = true) :
    (s'.stubs conn).hasLeft = true := by
  obtain ⟨c, hc, hno⟩ : ∃ c, (s.stubs conn).client? = some c ∧ ∀ d, s.stubs conn ≠ .serving d := by
    cases hstub : s.stubs conn with
    | finishing c | gone c => exact ⟨c, rfl, by simp⟩
    | _ =>
      rw [hstub] at hl
      cases hl
  have hc' := System.client_step hs h hc
  have hno' : ∀ d, s'.stubs conn ≠ .serving d := by
    intro d hd
    obtain ⟨-, hq | ⟨order, task, tasks, ht, rfl⟩⟩ := quiet_or_processed h
    · exact hno d (hq.serving conn d hd)
    · rw [processed_stubs] at hd
      split_ifs at hd with hreg
      · -- only a connection that has no client yet is registered
        have hm : conn ∈ registers s.tasks := by
          rw [ht, show task = _ from hreg]
          exact List.mem_cons_self
        rw [hs.conns.queued conn hm] at hc
        cases hc
      · exact hno d hd
  cases hstub : s'.stubs conn with
  | serving d => exact absurd hstub (hno' d)
  | finishing d | gone d => rfl
  | absent | accepted =>
    rw [hstub] at hc'
    cases hc'

/-! ## The system -/

structure Framed where
  server : System
  session : Conn → Session
  /-- From the client to its stub. -/
  up : Conn → Wire
  /-- From the stub to the client. -/
  down : Conn → Wire
  /-- How many messages of its channel a stub has put into the transport. -/
  passed : Conn → ℕ

namespace Framed

inductive Act where
  /-- The listener, the timers, the core, or the end of a stub. -/
  | server (act : T2Bus.Act)
  /-- The application, or a turn of the client that receives nothing. -/
  | client (conn : Conn) (act : Session.Act)
  /-- The network carries bytes of a client over. -/
  | carryUp (conn : Conn) (n : ℕ)
  /-- The network carries bytes of a stub over. -/
  | carryDown (conn : Conn) (n : ℕ)
  /-- A stub polls its transport. -/
  | receive (conn : Conn)
  /-- A stub puts the next message of its channel into the transport. -/
  | pass (conn : Conn)
  /-- A client polls its transport. -/
  | deliver (conn : Conn) (order : Order) (transport : Msg ProtocolClient → BusResult Unit)
  /-- What the last write of a client has left that failed; the header can hold its length. -/
  | spillUp (conn : Conn) (msg : WireMsg ProtocolClient) (n : ℕ)
  /-- What the last write of a stub has left that failed; the header can hold its length. -/
  | spillDown (conn : Conn) (msg : WireMsg ProtocolServer) (n : ℕ)

def init : Framed where
  server := .init
  session := fun _ => .init
  up := fun _ => .empty
  down := fun _ => .empty
  passed := fun _ => 0

variable (w : Framed)

/-- What waits in the channel of a stub. -/
def channel (conn : Conn) : List (Msg ProtocolServer) := (outOn w.server.log conn).drop (w.passed conn)

/-- A session goes on, and its end of the connection writes what it has sent. No string and no vector is
larger than the address space. -/
def setSession (conn : Conn) (session : Session) : Option Framed :=
  if wf : ∀ msg ∈ session.sent.drop (w.session conn).sent.length, msg.WellFormed then
    some { w with
      session := Function.update w.session conn session
      up := Function.update w.up conn ((w.up conn).write (serde ProtocolClient)
        ((session.sent.drop (w.session conn).sent.length).attachWith _ wf)) }
  else none

def step : Act → Option Framed
  | .server (.receive _ _ _) => none
  | .server act => (w.server.step act).map fun server => { w with server := server }
  | .client _ (.turn (.msg _) _ _ _) => none
  | .client conn act => ((w.session conn).step act).bind (w.setSession conn)
  | .carryUp conn n => some { w with up := Function.update w.up conn ((w.up conn).carry n) }
  | .carryDown conn n => some { w with down := Function.update w.down conn ((w.down conn).carry n) }
  | .receive conn =>
    match decode (serde ProtocolClient) (w.up conn).buffer with
    | (.ok (some msg), rest) =>
      (w.server.step (.receive conn msg.1 (ProtocolClient.WellFormed.valid msg.2))).map fun server =>
        { w with server := server, up := Function.update w.up conn { w.up conn with buffer := rest } }
    | (.ok none, _) => none
    | (.error _, _) => (w.server.step (.leave conn)).map fun server => { w with server := server }
  | .pass conn =>
    match w.server.stubs conn, w.channel conn with
    | .serving _, msg :: _ =>
      if wf : msg.WellFormed then
        some { w with
          passed := Function.update w.passed conn (w.passed conn + 1)
          down := Function.update w.down conn ((w.down conn).write (serde ProtocolServer) [⟨msg, wf⟩]) }
      else none
    | _, _ => none
  | .deliver conn order transport =>
    match decode (serde ProtocolServer) (w.down conn).buffer with
    | (.ok (some msg), rest) =>
      ((w.session conn).step
        (.turn (.msg msg.1) (ProtocolServer.WellFormed.valid msg.2) order transport)).bind
          (({ w with down := Function.update w.down conn { w.down conn with buffer := rest } } :
            Framed).setSession conn)
    | (.ok none, _) => none
    | (.error e, _) =>
      ((w.session conn).step (.turn (.lost e) trivial order transport)).bind (w.setSession conn)
  | .spillUp conn msg n =>
    if (w.session conn).status ≠ .running ∧ (w.up conn).broken = false ∧
        frameLen msg.1 < 2 ^ 32 ∧ n < (frame (serde ProtocolClient) msg).length then
      some { w with
        up := Function.update w.up conn ((w.up conn).spill (serde ProtocolClient) msg n) }
    else none
  | .spillDown conn msg n =>
    if (w.server.stubs conn).hasLeft = true ∧ (w.down conn).broken = false ∧
        frameLen msg.1 < 2 ^ 32 ∧ n < (frame (serde ProtocolServer) msg).length then
      some { w with
        down := Function.update w.down conn ((w.down conn).spill (serde ProtocolServer) msg n) }
    else none

/-- The states of the bus over bytes. -/
def Reachable : Prop := Lts.Reachable step init w

/-! ## What an action does -/

/-- What an action does. -/
inductive Moves : Framed → Prop
  | server {act : T2Bus.Act} {server : System} (h : w.server.step act = some server)
      (hact : ∀ conn msg valid, act ≠ .receive conn msg valid) : Moves { w with server := server }
  | client {conn : Conn} {act : Session.Act} {session : Session} {w' : Framed}
      (h : (w.session conn).step act = some session) (hact : Bus.Silent act)
      (hset : w.setSession conn session = some w') : Moves w'
  | carryUp (conn : Conn) (n : ℕ) :
      Moves { w with up := Function.update w.up conn ((w.up conn).carry n) }
  | carryDown (conn : Conn) (n : ℕ) :
      Moves { w with down := Function.update w.down conn ((w.down conn).carry n) }
  | receive {conn : Conn} {msg : WireMsg ProtocolClient} {rest : Cbor.Bytes} {server : System}
      (hdec : decode (serde ProtocolClient) (w.up conn).buffer = (.ok (some msg), rest))
      (h : w.server.step (.receive conn msg.1 (ProtocolClient.WellFormed.valid msg.2)) = some server) :
      Moves { w with
        server := server, up := Function.update w.up conn { w.up conn with buffer := rest } }
  | pass {conn : Conn} {c : ClientId} {msg : Msg ProtocolServer} {rest : List (Msg ProtocolServer)}
      (wf : ∀ m ∈ [msg], m.WellFormed) (hs : w.server.stubs conn = .serving c)
      (hc : w.channel conn = msg :: rest) :
      Moves { w with
        passed := Function.update w.passed conn (w.passed conn + 1)
        down := Function.update w.down conn
          ((w.down conn).write (serde ProtocolServer) ([msg].attachWith _ wf)) }
  | deliver {conn : Conn} {order : Order} {transport : Msg ProtocolClient → BusResult Unit}
      {msg : WireMsg ProtocolServer} {rest : Cbor.Bytes} {session : Session} {w' : Framed}
      (hdec : decode (serde ProtocolServer) (w.down conn).buffer = (.ok (some msg), rest))
      (h : (w.session conn).step (.turn (.msg msg.1) (ProtocolServer.WellFormed.valid msg.2) order
        transport) = some session)
      (hset : ({ w with down := Function.update w.down conn { w.down conn with buffer := rest } } :
        Framed).setSession conn session = some w') : Moves w'
  | spillUp {conn : Conn} {msg : WireMsg ProtocolClient} {n : ℕ}
      (hrun : (w.session conn).status ≠ .running) (hb : (w.up conn).broken = false)
      (hshort : frameLen msg.1 < 2 ^ 32) (hn : n < (frame (serde ProtocolClient) msg).length) :
      Moves { w with
        up := Function.update w.up conn ((w.up conn).spill (serde ProtocolClient) msg n) }
  | spillDown {conn : Conn} {msg : WireMsg ProtocolServer} {n : ℕ}
      (hleft : (w.server.stubs conn).hasLeft = true) (hb : (w.down conn).broken = false)
      (hshort : frameLen msg.1 < 2 ^ 32) (hn : n < (frame (serde ProtocolServer) msg).length) :
      Moves { w with
        down := Function.update w.down conn ((w.down conn).spill (serde ProtocolServer) msg n) }

variable {w} {w' : Framed} {conn : Conn}

theorem step_client {act : Session.Act} (h : w.step (.client conn act) = some w') :
    Bus.Silent act ∧ ((w.session conn).step act).bind (w.setSession conn) = some w' := by
  by_cases hact : Bus.Silent act
  · refine ⟨hact, ?_⟩
    rw [step] at h
    · exact h
    · exact hact
  · simp only [Bus.Silent, not_forall, not_not] at hact
    obtain ⟨msg, valid, order, transport, rfl⟩ := hact
    cases h

theorem silent_lost (e : BusError) (order : Order) (transport : Msg ProtocolClient → BusResult Unit) :
    Bus.Silent (.turn (.lost e) trivial order transport) := by
  intro msg valid order' transport' h
  cases h

theorem moves_of_step {act : Act} (h : w.step act = some w') : w.Moves w' := by
  cases act with
  | server act =>
    cases act with
    | receive conn msg valid => cases h
    | _ =>
      obtain ⟨server, hs, rfl⟩ := Option.map_eq_some_iff.mp h
      exact .server hs (by simp)
  | client conn act =>
    obtain ⟨hact, h⟩ := step_client h
    obtain ⟨session, hs, hset⟩ := Option.bind_eq_some_iff.mp h
    exact .client hs hact hset
  | carryUp conn n =>
    cases h
    exact .carryUp conn n
  | carryDown conn n =>
    cases h
    exact .carryDown conn n
  | receive conn =>
    rw [step] at h
    split at h
    · rename_i msg rest hdec
      obtain ⟨server, hs, rfl⟩ := Option.map_eq_some_iff.mp h
      exact .receive hdec hs
    · cases h
    · obtain ⟨server, hs, rfl⟩ := Option.map_eq_some_iff.mp h
      exact .server hs (by simp)
  | pass conn =>
    rw [step] at h
    split at h
    · rename_i c msg rest hs hc
      split_ifs at h with wf
      cases h
      exact .pass (List.forall_mem_singleton.mpr wf) hs hc
    · cases h
  | deliver conn order transport =>
    rw [step] at h
    split at h
    · rename_i msg rest hdec
      obtain ⟨session, hs, hset⟩ := Option.bind_eq_some_iff.mp h
      exact .deliver hdec hs hset
    · cases h
    · obtain ⟨session, hs, hset⟩ := Option.bind_eq_some_iff.mp h
      exact .client hs (silent_lost _ _ _) hset
  | spillUp conn msg n =>
    rw [step] at h
    split_ifs at h with hspill
    cases h
    exact .spillUp hspill.1 hspill.2.1 hspill.2.2.1 hspill.2.2.2
  | spillDown conn msg n =>
    rw [step] at h
    split_ifs at h with hspill
    cases h
    exact .spillDown hspill.1 hspill.2.1 hspill.2.2.1 hspill.2.2.2

theorem setSession_eq_some {session : Session} (h : w.setSession conn session = some w') :
    ∃ wf, w' = { w with
      session := Function.update w.session conn session
      up := Function.update w.up conn ((w.up conn).write (serde ProtocolClient)
        ((session.sent.drop (w.session conn).sent.length).attachWith Msg.WellFormed wf)) } := by
  rw [setSession] at h
  split_ifs at h with wf
  exact ⟨wf, (Option.some.inj h).symm⟩

theorem session_of_setSession {session : Session} (h : w.setSession conn session = some w') :
    w'.session conn = session := by
  obtain ⟨-, rfl⟩ := setSession_eq_some h
  exact Function.update_self ..

end Framed

end T2Bus
