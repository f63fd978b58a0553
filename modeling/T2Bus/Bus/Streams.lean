import T2Bus.Lib.Simulation
import T2Bus.Bus.Framed
import T2Bus.Client.Survival

/-!
# The bus over bytes is the bus over messages

The transports of a `Bus` carry messages, in order and whole. Those of a `Framed` carry bytes, in pieces.
The one simulates the other, in both directions.

* `Framed.Models`: the bytes on the wires are the messages in the queues of a `Bus`, with a lemma for each
  action;
* **`Framed.refines`**: what the bus does over bytes, it does over messages;
* **`Framed.reaches_same`**: what it does over messages, it does over bytes, if no message is too long.
-/

namespace T2Bus

open CborCodec

/-! ## Steps of the bus -/

namespace Bus

variable {b : Bus} {conn : Conn}

theorem step_of_server {act : T2Bus.Act} {server : System} (h : b.server.step act = some server)
    (hact : ∀ conn msg valid, act ≠ .receive conn msg valid) :
    b.step (.server act) = some { b with server := server } := by
  have hstep : b.step (.server act) =
      (b.server.step act).map fun server => { b with server := server } := by
    cases act with
    | receive conn msg valid => exact absurd rfl (hact conn msg valid)
    | _ => rfl
  rw [hstep, h]
  rfl

theorem step_of_client {act : Session.Act} {session : Session}
    (h : (b.session conn).step act = some session) (hact : Silent act) :
    b.step (.client conn act) = some (b.setSession conn session) := by
  rw [step, h]
  · rfl
  · exact hact

theorem step_of_receive {msg : Msg ProtocolClient} {rest : List (Msg ProtocolClient)}
    {valid : msg.content.Valid} {server : System} (hup : b.up conn = msg :: rest)
    (h : b.server.step (.receive conn msg valid) = some server) :
    b.step (.receive conn) =
      some { b with server := server, origins := b.origins ++ [conn] } := by
  simp [step, hup, valid, h]

theorem step_of_pass {c : ClientId} {msg : Msg ProtocolServer} {rest : List (Msg ProtocolServer)}
    (hs : b.server.stubs conn = .serving c) (hchannel : b.channel conn = msg :: rest) :
    b.step (.pass conn) =
      some { b with passed := Function.update b.passed conn (b.passed conn + 1) } := by
  simp [step, hs, hchannel]

theorem step_of_deliver {order : Order} {transport : Msg ProtocolClient → BusResult Unit}
    {msg : Msg ProtocolServer} {rest : List (Msg ProtocolServer)} {valid : (Event.msg msg).Valid}
    {session : Session} (hdown : b.down conn = msg :: rest)
    (h : (b.session conn).step (.turn (.msg msg) valid order transport) = some session) :
    b.step (.deliver conn order transport) = some (b.setSession conn session) := by
  simp [step, hdown, valid, h]

end Bus

namespace Framed

variable {w w' : Framed} {conn : Conn}

/-! ## Headers that hold the length -/

/-- The header of every frame holds the length of the message. -/
def Short (w : Framed) : Prop :=
  ∀ conn, (∀ msg ∈ (w.session conn).sent, frameLen msg < 2 ^ 32) ∧
    ∀ msg ∈ outOn w.server.log conn, frameLen msg < 2 ^ 32

/-- What was sent stays sent. -/
theorem Moves.grows (h : w.Moves w') (conn : Conn) :
    (w.session conn).sent <+: (w'.session conn).sent ∧
      outOn w.server.log conn <+: outOn w'.server.log conn := by
  have hset : ∀ {conn' act session}, (w.session conn').step act = some session →
      (w.session conn).sent <+: (Function.update w.session conn' session conn).sent := by
    intro conn' act session h
    by_cases hc : conn = conn'
    · subst hc
      rw [Function.update_self]
      exact Session.sent_step h
    · rw [Function.update_of_ne hc]
  cases h with
  | server h hact => exact ⟨List.prefix_rfl, System.out_step h conn⟩
  | client h hact hsome =>
    obtain ⟨-, rfl⟩ := setSession_eq_some hsome
    exact ⟨hset h, List.prefix_rfl⟩
  | receive hdec h => exact ⟨List.prefix_rfl, System.out_step h conn⟩
  | deliver hdec h hsome =>
    obtain ⟨-, rfl⟩ := setSession_eq_some hsome
    exact ⟨hset h, List.prefix_rfl⟩
  | _ => exact ⟨List.prefix_rfl, List.prefix_rfl⟩

theorem short_backward : Lts.Backward step Short := by
  intro w act w' hstep hshort conn
  obtain ⟨hsent, hout⟩ := (moves_of_step hstep).grows conn
  exact ⟨fun msg hmsg => (hshort conn).1 msg (hsent.subset hmsg),
    fun msg hmsg => (hshort conn).2 msg (hout.subset hmsg)⟩

/-! ## The simulation -/

/-- The bytes on the wires are the messages in the queues; who has left a part of a frame writes no
more. -/
structure Models (w : Framed) (b : Bus) : Prop where
  server : b.server = w.server
  session : b.session = w.session
  passed : b.passed = w.passed
  up : ∀ conn, (w.up conn).Carried (b.up conn)
  down : ∀ conn, (w.down conn).Carried (b.down conn)
  upBroken : ∀ conn, (w.up conn).broken = true → (w.session conn).status ≠ .running
  downBroken : ∀ conn, (w.down conn).broken = true → (w.server.stubs conn).hasLeft = true

theorem models_init : Models init .init where
  server := rfl
  session := rfl
  passed := rfl
  up _ := Wire.carried_empty
  down _ := Wire.carried_empty
  upBroken _ h := by cases h
  downBroken _ h := by cases h

/-- One wire changes. -/
theorem carried_update {T : Type} [Content T] {wires : Conn → Wire} {queue queue' : Conn → List (Msg T)}
    {wire : Wire} (h : ∀ conn, (wires conn).Carried (queue conn)) (hself : wire.Carried (queue' conn))
    (hother : ∀ conn' ≠ conn, queue' conn' = queue conn') (conn' : Conn) :
    (Function.update wires conn wire conn').Carried (queue' conn') := by
  by_cases hc : conn' = conn
  · rw [hc, Function.update_self]
    exact hself
  · rw [Function.update_of_ne hc, hother conn' hc]
    exact h conn'

theorem broken_update {wires : Conn → Wire} {wire : Wire} {P : Conn → Prop}
    (h : ∀ conn, (wires conn).broken = true → P conn) (hself : wire.broken = true → P conn)
    (conn' : Conn) (hb : (Function.update wires conn wire conn').broken = true) : P conn' := by
  by_cases hc : conn' = conn
  · subst hc
    rw [Function.update_self] at hb
    exact hself hb
  · rw [Function.update_of_ne hc] at hb
    exact h conn' hb

variable {b : Bus}

/-- A client takes a turn: its end writes what it sends, and has taken `got` off its buffer. -/
theorem Models.setSession (hm : w.Models b) (hf : b.Fifo) {act : Session.Act} {session : Session}
    (h : (w.session conn).step act = some session) {got : List (Msg ProtocolServer)}
    (hgot : Session.received session.log = Session.received (w.session conn).log ++ got)
    {down : Conn → Wire}
    (hdown : ∀ conn', (down conn').Carried
      (if conn' = conn then (b.down conn).drop got.length else b.down conn'))
    (hbroken : ∀ conn', (down conn').broken = (w.down conn').broken)
    (hset : ({ w with down := down } : Framed).setSession conn session = some w')
    (hshort : w'.Short) : w'.Models (b.setSession conn session) := by
  have hrun : (w.session conn).status = .running := (Session.step_eq_some.mp h).1
  have hb : (w.up conn).broken = false := by
    by_contra hb
    exact hm.upBroken conn (by simpa using hb) hrun
  have hlen : ∀ msg ∈ session.sent, frameLen msg < 2 ^ 32 := by
    have hlen := (hshort conn).1
    rwa [session_of_setSession hset] at hlen
  obtain ⟨wf, rfl⟩ := setSession_eq_some hset
  obtain ⟨new, hnew⟩ := Session.sent_step h
  obtain rfl : session.sent.drop (w.session conn).sent.length = new := by rw [← hnew, List.drop_left]
  have hup : ∀ conn', (b.setSession conn session).up conn' = if conn' = conn then
      b.up conn ++ session.sent.drop (w.session conn).sent.length else b.up conn' :=
    hf.up_setSession (by rw [hm.session, hnew])
  refine ⟨hm.server, ?_, hm.passed, ?_, fun conn' => ?_, fun conn' h' => ?_, fun conn' h' => ?_⟩
  · rw [Bus.setSession, hm.session]
  · refine carried_update hm.up ?_ fun conn' hc => by rw [hup, if_neg hc]
    rw [hup, if_pos rfl]
    exact (hm.up conn).write hb wf fun msg hmsg => hlen msg (List.mem_of_mem_drop hmsg)
  · rw [Bus.down_setSession (by rw [hm.session, hgot])]
    exact hdown conn'
  · change (Function.update w.up conn _ conn').broken = true at h'
    change (Function.update w.session conn session conn').status ≠ .running
    by_cases hc : conn' = conn
    · rw [hc, Function.update_self] at h'
      exact absurd (h'.symm.trans hb) (by decide)
    · rw [Function.update_of_ne hc] at h' ⊢
      exact hm.upBroken conn' h'
  · exact hm.downBroken conn' (hbroken conn' ▸ h')

theorem Models.server_step (hm : w.Models b) (hb : Bus.Reachable b) {act : T2Bus.Act} {server : System}
    (h : b.server.step act = some server) (hact : ∀ conn msg valid, act ≠ .receive conn msg valid) :
    ({ w with server := server } : Framed).Models { b with server := server } where
  server := rfl
  session := hm.session
  passed := hm.passed
  up conn := by
    rw [Bus.up_server h hact]
    exact hm.up conn
  down conn := by
    rw [hb.fifo.down_server h]
    exact hm.down conn
  upBroken := hm.upBroken
  downBroken conn hbroken :=
    System.hasLeft_step hb.server h (hm.server ▸ hm.downBroken conn hbroken)

theorem Models.carryUp (hm : w.Models b) (conn : Conn) (n : ℕ) :
    ({ w with up := Function.update w.up conn ((w.up conn).carry n) } : Framed).Models b :=
  ⟨hm.server, hm.session, hm.passed,
    carried_update hm.up ((hm.up conn).carry n) (fun _ _ => rfl), hm.down,
    broken_update hm.upBroken (hm.upBroken conn), hm.downBroken⟩

theorem Models.carryDown (hm : w.Models b) (conn : Conn) (n : ℕ) :
    ({ w with down := Function.update w.down conn ((w.down conn).carry n) } : Framed).Models b :=
  ⟨hm.server, hm.session, hm.passed, hm.up,
    carried_update hm.down ((hm.down conn).carry n) (fun _ _ => rfl), hm.upBroken,
    broken_update hm.downBroken (hm.downBroken conn)⟩

/-- A stub takes the first message off its buffer. -/
theorem Models.receive (hm : w.Models b) (hb : Bus.Reachable b) {msg : WireMsg ProtocolClient}
    {bytes : Cbor.Bytes} {rest : List (Msg ProtocolClient)} {server : System}
    (hup : b.up conn = msg.1 :: rest)
    (hcarried : ({ w.up conn with buffer := bytes } : Wire).Carried rest)
    (h : b.server.step (.receive conn msg.1 (ProtocolClient.WellFormed.valid msg.2)) = some server) :
    ({ w with
      server := server
      up := Function.update w.up conn { w.up conn with buffer := bytes } } : Framed).Models
        { b with server := server, origins := b.origins ++ [conn] } := by
  have hf := hb.fifo
  have hleft : ∀ conn', (w.down conn').broken = true → (server.stubs conn').hasLeft = true :=
    fun conn' hbroken => System.hasLeft_step hb.server h (hm.server ▸ hm.downBroken conn' hbroken)
  obtain ⟨c, hc, rfl⟩ := System.step_receive h
  refine ⟨rfl, hm.session, hm.passed, ?_, hm.down, broken_update hm.upBroken (hm.upBroken conn), hleft⟩
  refine carried_update hm.up ?_ fun conn' hne => by rw [hf.up_receive hup, if_neg hne]
  rw [hf.up_receive hup, if_pos rfl]
  exact hcarried

/-- A stub writes the next message of its channel. -/
theorem Models.pass (hm : w.Models b) (hf : b.Fifo) {c : ClientId} {msg : Msg ProtocolServer}
    {rest : List (Msg ProtocolServer)} (hs : b.server.stubs conn = .serving c)
    (hchannel : b.channel conn = msg :: rest) (wf : ∀ m ∈ [msg], m.WellFormed)
    (hmsg : frameLen msg < 2 ^ 32) :
    ({ w with
      passed := Function.update w.passed conn (w.passed conn + 1)
      down := Function.update w.down conn
        ((w.down conn).write (serde ProtocolServer) ([msg].attachWith _ wf)) } : Framed).Models
          { b with passed := Function.update b.passed conn (b.passed conn + 1) } := by
  have hbroken : (w.down conn).broken = false := by
    by_contra hbroken
    have hleft := hm.downBroken conn (by simpa using hbroken)
    rw [← hm.server, hs] at hleft
    cases hleft
  refine ⟨hm.server, hm.session, by rw [hm.passed], hm.up, ?_, hm.upBroken,
    broken_update hm.downBroken fun h => absurd (h.symm.trans hbroken) (by decide)⟩
  refine carried_update hm.down ?_ fun conn' hne => by rw [hf.down_pass hchannel, if_neg hne]
  rw [hf.down_pass hchannel, if_pos rfl]
  exact (hm.down conn).write hbroken wf (List.forall_mem_singleton.mpr hmsg)

/-- A client takes the first message off its buffer. -/
theorem Models.deliver (hm : w.Models b) (hf : b.Fifo) {order : Order}
    {transport : Msg ProtocolClient → BusResult Unit} {msg : WireMsg ProtocolServer}
    {bytes : Cbor.Bytes} {rest : List (Msg ProtocolServer)} {session : Session}
    (hdown : b.down conn = msg.1 :: rest)
    (hcarried : ({ w.down conn with buffer := bytes } : Wire).Carried rest)
    (h : (w.session conn).step (.turn (.msg msg.1) (ProtocolServer.WellFormed.valid msg.2) order
      transport) = some session)
    (hset : ({ w with down := Function.update w.down conn { w.down conn with buffer := bytes } } :
      Framed).setSession conn session = some w')
    (hshort : w'.Short) : w'.Models (b.setSession conn session) := by
  have hgot : Session.received session.log = Session.received (w.session conn).log ++ [msg.1] := by
    obtain ⟨tasks, -, rfl⟩ := Session.step_turn h
    exact Session.received_concat ..
  refine hm.setSession hf h hgot (fun conn' => ?_) (fun conn' => ?_) hset hshort
  · refine carried_update hm.down ?_ (fun conn' hne => if_neg hne) conn'
    rw [if_pos rfl, hdown]
    exact hcarried
  · by_cases hc : conn' = conn
    · rw [hc, Function.update_self]
    · rw [Function.update_of_ne hc]

/-- A client takes a turn without receiving anything. -/
theorem Models.client (hm : w.Models b) (hf : b.Fifo) {act : Session.Act} {session : Session}
    (h : (w.session conn).step act = some session) (hact : Bus.Silent act)
    (hset : w.setSession conn session = some w') (hshort : w'.Short) :
    w'.Models (b.setSession conn session) := by
  have hgot : Session.received session.log = Session.received (w.session conn).log ++ [] := by
    rw [Session.received_step h hact, List.append_nil]
  refine hm.setSession hf h hgot (fun conn' => ?_) (fun _ => rfl) hset hshort
  rw [List.length_nil, List.drop_zero]
  split_ifs with hc
  · exact hc ▸ hm.down conn'
  · exact hm.down conn'

/-- **Each action of the bus over bytes is one of the bus over messages**, or changes nothing there. -/
theorem Moves.simulate (h : w.Moves w') (hb : Bus.Reachable b) (hshort : w'.Short)
    (hm : w.Models b) : ∃ b', Lts.Reachable Bus.step b b' ∧ w'.Models b' := by
  cases h with
  | server h hact =>
    rw [← hm.server] at h
    exact ⟨_, Lts.Reachable.single (Bus.step_of_server h hact), hm.server_step hb h hact⟩
  | client h hact hset =>
    exact ⟨_, Lts.Reachable.single (Bus.step_of_client (hm.session ▸ h) hact),
      hm.client hb.fifo h hact hset hshort⟩
  | carryUp conn n => exact ⟨b, Lts.Reachable.refl b, hm.carryUp conn n⟩
  | carryDown conn n => exact ⟨b, Lts.Reachable.refl b, hm.carryDown conn n⟩
  | @receive conn msg bytes server hdec h =>
    obtain ⟨rest, hup, hcarried⟩ := (hm.up conn).decode_some hdec
    rw [← hm.server] at h
    exact ⟨_, Lts.Reachable.single (Bus.step_of_receive hup h), hm.receive hb hup hcarried h⟩
  | @pass conn c msg rest wf hs hc =>
    have hchannel : b.channel conn = msg :: rest := by
      rw [Bus.channel, hm.server, hm.passed]
      exact hc
    have hmsg : frameLen msg < 2 ^ 32 :=
      (hshort conn).2 msg (List.mem_of_mem_drop (hc ▸ List.mem_cons_self))
    rw [← hm.server] at hs
    exact ⟨_, Lts.Reachable.single (Bus.step_of_pass hs hchannel), hm.pass hb.fifo hs hchannel wf hmsg⟩
  | @deliver conn order transport msg bytes session _ hdec h hset =>
    obtain ⟨rest, hdown, hcarried⟩ := (hm.down conn).decode_some hdec
    exact ⟨_, Lts.Reachable.single (Bus.step_of_deliver hdown (hm.session ▸ h)),
      hm.deliver hb.fifo hdown hcarried h hset hshort⟩
  | @spillUp conn msg n hrun hbroken hmsg hn =>
    exact ⟨b, Lts.Reachable.refl b, hm.server, hm.session, hm.passed,
      carried_update hm.up ((hm.up conn).spill hbroken hmsg hn) (fun _ _ => rfl), hm.down,
      broken_update hm.upBroken (fun _ => hrun), hm.downBroken⟩
  | @spillDown conn msg n hleft hbroken hmsg hn =>
    exact ⟨b, Lts.Reachable.refl b, hm.server, hm.session, hm.passed, hm.up,
      carried_update hm.down ((hm.down conn).spill hbroken hmsg hn) (fun _ _ => rfl), hm.upBroken,
      broken_update hm.downBroken (fun _ => hleft)⟩

/-- The bytes on the wires are those of the messages in the queues of some state of the bus. -/
theorem Reachable.modelled (h : Reachable w) (hshort : w.Short) : ∃ b, Bus.Reachable b ∧ w.Models b :=
  Lts.Reachable.simulate short_backward models_init
    (fun _ _ _ _ _ hb hshort hm hstep => (moves_of_step hstep).simulate hb hshort hm) h hshort

/-- The readers of a connection do not fail, unless a message is too long or a write has failed: whatever
has arrived of a frame, the decoder waits for the rest. -/
structure Decodes (w : Framed) (b : Bus) (conn : Conn) : Prop where
  up : (w.up conn).broken = false → (∀ msg ∈ b.up conn, frameLen msg ≤ maxMessageSizeBytes) →
    ∀ e rest, decode (serde ProtocolClient) (w.up conn).buffer ≠ (.error e, rest)
  down : (w.down conn).broken = false → (∀ msg ∈ b.down conn, frameLen msg ≤ maxMessageSizeBytes) →
    ∀ e rest, decode (serde ProtocolServer) (w.down conn).buffer ≠ (.error e, rest)

/-- **The bus over bytes refines the bus over messages.** Whatever the order of its steps, the sizes of
the pieces in which the bytes arrive, and the writes that fail, the server and the clients are in states
that they can be in when the transports carry messages, and the bytes on each wire are the frames of the
messages that wait there. -/
theorem refines (h : Reachable w) (hshort : w.Short) :
    ∃ b, Bus.Reachable b ∧ w.Models b ∧ ∀ conn, w.Decodes b conn := by
  obtain ⟨b, hb, hm⟩ := h.modelled hshort
  exact ⟨b, hb, hm, fun conn => ⟨fun hbroken hlen _ _ => (hm.up conn).decode_ok hbroken hlen,
    fun hbroken hlen _ _ => (hm.down conn).decode_ok hbroken hlen⟩⟩

/-! ## Nothing is lost -/

/-- No message is longer than the decoder accepts. -/
def Fits (server : System) (session : Conn → Session) : Prop :=
  ∀ conn, (∀ msg ∈ (session conn).sent, msg.WellFormed ∧ frameLen msg ≤ maxMessageSizeBytes) ∧
    ∀ msg ∈ outOn server.log conn, msg.WellFormed ∧ frameLen msg ≤ maxMessageSizeBytes

theorem Fits.short (h : Fits w.server w.session) : w.Short := by
  have hmax : maxMessageSizeBytes < 2 ^ 32 := by decide
  exact fun conn => ⟨fun msg hmsg => ((h conn).1 msg hmsg).2.trans_lt hmax,
    fun msg hmsg => ((h conn).2 msg hmsg).2.trans_lt hmax⟩

theorem fits_backward : Lts.Backward Bus.step fun b => Fits b.server b.session := by
  intro b act b' hstep hfits conn
  have hm := Bus.moves_of_step hstep
  have hsent : (b.session conn).sent <+: (b'.session conn).sent := by
    rcases hm.session_step conn with heq | ⟨_, hs⟩
    · rw [heq]
    · exact Session.sent_step hs
  have hout : outOn b.server.log conn <+: outOn b'.server.log conn := by
    rcases hm.server_step with heq | ⟨_, hs⟩
    · rw [heq]
    · exact System.out_step hs conn
  exact ⟨fun msg hmsg => (hfits conn).1 msg (hsent.subset hmsg),
    fun msg hmsg => (hfits conn).2 msg (hout.subset hmsg)⟩

/-- A session whose messages are well-formed can write them. -/
theorem setSession_of_wellFormed (w : Framed) (conn : Conn) {session : Session}
    (wf : ∀ msg ∈ session.sent, msg.WellFormed) : ∃ w', w.setSession conn session = some w' ∧
      w'.server = w.server ∧ w'.session = Function.update w.session conn session := by
  refine ⟨_, dif_pos fun msg hmsg => wf msg (List.mem_of_mem_drop hmsg), rfl, rfl⟩

theorem step_of_server {act : T2Bus.Act} {server : System} (h : w.server.step act = some server)
    (hact : ∀ conn msg valid, act ≠ .receive conn msg valid) :
    w.step (.server act) = some { w with server := server } := by
  have hstep : w.step (.server act) =
      (w.server.step act).map fun server => { w with server := server } := by
    cases act with
    | receive conn msg valid => exact absurd rfl (hact conn msg valid)
    | _ => rfl
  rw [hstep, h]
  rfl

theorem step_of_client {act : Session.Act} {session : Session}
    (h : (w.session conn).step act = some session) (hact : Bus.Silent act) :
    w.step (.client conn act) = w.setSession conn session := by
  rw [step, h]
  · rfl
  · exact hact

theorem step_of_receive {msg : WireMsg ProtocolClient} {rest : Cbor.Bytes} {server : System}
    (hdec : decode (serde ProtocolClient) (w.up conn).buffer = (.ok (some msg), rest))
    (h : w.server.step (.receive conn msg.1 (ProtocolClient.WellFormed.valid msg.2)) = some server) :
    w.step (.receive conn) = some { w with
      server := server, up := Function.update w.up conn { w.up conn with buffer := rest } } := by
  rw [step, hdec]
  simp only [h, Option.map_some]

theorem step_of_pass {c : ClientId} {msg : Msg ProtocolServer} {rest : List (Msg ProtocolServer)}
    (hs : w.server.stubs conn = .serving c) (hchannel : w.channel conn = msg :: rest)
    (wf : msg.WellFormed) :
    w.step (.pass conn) = some { w with
      passed := Function.update w.passed conn (w.passed conn + 1)
      down := Function.update w.down conn
        ((w.down conn).write (serde ProtocolServer) [⟨msg, wf⟩]) } := by
  rw [step, hs, hchannel]
  exact dif_pos wf

theorem step_of_deliver {order : Order} {transport : Msg ProtocolClient → BusResult Unit}
    {msg : WireMsg ProtocolServer} {rest : Cbor.Bytes} {session : Session}
    (hdec : decode (serde ProtocolServer) (w.down conn).buffer = (.ok (some msg), rest))
    (h : (w.session conn).step (.turn (.msg msg.1) (ProtocolServer.WellFormed.valid msg.2) order
      transport) = some session) :
    w.step (.deliver conn order transport) =
      ({ w with down := Function.update w.down conn { w.down conn with buffer := rest } } :
        Framed).setSession conn session := by
  rw [step, hdec]
  simp only [h, Option.bind_some]

/-- **Each action of the bus over messages can be taken over bytes**: the network carries over what is in
flight before somebody polls. -/
theorem realize (hb : Bus.Reachable b) {b' : Bus} {act : Bus.Act} (hstep : b.step act = some b')
    (hfits : Fits b'.server b'.session) (hm : w.Models b) :
    ∃ w', Lts.Reachable step w w' ∧ w'.Models b' := by
  have hf := hb.fifo
  have hfits₀ : Fits b.server b.session := fits_backward b act b' hstep hfits
  cases Bus.moves_of_step hstep with
  | server h hact =>
    exact ⟨_, Lts.Reachable.single (step_of_server (hm.server ▸ h) hact), hm.server_step hb h hact⟩
  | @client conn act session h hact =>
    have hwf : ∀ msg ∈ session.sent, msg.WellFormed := by
      have hsent := (hfits conn).1
      rw [Bus.setSession_self] at hsent
      exact fun msg hmsg => (hsent msg hmsg).1
    rw [hm.session] at h
    obtain ⟨w', hset, hserver, hsession⟩ := setSession_of_wellFormed w conn hwf
    refine ⟨w', Lts.Reachable.single ((step_of_client h hact).trans hset),
      hm.client hf h hact hset (Fits.short ?_)⟩
    rw [hserver, hsession, ← hm.server, ← hm.session]
    exact hfits
  | @receive conn msg rest valid server hup h =>
    obtain ⟨w₁, hcarry, hm₁, hflight⟩ : ∃ w₁, w.step (.carryUp conn (w.up conn).flight.length) = some w₁ ∧
        w₁.Models b ∧ (w₁.up conn).flight = [] :=
      ⟨_, rfl, hm.carryUp conn _, by simp [Wire.carry]⟩
    have hlen := ((hfits₀ conn).1 msg (List.mem_of_mem_drop (hup ▸ List.mem_cons_self))).2
    obtain ⟨value, bytes, rfl, hdec, hcarried⟩ := (hup ▸ hm₁.up conn).decode_arrived hflight hlen
    exact ⟨_, (Lts.Reachable.single hcarry).tail (step_of_receive hdec (hm₁.server ▸ h)),
      hm₁.receive hb hup hcarried h⟩
  | @pass conn c msg rest hs hc =>
    have hwf := (hfits₀ conn).2 msg (List.mem_of_mem_drop (hc ▸ List.mem_cons_self))
    have hchannel : w.channel conn = msg :: rest := by
      rw [channel, ← hm.server, ← hm.passed]
      exact hc
    have hmax : maxMessageSizeBytes < 2 ^ 32 := by decide
    exact ⟨_, Lts.Reachable.single (step_of_pass (hm.server ▸ hs) hchannel hwf.1),
      hm.pass hf hs hc (List.forall_mem_singleton.mpr hwf.1) (hwf.2.trans_lt hmax)⟩
  | @deliver conn order transport msg rest valid session hdown h =>
    obtain ⟨w₁, hcarry, hm₁, hflight⟩ : ∃ w₁, w.step (.carryDown conn (w.down conn).flight.length) =
        some w₁ ∧ w₁.Models b ∧ (w₁.down conn).flight = [] :=
      ⟨_, rfl, hm.carryDown conn _, by simp [Wire.carry]⟩
    have hmem : msg ∈ outOn b.server.log conn :=
      List.mem_of_mem_take (List.mem_of_mem_drop (hdown ▸ List.mem_cons_self))
    obtain ⟨value, bytes, rfl, hdec, hcarried⟩ :=
      (hdown ▸ hm₁.down conn).decode_arrived hflight ((hfits₀ conn).2 msg hmem).2
    have hwf : ∀ msg ∈ session.sent, msg.WellFormed := by
      have hsent := (hfits conn).1
      rw [Bus.setSession_self] at hsent
      exact fun msg hmsg => (hsent msg hmsg).1
    rw [hm₁.session] at h
    obtain ⟨w', hset, hserver, hsession⟩ := setSession_of_wellFormed
      { w₁ with down := Function.update w₁.down conn { w₁.down conn with buffer := bytes } } conn hwf
    refine ⟨w', (Lts.Reachable.single hcarry).tail ((step_of_deliver hdec h).trans hset),
      hm₁.deliver hf hdown hcarried h hset (Fits.short ?_)⟩
    rw [hserver, hsession]
    change Fits w₁.server (Function.update w₁.session conn session)
    rw [← hm₁.server, ← hm₁.session]
    exact hfits

/-- **The bus reaches the same states over bytes as over messages**, as long as no message is longer than
the decoder accepts. -/
theorem reaches_same {server : System} {session : Conn → Session} (hfits : Fits server session) :
    (∃ w, Reachable w ∧ w.server = server ∧ w.session = session) ↔
      ∃ b, Bus.Reachable b ∧ b.server = server ∧ b.session = session := by
  constructor
  · rintro ⟨w, hw, rfl, rfl⟩
    obtain ⟨b, hb, hm⟩ := hw.modelled hfits.short
    exact ⟨b, hb, hm.server, hm.session⟩
  · rintro ⟨b, hb, rfl, rfl⟩
    obtain ⟨w, hw, hm⟩ := Lts.Reachable.simulate (R := fun (b : Bus) (w : Framed) => w.Models b)
      fits_backward models_init (fun _ _ _ _ hb _ hfits hm hstep => realize hb hstep hfits hm) hb hfits
    exact ⟨w, hw, hm.server.symm, hm.session.symm⟩

/-! ## A subscription over bytes -/

/-- The connection whose client acts. -/
def Act.client? : Act → Option Conn
  | .client conn _ | .deliver conn _ _ => some conn
  | _ => none

/-- A client that does not act stays as it is. -/
theorem session_step_of_ne {act : Act} (h : w.step act = some w') (hne : act.client? ≠ some conn) :
    w'.session conn = w.session conn := by
  have hset : ∀ {v : Framed} {conn' session}, v.setSession conn' session = some w' →
      v.session = w.session → some conn' ≠ some conn → w'.session conn = w.session conn := by
    intro v conn' session hset hv hne
    obtain ⟨-, rfl⟩ := setSession_eq_some hset
    rw [← hv]
    exact Function.update_of_ne (fun hc => hne (congrArg some hc.symm)) ..
  cases act with
  | client conn' act =>
    obtain ⟨session, -, h⟩ := Option.bind_eq_some_iff.mp (step_client h).2
    exact hset h rfl hne
  | deliver conn' order transport =>
    rw [step] at h
    split at h
    · obtain ⟨session, -, h⟩ := Option.bind_eq_some_iff.mp h
      exact hset h rfl hne
    · cases h
    · obtain ⟨session, -, h⟩ := Option.bind_eq_some_iff.mp h
      exact hset h rfl hne
  | server act =>
    cases act with
    | receive conn msg valid => cases h
    | _ =>
      obtain ⟨server, -, rfl⟩ := Option.map_eq_some_iff.mp h
      rfl
  | carryUp conn' n | carryDown conn' n =>
    cases h
    rfl
  | receive conn' =>
    rw [step] at h
    split at h
    · obtain ⟨server, -, rfl⟩ := Option.map_eq_some_iff.mp h
      rfl
    · cases h
    · obtain ⟨server, -, rfl⟩ := Option.map_eq_some_iff.mp h
      rfl
  | pass conn' =>
    rw [step] at h
    split at h
    · split_ifs at h
      cases h
      rfl
    · cases h
  | spillUp conn' msg n | spillDown conn' msg n =>
    rw [step] at h
    split_ifs at h
    cases h
    rfl

theorem session_of_run {as : List Act} (h : Lts.run step init as = some w)
    (hno : ∀ act ∈ as, act.client? ≠ some conn) : w.session conn = .init := by
  revert hno
  refine Lts.run_induct (P := fun as w => (∀ act ∈ as, Act.client? act ≠ some conn) →
    w.session conn = .init) (fun _ => rfl) (fun as s act s' _ ih hstep hno => ?_) h
  obtain ⟨hno, hact⟩ := List.forall_mem_append.mp hno
  rw [session_step_of_ne hstep (hact act (List.mem_singleton_self act)), ih hno]

/-- A client subscribes; its message and the Ack arrive in two pieces each. -/
def subscribing : List Act :=
  [.server (.connect 0), .server (.process .given),
    .client 0 (.subscribe Session.served Session.served_valid),
    .client 0 (.turn (.task (.sub ⟨⟨Session.served⟩, 0, 0⟩)) trivial .given fun _ => .ok ()),
    .carryUp 0 7, .carryUp 0 100, .receive 0, .server (.process .given), .pass 0, .carryDown 0 3,
    .carryDown 0 100, .deliver 0 .given fun _ => .ok ()]

/-- The bus over bytes ends where the client has its Ack, and all messages fit. -/
theorem fits_subscribing : ∃ w, Lts.run step init subscribing = some w ∧
    (Session.received (w.session 0).log).length = 1 ∧ Fits w.server w.session := by
  have hrun : (Lts.run step init subscribing).map (fun w =>
      ((Session.received (w.session 0).log).length,
        decide (∀ msg ∈ (w.session 0).sent, msg.WellFormed ∧ frameLen msg ≤ maxMessageSizeBytes),
        decide (∀ r ∈ w.server.log, ∀ d ∈ r.exec.2.out,
          d.msg.WellFormed ∧ frameLen d.msg ≤ maxMessageSizeBytes))) = some (1, true, true) := by
    decide +kernel
  obtain ⟨w, hw, heq⟩ := Option.map_eq_some_iff.mp hrun
  simp only [Prod.mk.injEq, decide_eq_true_eq] at heq
  obtain ⟨hreceived, hsent, hout⟩ := heq
  refine ⟨w, hw, hreceived, fun conn => ⟨?_, fun msg hmsg => ?_⟩⟩
  · by_cases hc : conn = 0
    · exact hc ▸ hsent
    · have hinit : w.session conn = .init := session_of_run hw (by
        simp [subscribing, Act.client?, Ne.symm hc])
      rw [hinit]
      simp [Session.init]
  · obtain ⟨r, hr, hmsg⟩ := List.mem_flatMap.mp hmsg
    obtain ⟨d, hd, hon⟩ := List.mem_filterMap.mp hmsg
    rw [Delivery.on?] at hon
    split_ifs at hon
    cases hon
    exact hout r hr d hd

/-- The bus over messages has the client's Ack too. -/
theorem refines_subscribing : ∃ w, Lts.run step init subscribing = some w ∧ ∃ b, Bus.Reachable b ∧
    w.Models b ∧ (Session.received (b.session 0).log).length = 1 := by
  obtain ⟨w, hw, hreceived, hfits⟩ := fits_subscribing
  obtain ⟨b, hb, hm, -⟩ := refines ⟨_, hw⟩ hfits.short
  exact ⟨w, hw, b, hb, hm, by rw [hm.session, hreceived]⟩

theorem reaches_same_subscribing : ∃ w, Lts.run step init subscribing = some w ∧
    (Session.received (w.session 0).log).length = 1 ∧
      ((∃ w', Reachable w' ∧ w'.server = w.server ∧ w'.session = w.session) ↔
        ∃ b, Bus.Reachable b ∧ b.server = w.server ∧ b.session = w.session) := by
  obtain ⟨w, hw, hreceived, hfits⟩ := fits_subscribing
  exact ⟨w, hw, hreceived, reaches_same hfits⟩

end Framed

end T2Bus
