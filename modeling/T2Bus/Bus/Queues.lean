import T2Bus.Bus.Fifo

/-!
# What an action does to the queues

A message goes into the back of one of the queues of its connection, and comes out at the front: `up` from
the client to its stub, `channel` from the core to the stub, `down` from the stub to the client.

* `up_server`, `Fifo.channel_server`, `Fifo.down_server`: the server puts messages into channels;
* `Fifo.up_receive`, `channel_pass`, `Fifo.down_pass`: a stub takes one, or passes one on;
* `Fifo.up_setSession`, `down_setSession`: a client sends some messages, and takes some.
-/

namespace T2Bus

namespace Bus

variable {b : Bus} {conn : Conn} {c : ClientId}

/-! ## The server -/

section Server

variable {act : T2Bus.Act} {server : System}

theorem up_server (hs : b.server.step act = some server)
    (hact : ∀ conn msg valid, act ≠ .receive conn msg valid) (conn : Conn) :
    Bus.up { b with server := server } conn = b.up conn := by
  rw [up, up, arrived, arrived]
  simp only [System.arrivals_step hs hact]

theorem Fifo.channel_server (hf : Fifo b) {out : List (Msg ProtocolServer)}
    (hout : outOn server.log conn = outOn b.server.log conn ++ out) :
    Bus.channel { b with server := server } conn = b.channel conn ++ out := by
  rw [channel, channel, hout]
  exact List.drop_append_of_le_length (hf.passed conn)

theorem Fifo.down_server (hf : Fifo b) (hs : b.server.step act = some server) (conn : Conn) :
    Bus.down { b with server := server } conn = b.down conn := by
  obtain ⟨out, hout⟩ := System.out_step hs conn
  rw [Bus.down, Bus.down, ← hout]
  simp only [List.take_append_of_le_length (hf.passed conn)]

end Server

/-! ## The stubs -/

theorem Fifo.up_receive (hf : Fifo b) {msg : Msg ProtocolClient} {rest : List (Msg ProtocolClient)}
    (hup : b.up conn = msg :: rest) (conn' : Conn) :
    Bus.up { b with
        server := b.server.enqueue (.message c msg), origins := b.origins ++ [conn] } conn' =
      if conn' = conn then rest else b.up conn' := by
  rw [Bus.up, hf.arrived_receive]
  split_ifs with h h' h'
  · rw [h', List.length_append, List.length_singleton, ← List.drop_drop]
    change (b.up conn).drop 1 = rest
    rw [hup]
    rfl
  · exact absurd h.symm h'
  · exact absurd h'.symm h
  · rw [List.append_nil]
    rfl

theorem channel_pass {msg : Msg ProtocolServer} {rest : List (Msg ProtocolServer)}
    (hchannel : b.channel conn = msg :: rest) (conn' : Conn) :
    Bus.channel { b with passed := Function.update b.passed conn (b.passed conn + 1) } conn' =
      if conn' = conn then rest else b.channel conn' := by
  rw [channel]
  split_ifs with h
  · subst h
    simp only [Function.update_self]
    rw [← List.drop_drop]
    change (b.channel conn').drop 1 = rest
    rw [hchannel]
    rfl
  · simp only [Function.update_of_ne h]
    rfl

theorem Fifo.down_pass (hf : Fifo b) {msg : Msg ProtocolServer} {rest : List (Msg ProtocolServer)}
    (hchannel : b.channel conn = msg :: rest) (conn' : Conn) :
    Bus.down { b with passed := Function.update b.passed conn (b.passed conn + 1) } conn' =
      if conn' = conn then b.down conn ++ [msg] else b.down conn' := by
  rw [Bus.down]
  split_ifs with h
  · subst h
    simp only [Function.update_self]
    have hmsg : (outOn b.server.log conn')[b.passed conn']? = some msg := by
      rw [← List.head?_drop]
      change (b.channel conn').head? = some msg
      rw [hchannel]
      rfl
    rw [List.take_add_one, hmsg, Bus.down]
    exact List.drop_append_of_le_length (hf.down conn').length_le
  · simp only [Function.update_of_ne h]
    rfl

/-! ## The clients -/

section Client

variable {session : Session}

theorem Fifo.up_setSession (hf : Fifo b) {new : List (Msg ProtocolClient)}
    (hsent : session.sent = (b.session conn).sent ++ new) (conn' : Conn) :
    (b.setSession conn session).up conn' = if conn' = conn then b.up conn ++ new else b.up conn' := by
  rw [Bus.up]
  split_ifs with h
  · subst h
    rw [setSession_self, hsent]
    exact List.drop_append_of_le_length (hf.up conn').length_le
  · rw [setSession_of_ne h]
    rfl

theorem down_setSession {got : List (Msg ProtocolServer)}
    (hgot : Session.received session.log = Session.received (b.session conn).log ++ got)
    (conn' : Conn) :
    (b.setSession conn session).down conn' =
      if conn' = conn then (b.down conn).drop got.length else b.down conn' := by
  rw [down]
  split_ifs with h
  · subst h
    rw [setSession_self, hgot, List.length_append, ← List.drop_drop]
    rfl
  · rw [setSession_of_ne h]
    rfl

end Client

end Bus

end T2Bus
