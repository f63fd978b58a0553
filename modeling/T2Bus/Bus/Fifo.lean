import T2Bus.Bus.Run
import T2Bus.Client.Calls

/-!
# The queues of the bus

What has arrived at one end of a connection is a prefix of what went in at the other.

* `System.out_step`: a channel only grows;
* `Session.received_step`;
* `Bus.Fifo`; **`Bus.Reachable.fifo`**;
* `Bus.Reachable.messages`: the messages of a client at the server, when no client id is used twice.
-/

namespace T2Bus

namespace System

variable {s s' : System} {act : Act}

theorem log_step (h : s.step act = some s') : s.log <+: s'.log := by
  obtain ⟨-, hq | ⟨order, task, tasks, -, rfl⟩⟩ := quiet_or_processed h
  · rw [hq.log]
  · exact List.prefix_append ..

/-- A channel only grows. -/
theorem out_step (h : s.step act = some s') (conn : Conn) : outOn s.log conn <+: outOn s'.log conn := by
  obtain ⟨log, hlog⟩ := log_step h
  rw [← hlog, outOn, outOn, List.flatMap_append]
  exact List.prefix_append ..

end System

namespace Session

variable {s s' : Session} {act : Act}

/-- The application takes no turn. -/
theorem log_step (h : s.step act = some s') :
    (∃ event valid order transport, act = .turn event valid order transport) ∨ s'.log = s.log := by
  rcases queues_step h with ⟨-, -, -, hlog, -⟩ | ⟨event, valid, order, transport, tasks, rfl, -⟩
  · exact Or.inr hlog
  · exact Or.inl ⟨event, valid, order, transport, rfl⟩

theorem received_step (h : s.step act = some s') (hact : Bus.Silent act) :
    received s'.log = received s.log := by
  rcases log_step h with ⟨event, valid, order, transport, rfl⟩ | hlog
  · obtain ⟨tasks, -, rfl⟩ := step_turn h
    rw [turned, received_concat]
    cases event with
    | msg msg => exact absurd rfl (hact msg valid order transport)
    | _ => exact List.append_nil _
  · rw [hlog]

end Session

/-! ## Prefixes -/

/-- A prefix grows by the element behind it. -/
theorem prefix_concat_of_drop {α : Type*} {l l' rest : List α} {x : α} (h : l <+: l')
    (hdrop : l'.drop l.length = x :: rest) : l ++ [x] <+: l' := by
  obtain ⟨t, rfl⟩ := h
  rw [List.drop_left] at hdrop
  exact ⟨rest, by rw [hdrop, List.append_assoc]; rfl⟩

namespace Bus

variable {b b' : Bus} {conn : Conn} {c : ClientId}

/-- What has arrived is a prefix of what was sent. -/
structure Fifo (b : Bus) : Prop where
  length : b.origins.length = b.server.arrivals.length
  client : ∀ x ∈ b.origins.zip b.server.arrivals, (b.server.stubs x.1).client? = some x.2.1
  up : ∀ conn, b.arrived conn <+: (b.session conn).sent
  down : ∀ conn, Session.received (b.session conn).log <+: (outOn b.server.log conn).take (b.passed conn)
  passed : ∀ conn, b.passed conn ≤ (outOn b.server.log conn).length

theorem fifo_init : Fifo init where
  length := rfl
  client _ hx := by cases hx
  up _ := List.nil_prefix
  down _ := List.nil_prefix
  passed _ := Nat.zero_le _

/-- What a stub receives has arrived. -/
theorem Fifo.arrived_receive (hi : Fifo b) (conn conn' : Conn) (msg : Msg ProtocolClient) :
    Bus.arrived { b with
        server := b.server.enqueue (.message c msg), origins := b.origins ++ [conn'] } conn =
      b.arrived conn ++ if conn' = conn then [msg] else [] := by
  rw [arrived, System.arrivals_enqueue, List.zip_append hi.length, List.filterMap_append, arrived]
  congr 1
  by_cases h : conn' = conn <;> simp [Task.message?, h]

/-- What was passed on stays passed on while the channels grow. -/
theorem Fifo.down_step (hi : Fifo b) {server : System} {act : T2Bus.Act}
    (h : b.server.step act = some server) (conn : Conn) :
    Session.received (b.session conn).log <+: (outOn server.log conn).take (b.passed conn) ∧
      b.passed conn ≤ (outOn server.log conn).length := by
  obtain ⟨out, hout⟩ := System.out_step h conn
  rw [← hout, List.take_append_of_le_length (hi.passed conn), List.length_append]
  exact ⟨hi.down conn, (hi.passed conn).trans (Nat.le_add_right _ _)⟩

/-- The queues of the other connections are as they were. -/
theorem Fifo.setSession (hi : Fifo b) {session : Session}
    (hsent : (b.session conn).sent <+: session.sent)
    (hreceived : Session.received session.log <+: (outOn b.server.log conn).take (b.passed conn)) :
    Fifo (b.setSession conn session) where
  length := hi.length
  client := hi.client
  up conn' := by
    by_cases hc : conn' = conn
    · rw [hc, setSession_self]
      exact (hi.up conn).trans hsent
    · rw [setSession_of_ne hc]
      exact hi.up conn'
  down conn' := by
    by_cases hc : conn' = conn
    · rw [hc, setSession_self]
      exact hreceived
    · rw [setSession_of_ne hc]
      exact hi.down conn'
  passed := hi.passed

theorem Fifo.moves (hi : Fifo b) (hb : Reachable b) (h : b.Moves b') : Fifo b' := by
  cases h with
  | server h hact =>
    have harr := System.arrivals_step h hact
    refine ⟨harr ▸ hi.length, fun x hx => ?_, fun conn => ?_, fun conn => (hi.down_step h conn).1,
      fun conn => (hi.down_step h conn).2⟩
    · exact System.client_step hb.server h (hi.client x (harr ▸ hx))
    · rw [arrived, harr]
      exact hi.up conn
  | client h hact =>
    refine hi.setSession (Session.sent_step h) ?_
    rw [Session.received_step h hact]
    exact hi.down _
  | @receive conn msg rest valid server hup h =>
    have hdown := hi.down_step h
    obtain ⟨c, hc, rfl⟩ := System.step_receive h
    refine ⟨?_, fun x hx => ?_, fun conn' => ?_, fun conn' => (hdown conn').1,
      fun conn' => (hdown conn').2⟩
    · rw [System.arrivals_enqueue, List.length_append, List.length_append, hi.length]
      rfl
    · rw [System.arrivals_enqueue, List.zip_append hi.length, List.mem_append] at hx
      rcases hx with hx | hx
      · exact hi.client x hx
      · cases List.mem_singleton.mp hx
        change (b.server.stubs conn).client? = some c
        rw [hc]
        rfl
    · rw [hi.arrived_receive]
      split_ifs with he
      · rw [← he]
        exact prefix_concat_of_drop (hi.up conn) hup
      · rw [List.append_nil]
        exact hi.up conn'
  | @pass conn c msg rest hs hc =>
    refine ⟨hi.length, hi.client, hi.up, fun conn' => ?_, fun conn' => ?_⟩
    · refine (hi.down conn').trans (List.take_prefix_take_left ?_)
      change b.passed conn' ≤ Function.update b.passed conn (b.passed conn + 1) conn'
      by_cases he : conn' = conn
      · rw [he, Function.update_self]
        exact Nat.le_succ _
      · rw [Function.update_of_ne he]
    · change Function.update b.passed conn (b.passed conn + 1) conn' ≤ (outOn b.server.log conn').length
      by_cases he : conn' = conn
      · rw [he, Function.update_self]
        by_contra hlen
        have hnil : b.channel conn = [] := List.drop_eq_nil_of_le (by omega)
        rw [hnil] at hc
        cases hc
      · rw [Function.update_of_ne he]
        exact hi.passed conn'
  | @deliver conn order transport msg rest valid session hdown h =>
    have hsent := Session.sent_step h
    obtain ⟨tasks, -, rfl⟩ := Session.step_turn h
    refine hi.setSession hsent ?_
    rw [Session.turned, Session.received_concat]
    exact prefix_concat_of_drop (hi.down conn) hdown

/-- **The transports, the channels and the task queue keep the order.** -/
theorem Reachable.fifo (h : Reachable b) : Fifo b :=
  Reachable.induct fifo_init (fun _ _ hb hi hm => hi.moves hb hm) h

/-! ## Messages by client -/

/-- **The messages of a client at the server are those that its connection has sent**, when no client
id was given twice. -/
theorem Reachable.messages (h : Reachable b) (hreg : registrations b.server.log < 2 ^ 32)
    (hc : (b.server.stubs conn).client? = some c) :
    messagesOf c b.server.log ++ queuedOf c b.server.tasks = b.arrived conn := by
  have hfrom : ∀ task : Task, task.from? c =
      task.message?.bind fun x => if x.1 = c then some x.2 else none := by
    intro task
    cases task <;> rfl
  have harr : messagesOf c b.server.log ++ queuedOf c b.server.tasks =
      b.server.arrivals.filterMap fun x => if x.1 = c then some x.2 else none := by
    rw [System.arrivals, List.filterMap_filterMap, List.filterMap_append, List.filterMap_map,
      messagesOf, queuedOf]
    exact congrArg₂ (· ++ ·) (List.filterMap_congr fun r _ => hfrom r.task)
      (List.filterMap_congr fun task _ => hfrom task)
  have hzip : b.server.arrivals = (b.origins.zip b.server.arrivals).map Prod.snd :=
    (List.map_snd_zip h.fifo.length.ge).symm
  rw [harr, hzip, List.filterMap_map, arrived]
  refine List.filterMap_congr fun x hx => ?_
  have hx := h.fifo.client x hx
  -- the client and the connection determine each other
  have hiff : x.2.1 = c ↔ x.1 = conn := by
    constructor
    · intro he
      exact h.server.client_inj hreg (he ▸ hx) hc
    · rintro he
      rw [he, hc] at hx
      exact (Option.some.inj hx).symm
  simp only [Function.comp_apply, hiff]

end Bus

end T2Bus
