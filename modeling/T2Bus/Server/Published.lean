import T2Bus.Lib.Sublist
import T2Bus.Server.Publish
import T2Bus.Server.Channels
import Mathlib.Data.List.Flatten

/-!
# The order of the publications

The core puts a publication into a channel at most once, while it processes its Pub task. So the
publications in a channel are some of the Pub tasks, in the order in which they were processed.

* `pubTasks`: the Pub tasks of a log, with their places in it;
* `placedOut`: what went into a channel, with the places of the tasks that put it there;
* **`System.Reachable.pubs_placedOut`**.
-/

namespace T2Bus

def ProtocolClient.pub? : ProtocolClient → Option PubMsg
  | .pub params => some params
  | .sub _ | .srv _ | .req _ | .rsp _ | .unsub _ | .unsrv _ | .stop | .keepAlive => none

def ProtocolServer.pub? : ProtocolServer → Option PubMsg
  | .pub params => some params
  | .req _ | .rsp _ | .ack _ => none

/-- The publication of a Pub task. -/
def Task.pub? : Task → Option PubMsg
  | .message _ msg => msg.content.pub?
  | .register _ | .deregister _ | .requestTimeout _ => none

theorem Task.pub_eq_some {task : Task} {params : PubMsg} :
    task.pub? = some params ↔ ∃ c id, task = .message c ⟨id, .pub params⟩ := by
  obtain _ | _ | ⟨c, id, content⟩ | _ := task
  case message => cases content <;> simp [Task.pub?, ProtocolClient.pub?]
  all_goals simp [Task.pub?]

/-- A publication with its place. -/
def place (i : ℕ) (o : Option PubMsg) : Option (ℕ × PubMsg) := o.map fun params => (i, params)

/-- The Pub tasks of a log, with their places in it. -/
def pubTasks (log : List Record) : List (ℕ × PubMsg) :=
  log.zipIdx.filterMap fun x => place x.2 x.1.task.pub?

/-- What went into a channel, with the places of the tasks that put it there. -/
def placedOut (log : List Record) (conn : Conn) : List (ℕ × Msg ProtocolServer) :=
  log.zipIdx.flatMap fun x => (x.1.outOn conn).map fun msg => (x.2, msg)

/-- The publications among messages that have places. -/
def placedPubs (msgs : List (ℕ × Msg ProtocolServer)) : List (ℕ × PubMsg) :=
  msgs.filterMap fun x => place x.1 x.2.content.pub?

theorem map_snd_placedOut (log : List Record) (conn : Conn) :
    (placedOut log conn).map Prod.snd = outOn log conn := by
  have hsnd : ∀ x : Record × ℕ, ((x.1.outOn conn).map fun msg => (x.2, msg)).map Prod.snd =
      x.1.outOn conn := by
    intro x
    rw [List.map_map]
    exact List.map_id _
  rw [placedOut, List.map_flatMap, outOn]
  simp only [hsnd]
  rw [← List.flatMap_map Prod.fst (fun r : Record => r.outOn conn), List.zipIdx_map_fst]

/-- The places grow along the log. -/
theorem pairwise_pubTasks (log : List Record) :
    (pubTasks log).Pairwise fun x y => x.1 < y.1 := by
  have hplaces : log.zipIdx.Pairwise fun x y => x.2 < y.2 := by
    rw [← List.pairwise_map (f := Prod.snd), List.zipIdx_map_snd]
    exact List.pairwise_lt_range'
  rw [pubTasks, List.pairwise_filterMap]
  refine hplaces.imp fun {x y} hlt a ha b hb => ?_
  obtain ⟨params, -, rfl⟩ := Option.map_eq_some_iff.mp ha
  obtain ⟨params', -, rfl⟩ := Option.map_eq_some_iff.mp hb
  exact hlt

/-- The publications that deliveries put into a channel. -/
theorem filterMap_outOn (r : Record) (conn : Conn) :
    (r.outOn conn).filterMap (fun msg => msg.content.pub?) = pubsOn r.exec.2.out conn := by
  rw [Record.outOn, pubsOn, List.filterMap_filterMap, List.filter_filterMap, List.map_filterMap]
  refine List.filterMap_congr fun d _ => ?_
  obtain ⟨c, ⟨id, content⟩, conn'⟩ := d
  cases conn' with
  | none => rfl
  | some conn' =>
    by_cases hc : conn' = conn <;> cases content <;>
      simp [Delivery.on?, Delivery.pub?, ProtocolServer.pub?, hc]

namespace Record

variable {r : Record} {conn : Conn}

/-- **A task puts at most one publication into a channel**, its own. -/
theorem pubsOn_out (hinj : ∀ c d conn, r.core.protocolServerSenders c = some conn →
    r.core.protocolServerSenders d = some conn → c = d) :
    (pubsOn r.exec.2.out conn).Sublist r.task.pub?.toList := by
  cases hp : r.task.pub? with
  | none =>
    have hnone : r.exec.2.out.filterMap Delivery.pub? = [] := by
      refine List.filterMap_eq_nil_iff.mpr fun d hd => ?_
      obtain ⟨c, ⟨id, content⟩, conn'⟩ := d
      obtain ⟨hsent, -⟩ := mem_out hd
      cases content with
      | pub params =>
        obtain ⟨c', id', ht⟩ := Core.pub_of_mem_taskSends (hsent.resolve_right (by simp))
        rw [ht] at hp
        cases hp
      | _ => cases conn' <;> rfl
    rw [pubsOn, hnone]
    exact List.nil_sublist _
  | some params =>
    obtain ⟨c, id, ht⟩ := Task.pub_eq_some.mp hp
    obtain ⟨acks, heq, -⟩ := Exec.processTask_eq r.env r.task r.core
    have hout : r.exec.2.out = r.core.deliveries r.env
        ((r.core.attempts r.env (r.core.subscribers r.env params.topic)).map
          (fun d => (d, .pub params)) ++ acks.map fun a => (a.1, .ack a.2)) := by
      rw [exec, heq, ht]
      rfl
    have hacks : ∀ core : Core, (core.deliveries r.env
        (acks.map fun a => (a.1, .ack a.2))).filterMap Delivery.pub? = [] := by
      intro core
      refine List.filterMap_eq_nil_iff.mpr fun d hd => ?_
      obtain ⟨a, -, ha⟩ := List.mem_map.mp (Core.mem_deliveries hd).1
      have hack : d.msg.content = .ack a.2 := (congrArg Prod.snd ha).symm
      rw [Delivery.pub?, hack]
      cases d.conn <;> rfl
    have hnodup : ((r.core.attempts r.env (r.core.subscribers r.env params.topic)).filterMap
        (r.core.reach r.env)).Nodup := by
      refine ((Core.nodup_subscribers params.topic).sublist Exec.attempts_sublist).filterMap
        fun d d' conn h₁ h₂ => ?_
      exact hinj d d' conn (Core.reach_eq_some.mp h₁).1 (Core.reach_eq_some.mp h₂).1
    have hpubs : r.exec.2.out.filterMap Delivery.pub? =
        ((r.core.attempts r.env (r.core.subscribers r.env params.topic)).filterMap
          (r.core.reach r.env)).map fun conn => (conn, params) := by
      rw [hout, Core.deliveries_append, List.filterMap_append, hacks, List.append_nil,
        Core.filterMap_pub_deliveries]
    rw [Core.pubsOn_eq hpubs]
    exact (List.replicate_sublist_replicate (n := 1) params).mpr
      (List.nodup_iff_count_le_one.mp hnodup conn)

end Record

namespace System

variable {s : System}

/-- **The publications in a channel are a subsequence of the Pub tasks** in the order in which the core
has processed them. -/
theorem Reachable.pubs_placedOut (h : Reachable s) (conn : Conn) :
    (placedPubs (placedOut s.log conn)).Sublist (pubTasks s.log) := by
  have htasks : pubTasks s.log = s.log.zipIdx.flatMap fun x => (place x.2 x.1.task.pub?).toList :=
    List.filterMap_eq_flatMap_toList _ _
  rw [htasks, placedPubs, placedOut, List.filterMap_flatMap]
  refine List.Sublist.flatMap_right _ fun x hx => ?_
  have hr : x.1 ∈ s.log := by
    rw [← List.zipIdx_map_fst 0 s.log]
    exact List.mem_map_of_mem hx
  have hpubs : (pubsOn x.1.exec.2.out conn).Sublist x.1.task.pub?.toList := by
    refine Record.pubsOn_out fun c d conn hc hd => ?_
    have hc := h.conns.logged x.1 hr c conn hc
    exact Option.some.inj (hc.symm.trans (h.conns.logged x.1 hr d conn hd))
  rw [← filterMap_outOn] at hpubs
  have hplace : ((x.1.outOn conn).map fun msg => (x.2, msg)).filterMap (fun y =>
      place y.1 y.2.content.pub?) =
      ((x.1.outOn conn).filterMap fun msg => msg.content.pub?).map fun params => (x.2, params) := by
    rw [List.filterMap_map, List.map_filterMap]
    rfl
  have hlist : (place x.2 x.1.task.pub?).toList =
      x.1.task.pub?.toList.map fun params => (x.2, params) := by
    rw [place]
    cases x.1.task.pub? <;> rfl
  rw [hplace, hlist]
  exact hpubs.map _

end System

end T2Bus
