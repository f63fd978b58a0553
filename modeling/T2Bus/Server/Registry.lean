import T2Bus.Server.Owners
import T2Bus.Server.Subscribers

/-!
# The registry and the messages it comes from

The directory of the server holds nothing that was not asked for: a subscription is the last word of a
client on its topic, and so is the ownership of a topic.

* `claimed`: the claim that messages leave, as `subbed` is the subscription;
* `System.Founded`; **`System.Reachable.founded`**: what is in the directory was asked for;
* **`System.Reachable.subscribed_iff`**: the subscriptions of a registered client are those that its
  messages leave.
-/

namespace T2Bus

/-! ## The claim that messages leave -/

/-- What a message makes of the claim to a topic. -/
def claimsTo (t : Topic) (claimed : Bool) : ProtocolClient → Bool
  | .srv params => claimed || decide (params.topic = t)
  | .unsrv params => claimed && !decide (params.topic = t)
  | _ => claimed

/-- What messages make of the claim to a topic. -/
def claimed (t : Topic) (msgs : List (Msg ProtocolClient)) : Bool :=
  msgs.foldl (fun claimed msg => claimsTo t claimed msg.content) false

theorem claimed_concat (t : Topic) (msgs : List (Msg ProtocolClient)) (msg : Msg ProtocolClient) :
    claimed t (msgs ++ [msg]) = claimsTo t (claimed t msgs) msg.content :=
  List.foldl_concat ..

theorem claimsTo_srv (t : Topic) (claimed : Bool) : claimsTo t claimed (.srv ⟨t⟩) = true := by
  simp [claimsTo]

/-- A claim survives every message but its own Unsrv. -/
theorem claimed_concat_of_ne {t : Topic} {msgs : List (Msg ProtocolClient)} {msg : Msg ProtocolClient}
    (h : claimed t msgs = true) (hne : msg.content ≠ .unsrv ⟨t⟩) : claimed t (msgs ++ [msg]) = true := by
  rw [claimed_concat, h]
  obtain ⟨id, content⟩ := msg
  cases content with
  | unsrv params =>
    have ht : params.topic ≠ t := by
      rintro rfl
      exact hne rfl
    simp [claimsTo, ht]
  | _ => simp [claimsTo]

/-- After a message that is no Srv on the topic there is a claim only if there was one, and the message
is no Unsrv. -/
theorem claimsTo_of_ne {t : Topic} {claimed : Bool} {content : ProtocolClient}
    (h : claimsTo t claimed content = true) (hne : content ≠ .srv ⟨t⟩) :
    claimed = true ∧ content ≠ .unsrv ⟨t⟩ := by
  cases content with
  | srv params =>
    have ht : params.topic ≠ t := by
      rintro rfl
      exact hne rfl
    simpa [claimsTo, ht] using h
  | unsrv params =>
    obtain ⟨hs, ht⟩ := by simpa [claimsTo] using h
    exact ⟨hs, fun e => ht (congrArg UnsrvMsg.topic (ProtocolClient.unsrv.inj e))⟩
  | _ => simpa [claimsTo] using h

/-! ## The directory -/

/-- What a directory holds was asked for by messages in the log, apart from the server's own
subscription. -/
structure FoundedOn (d : Directory) (log : List Record) : Prop where
  subscribed : ∀ c t, d.Subscribed c t → (c = 0 ∧ t = killTopic) ∨ subbed t (messagesOf c log) = true
  owner : ∀ c t, d.getOwner t = some c → claimed t (messagesOf c log) = true

namespace System

variable {s s' : System} {conn : Conn} {c : ClientId} {t : Topic}

/-- The directory was asked for, now and before each task. -/
structure Founded (s : System) : Prop where
  now : FoundedOn s.core.directory s.log
  past : ∀ i r, s.log[i]? = some r → FoundedOn r.core.directory (s.log.take i)

theorem founded_init : Founded init := by
  refine ⟨⟨fun c t h => ?_, fun c t h => ?_⟩, fun i r hr => by cases hr⟩
  · have h : (Directory.new.subscribe 0 killTopic).Subscribed c t := h
    rcases Directory.subscribed_subscribe.mp h with h | h
    · exact Or.inl h
    · cases h
  · have h : (Directory.new.subscribe 0 killTopic).getOwner t = some c := h
    rw [Directory.getOwner_subscribe, Directory.getOwner_new] at h
    cases h

/-- What a task leaves in the directory was asked for by it or before. -/
theorem foundedOn_processed (hi : FoundedOn s.core.directory s.log) {order : Order} {task : Task}
    (hok : (s.record order task).exec.1 = .ok false) :
    FoundedOn (s.record order task).exec.2.core.directory (s.log ++ [s.record order task]) := by
  refine ⟨fun c t h => ?_, fun c t h => ?_⟩
  · obtain ⟨hsettled, -⟩ := (Core.subscribed_processTask hok).mp h
    rw [messagesOf_concat]
    rcases hsettled with ⟨hold, hne⟩ | ⟨id, htask⟩
    · refine (hi.subscribed c t hold).imp_right fun hsub => ?_
      cases hfrom : (s.record order task).task.from? c with
      | none => rwa [Option.toList_none, List.append_nil]
      | some msg =>
        refine subbed_concat_of_ne hsub fun hc => hne ⟨msg.id, ?_⟩
        rw [from?_eq_some.mp hfrom, ← hc]
    · have hfrom : (s.record order task).task.from? c = some ⟨id, .sub ⟨t⟩⟩ := from?_eq_some.mpr htask
      rw [hfrom, Option.toList_some, subbed_concat]
      exact Or.inr (by simp [subscribesTo])
  · obtain ⟨hsettled, -⟩ := (Core.getOwner_processTask hok).mp h
    rw [messagesOf_concat]
    rcases hsettled with ⟨⟨id, htask⟩, -⟩ | ⟨hold, hne⟩
    · have hfrom : (s.record order task).task.from? c = some ⟨id, .srv ⟨t⟩⟩ := from?_eq_some.mpr htask
      rw [hfrom, Option.toList_some, claimed_concat]
      exact claimsTo_srv t _
    · cases hfrom : (s.record order task).task.from? c with
      | none =>
        rw [Option.toList_none, List.append_nil]
        exact hi.owner c t hold
      | some msg =>
        refine claimed_concat_of_ne (hi.owner c t hold) fun hc => hne ⟨msg.id, ?_⟩
        rw [from?_eq_some.mp hfrom, ← hc]

/-- **What is in the directory of a running server was asked for.** -/
theorem Reachable.founded (h : Reachable s) : s.status = .running → Founded s := by
  refine Lts.Reachable.induct (I := fun s => s.status = .running → Founded s) (fun _ => founded_init)
    (fun s act s' hs hi hstep hrun => ?_) h
  obtain ⟨hrun', hq | ⟨order, task, tasks, -, rfl⟩⟩ := quiet_or_processed hstep
  · have hi := hi hrun'
    refine ⟨?_, ?_⟩
    · rw [hq.core, hq.log]
      exact hi.now
    · rw [hq.log]
      exact hi.past
  · have hi := hi hrun'
    refine ⟨foundedOn_processed hi.now (status_of_eq_running hrun), fun i r hr => ?_⟩
    change (s.log ++ [s.record order task])[i]? = some r at hr
    change FoundedOn r.core.directory ((s.log ++ [s.record order task]).take i)
    rcases getElem?_concat_iff.mp hr with hr | ⟨rfl, rfl⟩
    · rw [List.take_append_of_le_length (lt_of_getElem? hr).le]
      exact hi.past i r hr
    · rw [List.take_left]
      exact hi.now

/-- **The subscriptions of a registered client are those that its messages leave.** -/
theorem Reachable.subscribed_iff (h : Reachable s) (hrun : s.status = .running)
    (hreg : registrations s.log < 2 ^ 32) (hc : s.core.protocolServerSenders c = some conn) (t : Topic) :
    s.core.directory.Subscribed c t ↔ subbed t (messagesOf c s.log) = true := by
  refine ⟨fun hsub => ((h.founded hrun).now.subscribed c t hsub).resolve_left fun h₀ => ?_,
    h.subscribes hrun hreg c conn hc t⟩
  exact h.client_ne_zero hreg (h.conns.registered c conn hc) h₀.1

end System

end T2Bus
