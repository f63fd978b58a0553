import T2Bus.Transport.Payload

/-!
# Forwarding tasks

`subscribe_into` and `serve` start a task that takes the messages of a callback channel, decodes them
and sends the values on to the application. A message that does not decode makes it panic.

* `Forwarder`, `forward`: the task and one message; `forwardAll`: a sequence of them;
  `Client.subscribeInto`, `Client.serve`: the two tasks;
* **`forwardAll_delivered`**: what the application gets;
* `Delivers`, **`delivers_iff`**, **`Client.subscribeInto_delivers_iff`**;
  `Client.not_delivers_malformed`: a message that does not decode, before one that does.
-/

namespace T2Bus

inductive ForwardStatus where
  | running
  | returned
  | panicked
  deriving DecidableEq

/-- A forwarding task, with what it has sent to the application. -/
structure Forwarder (O : Type) where
  delivered : List O
  status : ForwardStatus

/-- A message, and whether the application has its receiver when it comes. -/
structure Arrival (M : Type) where
  msg : M
  isOpen : Bool

section

variable {M O P : Type} (gzip : Gzip) (deser : List UInt8 → BusResult P)

/-- One round of the loop of a forwarding task. -/
def forward (payload : Payload) (out : P → O) (isOpen : Bool) (s : Forwarder O) : Forwarder O :=
  match s.status with
  | .running =>
    match payload.toBytes gzip with
    | .error _ => { s with status := .panicked }
    | .ok data =>
      match deser data with
      -- the `unwrap`
      | .error _ => { s with status := .panicked }
      | .ok value =>
        if isOpen then { s with delivered := s.delivered ++ [out value] }
        else { s with status := .returned }
  | .returned | .panicked => s

variable (payload : M → Payload) (out : M → P → O)

/-- The task after a sequence of messages. -/
def forwardAll (arrivals : List (Arrival M)) (s : Forwarder O) : Forwarder O :=
  arrivals.foldl (fun s a => forward gzip deser (payload a.msg) (out a.msg) a.isOpen s) s

/-- What the application should get for a message. -/
def value? (a : Arrival M) : Option O := ((payload a.msg).value? gzip deser).map (out a.msg)

/-- The messages that come while the application keeps its receiver. -/
def kept (arrivals : List (Arrival M)) : List (Arrival M) := arrivals.takeWhile Arrival.isOpen

variable {gzip deser payload out}

/-- A message, for a task that runs. -/
theorem forward_running (delivered : List O) (a : Arrival M) :
    forward gzip deser (payload a.msg) (out a.msg) a.isOpen ⟨delivered, .running⟩ =
      match value? gzip deser payload out a with
      | none => ⟨delivered, .panicked⟩
      | some value => if a.isOpen then ⟨delivered ++ [value], .running⟩ else ⟨delivered, .returned⟩ := by
  unfold forward value? Payload.value?
  cases (payload a.msg).toBytes gzip with
  | error e => rfl
  | ok data =>
    simp only
    cases deser data with
    | error e => rfl
    | ok value => rfl

/-- A task that has ended delivers nothing more. -/
theorem forwardAll_ended (arrivals : List (Arrival M)) {s : Forwarder O} (h : s.status ≠ .running) :
    forwardAll gzip deser payload out arrivals s = s := by
  induction arrivals with
  | nil => rfl
  | cons a arrivals ih =>
    have hforward : forward gzip deser (payload a.msg) (out a.msg) a.isOpen s = s := by
      unfold forward
      cases hs : s.status with
      | running => exact absurd hs h
      | returned | panicked => rfl
    rw [forwardAll, List.foldl_cons, hforward]
    exact ih

/-- **The application gets the values of the messages up to the first one that does not decode**, or
comes when its receiver is gone. -/
theorem forwardAll_delivered (arrivals : List (Arrival M)) (delivered : List O) :
    (forwardAll gzip deser payload out arrivals ⟨delivered, .running⟩).delivered = delivered ++
      ((kept arrivals).takeWhile fun a => (value? gzip deser payload out a).isSome).filterMap
        (value? gzip deser payload out) := by
  induction arrivals generalizing delivered with
  | nil => exact (List.append_nil _).symm
  | cons a arrivals ih =>
    rw [forwardAll, List.foldl_cons, forward_running, kept, List.takeWhile_cons]
    cases hv : value? gzip deser payload out a with
    | none =>
      refine (congrArg Forwarder.delivered (forwardAll_ended arrivals (by simp))).trans ?_
      cases a.isOpen <;> simp [hv]
    | some value =>
      cases ho : a.isOpen with
      | false =>
        refine (congrArg Forwarder.delivered (forwardAll_ended arrivals (by simp))).trans ?_
        simp
      | true =>
        simp only [if_true]
        rw [List.takeWhile_cons_of_pos (by rw [hv]; rfl), List.filterMap_cons_some hv]
        refine (ih (delivered ++ [value])).trans ?_
        rw [List.append_assoc]
        rfl

variable (gzip deser payload out) in
/-- The application gets the values of all messages that decode, and no conversion of a payload
panics. -/
def Delivers (arrivals : List (Arrival M)) : Prop :=
  (forwardAll gzip deser payload out arrivals ⟨[], .running⟩).delivered =
      (kept arrivals).filterMap (value? gzip deser payload out) ∧
    ∀ a ∈ arrivals, (payload a.msg).toBytes gzip ≠ .error .panic

/-- What stands behind the first failure is missed exactly if it does not fail. -/
theorem filterMap_takeWhile_iff {α β : Type} {f : α → Option β} {l : List α} :
    (l.takeWhile fun a => (f a).isSome).filterMap f = l.filterMap f ↔
      l.Pairwise fun a b => f a = none → f b = none := by
  induction l with
  | nil => simp
  | cons a l ih =>
    rw [List.pairwise_cons, ← ih]
    cases ha : f a with
    | none =>
      rw [List.takeWhile_cons_of_neg (by simp [ha]), List.filterMap_cons_none ha, List.filterMap_nil,
        eq_comm, List.filterMap_eq_nil_iff]
      refine ⟨fun h => ⟨fun b hb _ => h b hb, ?_⟩, fun h b hb => h.1 b hb rfl⟩
      -- nothing decodes any more
      rw [List.filterMap_eq_nil_iff.mpr h, List.filterMap_eq_nil_iff]
      exact fun b hb => h b ((List.takeWhile_sublist _).subset hb)
    | some b =>
      rw [List.takeWhile_cons_of_pos (by simp [ha]), List.filterMap_cons_some ha,
        List.filterMap_cons_some ha, List.cons.injEq, and_iff_right rfl]
      exact (and_iff_right fun c _ h => by cases h).symm

/-- **A forwarding task delivers all that decodes exactly if** everything marked as compressed is a gzip
stream, and no message that does not decode comes before one that does. -/
theorem delivers_iff {arrivals : List (Arrival M)} : Delivers gzip deser payload out arrivals ↔
    (∀ a ∈ arrivals, (payload a.msg).isCompressed = true →
      (gzip.decompress (payload a.msg).data).isSome) ∧
    (kept arrivals).Pairwise fun a b =>
      (payload a.msg).value? gzip deser = none → (payload b.msg).value? gzip deser = none := by
  have hvalue : ∀ a : Arrival M, value? gzip deser payload out a = none ↔
      (payload a.msg).value? gzip deser = none := fun a => Option.map_eq_none_iff
  rw [Delivers, forwardAll_delivered, List.nil_append, filterMap_takeWhile_iff, and_comm]
  simp only [hvalue]
  refine and_congr_left fun _ => forall₂_congr fun a _ => ?_
  rw [Ne, Payload.toBytes_eq_panic, not_and, Option.isSome_iff_ne_none]

end

namespace Client

variable {P : Type} (gzip : Gzip) (deser : List UInt8 → BusResult P)

/-- The task that `Client::subscribe_into` starts. -/
def subscribeInto (arrivals : List (Arrival PubMsg)) : Forwarder (Path × P) :=
  forwardAll gzip deser PubMsg.payload (fun msg value => (msg.topic.path, value)) arrivals
    ⟨[], .running⟩

/-- The task that `Client::serve` starts. -/
def serve (arrivals : List (Arrival (MsgId × ReqMsg))) : Forwarder (Path × MsgId × P) :=
  forwardAll gzip deser (fun m => m.2.payload) (fun m value => (m.2.topic.path, m.1, value)) arrivals
    ⟨[], .running⟩

/-- **A subscription delivers, in order, the path and the value of every message that decodes, and no
conversion of a payload panics, exactly if** everything marked as compressed is a gzip stream, and no
message that does not decode comes before one that does while the application keeps its receiver. -/
theorem subscribeInto_delivers_iff (arrivals : List (Arrival PubMsg)) :
    ((subscribeInto gzip deser arrivals).delivered = (kept arrivals).filterMap (fun a =>
        (a.msg.payload.value? gzip deser).map fun value => (a.msg.topic.path, value)) ∧
      ∀ a ∈ arrivals, a.msg.payload.toBytes gzip ≠ .error .panic) ↔
    (∀ a ∈ arrivals, a.msg.payload.isCompressed = true →
      (gzip.decompress a.msg.payload.data).isSome) ∧
    (kept arrivals).Pairwise fun a b =>
      a.msg.payload.value? gzip deser = none → b.msg.payload.value? gzip deser = none :=
  delivers_iff

/-! ## A message that does not decode -/

def textMsg (data : List UInt8) : PubMsg := ⟨⟨"text", ⟨"a"⟩⟩, ⟨data, false⟩⟩

/-- **A message of one byte, which is no text, ends the subscription**: the text behind it is not
delivered. -/
theorem not_delivers_malformed :
    ¬ ((subscribeInto noGzip deserText [⟨textMsg [255], true⟩, ⟨textMsg [97, 98], true⟩]).delivered =
        (kept [⟨textMsg [255], true⟩, ⟨textMsg [97, 98], true⟩]).filterMap (fun a =>
          (a.msg.payload.value? noGzip deserText).map fun value => (a.msg.topic.path, value)) ∧
      ∀ a ∈ [(⟨textMsg [255], true⟩ : Arrival PubMsg), ⟨textMsg [97, 98], true⟩],
        a.msg.payload.toBytes noGzip ≠ .error .panic) := by
  rintro ⟨h, -⟩
  revert h
  decide +kernel

end Client

end T2Bus
