import T2Bus.Directory.Contents

/-!
# The flat state behind a directory

What a directory is for: a set of subscriptions `(client, topic)` and a map from topic to owner.
`Represents` says that a trie stores exactly such a state; every operation of the trie is the plain
operation on it.

* `Flat`, its operations, `Op` and `applyOps` on both sides;
* `Represents.apply`: one operation; `represents_applyOps`: any sequence of operations from `new`;
* `Sound`: the tries that represent a state of valid topics.
-/

namespace T2Bus

def Topic.hasWildcard (t : Topic) : Prop := ∃ s ∈ t.segments, Directory.isWildcard s

instance (t : Topic) : Decidable t.hasWildcard := by unfold Topic.hasWildcard; infer_instance

/-- Subscriptions and owners, without the trie. -/
structure Flat where
  subs : Set (ClientId × Topic)
  owner : Topic → Option ClientId

namespace Flat

def new : Flat := ⟨∅, fun _ => none⟩

def subscribe (f : Flat) (c : ClientId) (t : Topic) : Flat := { f with subs := insert (c, t) f.subs }

def unsubscribe (f : Flat) (c : ClientId) (t : Topic) : Flat := { f with subs := f.subs \ {(c, t)} }

def setOwner (f : Flat) (t : Topic) (o : Option ClientId) : Flat :=
  { f with owner := Function.update f.owner t o }

@[simp] theorem setOwner_self (f : Flat) (t : Topic) (o : Option ClientId) :
    (f.setOwner t o).owner t = o := Function.update_self _ _ _

theorem setOwner_of_ne (f : Flat) {t u : Topic} (h : u ≠ t) (o : Option ClientId) :
    (f.setOwner t o).owner u = f.owner u := Function.update_of_ne h _ _

/-- A wildcard topic cannot be claimed; another client's topic neither. -/
def claimResult (f : Flat) (c : ClientId) (t : Topic) : BusResult Unit :=
  if t.hasWildcard then .error .claimWildcardNotSupported
  else if f.owner t = none ∨ f.owner t = some c then .ok ()
  else .error .topicAlreadyClaimed

def claim (f : Flat) (c : ClientId) (t : Topic) : Flat :=
  if f.claimResult c t = .ok () then f.setOwner t (some c) else f

def unclaim (f : Flat) (c : ClientId) (t : Topic) : Flat :=
  if f.owner t = some c then f.setOwner t none else f

def dropClient (f : Flat) (c : ClientId) : Flat where
  subs := {p ∈ f.subs | p.1 ≠ c}
  owner t := if f.owner t = some c then none else f.owner t

/-- Every stored topic is valid, and no wildcard topic has an owner. -/
structure Valid (f : Flat) : Prop where
  sub : ∀ p ∈ f.subs, p.2.Valid
  owner : ∀ t o, f.owner t = some o → t.Valid ∧ ¬ t.hasWildcard

end Flat

namespace Directory

/-- An operation of the directory. -/
inductive Op where
  | subscribe (client : ClientId) (topic : Topic)
  | unsubscribe (client : ClientId) (topic : Topic)
  | claim (client : ClientId) (topic : Topic)
  | unclaim (client : ClientId) (topic : Topic)
  | dropClient (client : ClientId)

/-- The topic of an operation is valid. -/
def Op.Valid : Op → Prop
  | .subscribe _ t | .unsubscribe _ t | .claim _ t | .unclaim _ t => t.Valid
  | .dropClient _ => True

instance : (op : Op) → Decidable op.Valid
  | .subscribe _ t | .unsubscribe _ t | .claim _ t | .unclaim _ t => inferInstanceAs (Decidable t.Valid)
  | .dropClient _ => inferInstanceAs (Decidable True)

def apply (d : Directory) : Op → Directory
  | .subscribe c t => d.subscribe c t
  | .unsubscribe c t => (d.unsubscribe c t).2
  | .claim c t => (d.claim c t).2
  | .unclaim c t => (d.unclaim c t).2
  | .dropClient c => (d.dropClient c).2

def applyOps (ops : List Op) : Directory := ops.foldl apply new

end Directory

open Directory

def Flat.apply (f : Flat) : Op → Flat
  | .subscribe c t => f.subscribe c t
  | .unsubscribe c t => f.unsubscribe c t
  | .claim c t => f.claim c t
  | .unclaim c t => f.unclaim c t
  | .dropClient c => f.dropClient c

def Flat.applyOps (ops : List Op) : Flat := ops.foldl Flat.apply Flat.new

namespace Directory

/-- The trie stores exactly the flat state. -/
structure Represents (d : Directory) (f : Flat) : Prop where
  wf : d.WF
  sub : ∀ c path, c ∈ (d.contents path).subscribers ↔ ∃ t, t.segments = path ∧ (c, t) ∈ f.subs
  own : ∀ o path, (d.contents path).owner = some o ↔ ∃ t, t.segments = path ∧ f.owner t = some o

variable {d : Directory} {f : Flat}

/-- The subscribers at a topic's path are those of the topic. -/
theorem Represents.mem_subscribers (h : d.Represents f) (c : ClientId) (t : Topic) :
    c ∈ (d.contents t.segments).subscribers ↔ (c, t) ∈ f.subs := by
  rw [h.sub]
  constructor
  · rintro ⟨u, hu, hc⟩
    rwa [← Topic.segments_injective hu]
  · exact fun hc => ⟨t, rfl, hc⟩

/-- The owner at a topic's path is that of the topic. -/
theorem Represents.owner_eq (h : d.Represents f) (t : Topic) :
    (d.contents t.segments).owner = f.owner t := by
  refine Option.ext fun o => ?_
  rw [h.own]
  constructor
  · rintro ⟨u, hu, ho⟩
    rwa [← Topic.segments_injective hu]
  · exact fun ho => ⟨t, rfl, ho⟩

theorem represents_new : new.Represents .new where
  wf := .new
  sub c path := by simp [Entry.empty, Flat.new]
  own o path := by simp [Entry.empty, Flat.new]

theorem Represents.subscribe (h : d.Represents f) (c : ClientId) (t : Topic) :
    (d.subscribe c t).Represents (f.subscribe c t) where
  wf := h.wf.subscribeSegments c t.segments
  sub c' path := by
    rw [Directory.subscribe, contents_subscribeSegments]
    split_ifs with hp
    · rw [hp, List.mem_insert_iff, h.mem_subscribers]
      constructor
      · rintro (rfl | hc)
        · exact ⟨t, rfl, Set.mem_insert _ _⟩
        · exact ⟨t, rfl, Set.mem_insert_of_mem _ hc⟩
      · rintro ⟨u, hu, hc⟩
        rw [Topic.segments_injective hu] at hc
        exact hc.imp_left fun e => congrArg Prod.fst e
    · rw [h.sub]
      refine exists_congr fun u => and_congr_right fun hu => ?_
      refine (Set.mem_insert_iff.trans (or_iff_right fun e => hp ?_)).symm
      rw [← hu, (Prod.mk.inj e).2]
  own o path := by
    rw [Directory.subscribe, contents_subscribeSegments]
    split_ifs with hp
    · rw [hp]
      exact h.own o t.segments
    · exact h.own o path

theorem Represents.unsubscribe (h : d.Represents f) (c : ClientId) (t : Topic) :
    (d.unsubscribe c t).2.Represents (f.unsubscribe c t) where
  wf := h.wf.unsubscribeSegments c t.segments
  sub c' path := by
    rw [Directory.unsubscribe, contents_unsubscribeSegments]
    split_ifs with hp
    · rw [hp, List.mem_filter, h.mem_subscribers, decide_eq_true_iff]
      constructor
      · rintro ⟨hc, hne⟩
        exact ⟨t, rfl, hc, fun e => hne (congrArg Prod.fst e)⟩
      · rintro ⟨u, hu, hc, hne⟩
        rw [Topic.segments_injective hu] at hc hne
        exact ⟨hc, fun e => hne (by rw [e]; rfl)⟩
    · rw [h.sub]
      refine exists_congr fun u => and_congr_right fun hu => ?_
      refine (and_iff_left fun e => hp ?_).symm
      rw [← hu, (Prod.mk.inj e).2]
  own o path := by
    rw [Directory.unsubscribe, contents_unsubscribeSegments]
    split_ifs with hp
    · rw [hp]
      exact h.own o t.segments
    · exact h.own o path

/-- **A claim succeeds and fails as on the plain map.** -/
theorem Represents.claim_result (h : d.Represents f) (c : ClientId) (t : Topic) :
    (d.claim c t).1 = f.claimResult c t := by
  rw [Directory.claim, (claimSegments_cases c t.segments d).1, h.owner_eq]
  rfl

/-- Setting the owner of one topic. -/
theorem Represents.setOwner (h : d.Represents f) {d' : Directory} (hwf : d'.WF) (t : Topic)
    (o : Option ClientId) (hd : ∀ path, d'.contents path =
      if path = t.segments then ⟨o, (d.contents t.segments).subscribers⟩ else d.contents path) :
    d'.Represents (f.setOwner t o) where
  wf := hwf
  sub c path := by
    rw [hd]
    split_ifs with hp
    · rw [hp]
      exact h.sub c t.segments
    · exact h.sub c path
  own o' path := by
    rw [hd]
    split_ifs with hp
    · constructor
      · rintro rfl
        exact ⟨t, hp.symm, Flat.setOwner_self _ _ _⟩
      · rintro ⟨u, hu, ho⟩
        rwa [Topic.segments_injective (hu.trans hp), Flat.setOwner_self] at ho
    · rw [h.own]
      refine exists_congr fun u => and_congr_right fun hu => ?_
      rw [Flat.setOwner_of_ne]
      rintro rfl
      exact hp hu.symm

/-- Leaving every entry as it is. -/
theorem Represents.of_contents_eq (h : d.Represents f) {d' : Directory} (hwf : d'.WF)
    (hd : ∀ path, d'.contents path = d.contents path) : d'.Represents f where
  wf := hwf
  sub c path := by rw [hd]; exact h.sub c path
  own o path := by rw [hd]; exact h.own o path

theorem Represents.claim (h : d.Represents f) (c : ClientId) (t : Topic) :
    (d.claim c t).2.Represents (f.claim c t) := by
  have hd := (claimSegments_cases c t.segments d).2
  have hres := h.claim_result c t
  rw [Directory.claim] at hres
  rw [Flat.claim, ← hres]
  split_ifs with hr
  · refine h.setOwner (h.wf.claimSegments c t.segments) t (some c) fun path => ?_
    rw [hd]
    simp [hr]
  · exact h.of_contents_eq (h.wf.claimSegments c t.segments) fun path =>
      (hd path).trans (if_neg fun e => hr e.2)

theorem Represents.unclaim (h : d.Represents f) (hf : f.Valid) (c : ClientId) (t : Topic) :
    (d.unclaim c t).2.Represents (f.unclaim c t) := by
  rw [Flat.unclaim]
  split_ifs with ho
  · have hw : ∀ s ∈ t.segments, ¬ isWildcard s := fun s hs hw => (hf.owner t c ho).2 ⟨s, hs, hw⟩
    refine h.setOwner (h.wf.unclaimSegments c t.segments) t none fun path => ?_
    rw [contents_unclaimSegments, h.owner_eq]
    simp only [and_iff_left (And.intro hw ho)]
  · refine h.of_contents_eq (h.wf.unclaimSegments c t.segments) fun path =>
      (contents_unclaimSegments c t.segments d path).trans (if_neg fun e => ho ?_)
    rw [← h.owner_eq, e.2.2]

theorem contents_dropClient (d : Directory) (c : ClientId) (path : List String) :
    (d.dropClient c).2.contents path = (d.contents path).drop c :=
  contents_dropClientAux c d ⟨[], []⟩ path

theorem Represents.dropClient (h : d.Represents f) (c : ClientId) :
    (d.dropClient c).2.Represents (f.dropClient c) where
  wf := h.wf.dropClientAux c d ⟨[], []⟩
  sub c' path := by
    rw [contents_dropClient, Entry.drop, List.mem_filter, decide_eq_true_iff, h.sub]
    constructor
    · rintro ⟨⟨t, ht, hc⟩, hne⟩
      exact ⟨t, ht, hc, hne⟩
    · rintro ⟨t, ht, hc, hne⟩
      exact ⟨⟨t, ht, hc⟩, hne⟩
  own o path := by
    rw [contents_dropClient, Entry.drop]
    have hown : ∀ x, (if x = some c then none else x) = some o ↔ x = some o ∧ o ≠ c := by
      intro x
      split_ifs with hx
      · rw [hx]
        simp [eq_comm]
      · constructor
        · rintro rfl
          exact ⟨rfl, fun e => hx (congrArg some e)⟩
        · exact And.left
    rw [hown, h.own]
    constructor
    · rintro ⟨⟨t, ht, ho⟩, hne⟩
      exact ⟨t, ht, (hown _).mpr ⟨ho, hne⟩⟩
    · rintro ⟨t, ht, ho⟩
      obtain ⟨ho, hne⟩ := (hown _).mp ho
      exact ⟨⟨t, ht, ho⟩, hne⟩

/-- One operation of the trie is the operation of the flat state. -/
theorem Represents.apply (h : d.Represents f) (hf : f.Valid) (op : Op) :
    (d.apply op).Represents (f.apply op) := by
  cases op with
  | subscribe c t => exact h.subscribe c t
  | unsubscribe c t => exact h.unsubscribe c t
  | claim c t => exact h.claim c t
  | unclaim c t => exact h.unclaim hf c t
  | dropClient c => exact h.dropClient c

end Directory

theorem Flat.Valid.setOwner {f : Flat} (h : f.Valid) {t : Topic} {o : Option ClientId}
    (ht : o ≠ none → t.Valid ∧ ¬ t.hasWildcard) : (f.setOwner t o).Valid where
  sub := h.sub
  owner u o' hu := by
    by_cases e : u = t
    · subst e
      rw [Flat.setOwner_self] at hu
      exact ht (by simp [hu])
    · rw [Flat.setOwner_of_ne f e] at hu
      exact h.owner u o' hu

/-- Valid operations keep the stored topics valid. -/
theorem Flat.Valid.apply {f : Flat} (h : f.Valid) {op : Op} (hop : op.Valid) :
    (f.apply op).Valid := by
  cases op with
  | subscribe c t =>
    refine ⟨fun p hp => ?_, h.owner⟩
    rcases hp with rfl | hp
    · exact hop
    · exact h.sub p hp
  | unsubscribe c t => exact ⟨fun p hp => h.sub p hp.1, h.owner⟩
  | claim c t =>
    simp only [Flat.apply, Flat.claim]
    split_ifs with hr
    · refine h.setOwner fun _ => ⟨hop, fun hw => ?_⟩
      rw [Flat.claimResult, if_pos hw] at hr
      cases hr
    · exact h
  | unclaim c t =>
    simp only [Flat.apply, Flat.unclaim]
    split_ifs
    · exact h.setOwner (fun hn => absurd rfl hn)
    · exact h
  | dropClient c =>
    refine ⟨fun p hp => h.sub p hp.1, fun t o ho => h.owner t o ?_⟩
    simp only [Flat.apply, Flat.dropClient] at ho
    split_ifs at ho
    exact ho

theorem Flat.valid_new : Flat.new.Valid where
  sub p hp := by cases hp
  owner t o ho := by cases ho

namespace Directory

/-- **Any sequence of operations on the trie is the sequence on the flat state.** -/
theorem represents_applyOps (ops : List Op) (hops : ∀ op ∈ ops, op.Valid) :
    (applyOps ops).Represents (Flat.applyOps ops) ∧ (Flat.applyOps ops).Valid := by
  induction ops using List.reverseRecOn with
  | nil => exact ⟨represents_new, Flat.valid_new⟩
  | append_singleton ops op ih =>
    obtain ⟨hr, hv⟩ := ih fun o ho => hops o (List.mem_append_left _ ho)
    rw [applyOps, Flat.applyOps, List.foldl_concat, List.foldl_concat]
    exact ⟨hr.apply hv op, hv.apply (hops op (by simp))⟩

/-- A trie that stores a flat state of valid topics. -/
def Sound (d : Directory) : Prop := ∃ f, d.Represents f ∧ f.Valid

theorem Sound.new : new.Sound := ⟨_, represents_new, Flat.valid_new⟩

theorem Sound.apply {d : Directory} (h : d.Sound) (op : Op) (hop : op.Valid) :
    (d.apply op).Sound := by
  obtain ⟨f, hr, hf⟩ := h
  exact ⟨f.apply op, hr.apply hf op, hf.apply hop⟩

end Directory

end T2Bus
