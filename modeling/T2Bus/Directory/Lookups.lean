import T2Bus.Directory.Matching

/-!
# Lookups after an operation

What `get_owner` and the subscriptions are after each operation.

* `claim_ok_iff`, `getOwner_claim`, `getOwner_unclaim`, …: owners;
* `subscribed_subscribe`, `subscribed_unsubscribe`, …: subscriptions;
* **`applyOps_refines`**: the trie and the flat state.
-/

namespace T2Bus

namespace Directory

variable {d : Directory} {c k : ClientId} {t u : Topic}

/-! ## Owners -/

theorem getOwner_eq (d : Directory) (t : Topic) :
    d.getOwner t = if t.hasWildcard then none else (d.contents t.segments).owner :=
  getOwnerSegments_eq t.segments d

theorem not_hasWildcard_of_getOwner {o : ClientId} (h : d.getOwner t = some o) :
    ¬ t.hasWildcard := by
  intro hw
  rw [getOwner_eq, if_pos hw] at h
  cases h

/-- **A claim succeeds** on a topic without wildcards that is free, or the client's own. -/
theorem claim_ok_iff : (d.claim c t).1 = .ok () ↔
    ¬ t.hasWildcard ∧ (d.getOwner t = none ∨ d.getOwner t = some c) := by
  rw [claim, (claimSegments_cases c t.segments d).1, getOwner_eq]
  change (if t.hasWildcard then _ else _) = _ ↔ _
  by_cases hw : t.hasWildcard
  · rw [if_pos hw]
    exact iff_of_false (by simp) fun h => h.1 hw
  · rw [if_neg hw, if_neg hw]
    split_ifs with ho <;> simp [ho, hw]

theorem getOwner_claim (h : (d.claim c t).1 = .ok ()) (u : Topic) :
    (d.claim c t).2.getOwner u = if u = t then some c else d.getOwner u := by
  have hw := (claim_ok_iff.mp h).1
  rw [claim] at h ⊢
  rw [getOwner_eq, (claimSegments_cases c t.segments d).2, getOwner_eq]
  simp only [h, and_true]
  by_cases hu : u = t
  · rw [hu, if_neg hw, if_pos rfl, if_pos rfl]
  · rw [if_neg hu, if_neg fun e => hu (Topic.segments_injective e)]

/-- A claim that fails changes no owner. -/
theorem getOwner_claim_failed (h : (d.claim c t).1 ≠ .ok ()) (u : Topic) :
    (d.claim c t).2.getOwner u = d.getOwner u := by
  rw [claim] at h
  rw [claim, getOwner_eq, (claimSegments_cases c t.segments d).2, getOwner_eq,
    if_neg (c := _ ∧ _) fun he => h he.2]

/-- Who owns a topic after a claim, whether it is granted or not. -/
theorem getOwner_claim_iff {u : Topic} {k : ClientId} : (d.claim c t).2.getOwner u = some k ↔
    (k = c ∧ u = t ∧ (d.claim c t).1 = .ok ()) ∨ d.getOwner u = some k := by
  by_cases hok : (d.claim c t).1 = .ok ()
  · rw [getOwner_claim hok]
    split_ifs with hu
    · subst hu
      constructor
      · intro he
        exact Or.inl ⟨(Option.some.inj he).symm, rfl, hok⟩
      · rintro (⟨rfl, -⟩ | ho)
        · rfl
        · rcases (claim_ok_iff.mp hok).2 with hnone | hself
          · rw [hnone] at ho
            cases ho
          · exact hself.symm.trans ho
    · exact (or_iff_right fun h => hu h.2.1).symm
  · rw [getOwner_claim_failed hok]
    exact (or_iff_right fun h => hok h.2.2).symm

theorem unclaimSegments_ok (client : ClientId) {topic : List String}
    (h : ∀ s ∈ topic, ¬ isWildcard s) (d : Directory) :
    (unclaimSegments client topic d).1 = .ok () := by
  induction topic generalizing d with
  | nil => rfl
  | cons segment rest ih =>
    obtain ⟨hs, hrest⟩ := List.forall_mem_cons.mp h
    rw [unclaimSegments, if_neg hs]
    cases d.child? segment with
    | some child => exact ih hrest child
    | none => rfl

theorem unclaim_ok (client : ClientId) (h : ¬ t.hasWildcard) : (d.unclaim client t).1 = .ok () :=
  unclaimSegments_ok client (fun s hs hw => h ⟨s, hs, hw⟩) d

/-- What the owner gives up is free. -/
theorem getOwner_unclaim (h : d.getOwner t = some c) (u : Topic) :
    (d.unclaim c t).2.getOwner u = if u = t then none else d.getOwner u := by
  have hw := not_hasWildcard_of_getOwner h
  have ho : (d.contents t.segments).owner = some c := by rwa [getOwner_eq, if_neg hw] at h
  have hall : ∀ s ∈ t.segments, ¬ isWildcard s := fun s hs hs' => hw ⟨s, hs, hs'⟩
  rw [unclaim, getOwner_eq, contents_unclaimSegments, getOwner_eq]
  simp only [and_iff_left (And.intro hall ho)]
  by_cases hu : u = t
  · rw [hu, if_pos rfl, if_pos rfl, if_neg hw]
  · rw [if_neg hu, if_neg fun e => hu (Topic.segments_injective e)]

/-- Nothing changes when the client owns nothing there. -/
theorem getOwner_unclaim_of_ne (h : d.getOwner t ≠ some c) (u : Topic) :
    (d.unclaim c t).2.getOwner u = d.getOwner u := by
  rw [unclaim, getOwner_eq, contents_unclaimSegments, getOwner_eq]
  by_cases hw : u.hasWildcard
  · rw [if_pos hw, if_pos hw]
  · rw [if_neg hw, if_neg hw, if_neg]
    rintro ⟨-, hall, howner⟩
    refine h ?_
    rw [getOwner_eq, if_neg, howner]
    rintro ⟨s, hs, hs'⟩
    exact hall s hs hs'

/-- Who owns a topic after the claim on one is given up, if there was one. -/
theorem getOwner_unclaim_iff {u : Topic} {k : ClientId} : (d.unclaim c t).2.getOwner u = some k ↔
    d.getOwner u = some k ∧ ¬ (k = c ∧ u = t) := by
  by_cases ho : d.getOwner t = some c
  · rw [getOwner_unclaim ho]
    split_ifs with hu
    · subst hu
      rw [ho]
      refine iff_of_false (by simp) ?_
      rintro ⟨he, hne⟩
      exact hne ⟨(Option.some.inj he).symm, rfl⟩
    · exact (and_iff_left fun h => hu h.2).symm
  · rw [getOwner_unclaim_of_ne ho]
    refine (and_iff_left_of_imp fun h => ?_).symm
    rintro ⟨rfl, rfl⟩
    exact ho h

theorem getOwner_unsubscribe (c : ClientId) (t u : Topic) :
    (d.unsubscribe c t).2.getOwner u = d.getOwner u := by
  rw [unsubscribe, getOwner_eq, contents_unsubscribeSegments, getOwner_eq]
  by_cases hu : u.segments = t.segments
  · rw [if_pos hu, hu]
  · rw [if_neg hu]

theorem getOwner_subscribe (c : ClientId) (t u : Topic) :
    (d.subscribe c t).getOwner u = d.getOwner u := by
  rw [subscribe, getOwner_eq, contents_subscribeSegments, getOwner_eq]
  by_cases hu : u.segments = t.segments
  · rw [if_pos hu, hu]
  · rw [if_neg hu]

theorem getOwner_dropClient (c : ClientId) (u : Topic) :
    (d.dropClient c).2.getOwner u = if d.getOwner u = some c then none else d.getOwner u := by
  rw [getOwner_eq, contents_dropClient, Entry.drop, getOwner_eq]
  by_cases hw : u.hasWildcard <;> simp [hw]

/-! ## Subscriptions -/

theorem subscribed_subscribe :
    (d.subscribe c t).Subscribed k u ↔ k = c ∧ u = t ∨ d.Subscribed k u := by
  rw [Subscribed, subscribe, contents_subscribeSegments]
  by_cases hu : u = t
  · rw [hu, if_pos rfl, List.mem_insert_iff, Subscribed]
    simp
  · rw [if_neg fun e => hu (Topic.segments_injective e), Subscribed]
    simp [hu]

theorem subscribed_unsubscribe :
    (d.unsubscribe c t).2.Subscribed k u ↔ d.Subscribed k u ∧ ¬ (k = c ∧ u = t) := by
  rw [Subscribed, unsubscribe, contents_unsubscribeSegments]
  by_cases hu : u = t
  · rw [hu, if_pos rfl, List.mem_filter, Subscribed]
    simp
  · rw [if_neg fun e => hu (Topic.segments_injective e), Subscribed]
    simp [hu]

theorem subscribed_claim : (d.claim c t).2.Subscribed k u ↔ d.Subscribed k u := by
  rw [Subscribed, claim, (claimSegments_cases c t.segments d).2, Subscribed]
  split_ifs with hu
  · rw [hu.1]
  · rfl

theorem subscribed_unclaim : (d.unclaim c t).2.Subscribed k u ↔ d.Subscribed k u := by
  rw [Subscribed, unclaim, contents_unclaimSegments, Subscribed]
  split_ifs with hu
  · rw [hu.1]
  · rfl

theorem subscribed_dropClient : (d.dropClient c).2.Subscribed k u ↔ d.Subscribed k u ∧ k ≠ c := by
  rw [Subscribed, contents_dropClient, Entry.drop, List.mem_filter, decide_eq_true_iff, Subscribed]

theorem not_subscribed_new : ¬ new.Subscribed k u := by
  rw [Subscribed, contents_new]
  exact List.not_mem_nil

theorem getOwner_new (u : Topic) : new.getOwner u = none := by
  rw [getOwner_eq, contents_new]
  split_ifs <;> rfl

/-! ## The flat state -/

/-- `get_owner` is the lookup in the plain map. -/
theorem Represents.getOwner_eq {f : Flat} (h : d.Represents f) (t : Topic) :
    d.getOwner t = if t.hasWildcard then none else f.owner t := by
  rw [Directory.getOwner_eq, h.owner_eq]

/-- A claim that fails leaves the flat state as it is. -/
theorem Represents.claim_failed {f : Flat} (h : d.Represents f) (hr : (d.claim c t).1 ≠ .ok ()) :
    (d.claim c t).2.Represents f := by
  have hclaim := h.claim c t
  rwa [Flat.claim, ← h.claim_result, if_neg hr] at hclaim

/-- **The trie refines the flat state**: after any operations on valid topics it stores exactly the
subscriptions and the owners that the same operations leave in the plain set and the plain map, a claim
succeeds and fails as it does there, and leaves both alone if it fails, and `get_owner` is the lookup in
the map. -/
theorem applyOps_refines (ops : List Op) (hops : ∀ op ∈ ops, op.Valid) :
    (applyOps ops).Represents (Flat.applyOps ops) ∧
      (∀ c t, ((applyOps ops).claim c t).1 = (Flat.applyOps ops).claimResult c t) ∧
      (∀ c t, ((applyOps ops).claim c t).1 ≠ .ok () →
        ((applyOps ops).claim c t).2.Represents (Flat.applyOps ops)) ∧
      ∀ t, (applyOps ops).getOwner t =
        if t.hasWildcard then none else (Flat.applyOps ops).owner t := by
  have hr := (represents_applyOps ops hops).1
  exact ⟨hr, hr.claim_result, fun c t => hr.claim_failed, hr.getOwner_eq⟩

/-- Client 2 claims what client 1 owns, and a wildcard. -/
theorem applyOps_refines_claimed :
    let ops : List Op := [.claim 1 ⟨"p", ⟨"a"⟩⟩, .subscribe 2 ⟨"p", ⟨"a/**"⟩⟩,
      .claim 2 ⟨"p", ⟨"a"⟩⟩, .claim 2 ⟨"p", ⟨"b/*"⟩⟩]
    (applyOps ops).getOwner ⟨"p", ⟨"a"⟩⟩ = some 1 ∧
      ((applyOps ops).claim 2 ⟨"p", ⟨"a"⟩⟩).1 = (Flat.applyOps ops).claimResult 2 ⟨"p", ⟨"a"⟩⟩ := by
  intro ops
  exact ⟨by decide, (applyOps_refines ops (by decide)).2.1 2 _⟩

end Directory

end T2Bus
