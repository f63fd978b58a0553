import T2Bus.Directory.Basic

/-!
# What a directory stores, path by path

`contents d path` is the entry of the node at `path`, the empty entry when there is no such node. An
operation of the directory is described by what it does to the contents: the nodes it creates on the
way down are empty, so they do not show.

* `Directory.induct`: induction over the tree, the children by membership;
* `WF`: no node has two children under one segment, kept by every operation;
* `claimSegments_cases`, `contents_unclaimSegments`, `contents_subscribeSegments`,
  `contents_unsubscribeSegments`: only the addressed entry changes;
* `contents_dropClientAux`: every entry loses the client.
-/

namespace T2Bus

namespace Directory

/-! ## Induction over the tree -/

mutual

theorem inductAux {P : Directory → Prop} (node : ∀ owner children subscribers,
    (∀ child ∈ children, P child.2) → P (mk owner children subscribers)) : ∀ d, P d
  | mk owner children subscribers => node owner children subscribers (inductChildren node children)

theorem inductChildren {P : Directory → Prop} (node : ∀ owner children subscribers,
    (∀ child ∈ children, P child.2) → P (mk owner children subscribers)) :
    ∀ (children : List (String × Directory)), ∀ child ∈ children, P child.2
  | [], _, h => by cases h
  | (segment, child) :: rest, c, h => by
    rcases List.mem_cons.mp h with rfl | h
    · exact inductAux node child
    · exact inductChildren node rest c h

end

/-- **Induction over the tree.** -/
@[elab_as_elim]
theorem induct {P : Directory → Prop} (node : ∀ owner children subscribers,
    (∀ child ∈ children, P child.2) → P (mk owner children subscribers)) (d : Directory) : P d :=
  inductAux node d

/-! ## Well-formed trees -/

/-- Every node's children have distinct segments. -/
inductive WF : Directory → Prop where
  | mk {owner : Option ClientId} {children : List (String × Directory)}
      {subscribers : List ClientId} (nodup : Assoc.NodupKeys children)
      (child : ∀ c ∈ children, WF c.2) : WF (mk owner children subscribers)

theorem WF.nodup {d : Directory} (h : d.WF) : Assoc.NodupKeys d.children := by
  cases h
  assumption

theorem WF.child {d : Directory} (h : d.WF) : ∀ c ∈ d.children, c.2.WF := by
  cases h
  assumption

theorem WF.child? {d c : Directory} {name : String} (h : d.WF) (hc : d.child? name = some c) :
    c.WF := h.child _ (Assoc.mem_of_lookup hc)

theorem WF.new : WF new := .mk List.nodup_nil (by simp)

theorem WF.setOwner {d : Directory} (h : d.WF) (owner : Option ClientId) :
    (d.setOwner owner).WF := .mk h.nodup h.child

theorem WF.setSubscribers {d : Directory} (h : d.WF) (subscribers : List ClientId) :
    (d.setSubscribers subscribers).WF := .mk h.nodup h.child

theorem mem_set {name : String} {child : Directory} {children : List (String × Directory)}
    {c : String × Directory} (h : c ∈ Assoc.set name child children) :
    c = (name, child) ∨ c ∈ children := by
  induction children with
  | nil => exact Or.inl (List.mem_singleton.mp h)
  | cons p children ih =>
    simp only [Assoc.set] at h
    split_ifs at h
    · rcases List.mem_cons.mp h with h | h
      · exact Or.inl h
      · exact Or.inr (List.mem_cons_of_mem _ h)
    · rcases List.mem_cons.mp h with h | h
      · exact Or.inr (h ▸ List.mem_cons_self)
      · exact (ih h).imp_right (List.mem_cons_of_mem _)

theorem WF.setChild {d child : Directory} (h : d.WF) (name : String) (hc : child.WF) :
    (d.setChild name child).WF := by
  refine .mk (h.nodup.set name child) fun c hm => ?_
  rcases mem_set hm with rfl | hm
  · exact hc
  · exact h.child c hm

theorem WF.ensureChild {d : Directory} (h : d.WF) (name : String) : (d.ensureChild name).WF := by
  unfold Directory.ensureChild
  split_ifs
  · exact h
  · exact h.setChild name .new

theorem WF.getD {d : Directory} (h : d.WF) (name : String) : ((d.child? name).getD .new).WF := by
  cases hc : d.child? name with
  | none => exact .new
  | some c => exact h.child? hc

/-! ## Contents -/

/-- What a node stores besides its children. -/
@[ext]
structure Entry where
  owner : Option ClientId
  subscribers : List ClientId

/-- The entry of a node that nobody claimed or subscribed to. -/
def Entry.empty : Entry := ⟨none, []⟩

/-- The entry at a path. -/
def contents : Directory → List String → Entry
  | d, [] => ⟨d.owner, d.subscribers⟩
  | d, segment :: rest =>
    match d.child? segment with
    | some child => contents child rest
    | none => .empty

theorem contents_nil (d : Directory) : d.contents [] = ⟨d.owner, d.subscribers⟩ := rfl

theorem contents_cons (d : Directory) (segment : String) (rest : List String) :
    d.contents (segment :: rest) = ((d.child? segment).getD new).contents rest := by
  rw [contents]
  cases d.child? segment with
  | some child => rfl
  | none => cases rest <;> rfl

@[simp] theorem contents_new (path : List String) : new.contents path = .empty := by
  cases path <;> rfl

theorem contents_setOwner (d : Directory) (o : Option ClientId) (path : List String) :
    (d.setOwner o).contents path = if path = [] then ⟨o, (d.contents []).subscribers⟩
      else d.contents path := by
  cases path <;> rfl

theorem contents_setSubscribers (d : Directory) (subs : List ClientId) (path : List String) :
    (d.setSubscribers subs).contents path = if path = [] then ⟨(d.contents []).owner, subs⟩
      else d.contents path := by
  cases path <;> rfl

/-- Only a node that is there stores something. -/
theorem mem_contents_cons {d : Directory} {segment : String} {rest : List String} {c : ClientId} :
    c ∈ (d.contents (segment :: rest)).subscribers ↔
      ∃ child, d.child? segment = some child ∧ c ∈ (child.contents rest).subscribers := by
  rw [contents]
  cases d.child? segment with
  | some child => simp
  | none => simp [Entry.empty]

theorem child?_setChild (d child : Directory) (name segment : String) :
    (d.setChild name child).child? segment = if segment = name then some child
      else d.child? segment :=
  Assoc.lookup_set name segment child d.children

theorem contents_setChild_nil (d child : Directory) (name : String) :
    (d.setChild name child).contents [] = d.contents [] := rfl

theorem contents_setChild_cons (d child : Directory) (name segment : String) (rest : List String) :
    (d.setChild name child).contents (segment :: rest) =
      if segment = name then child.contents rest else d.contents (segment :: rest) := by
  rw [contents_cons, child?_setChild]
  split_ifs
  · rfl
  · rw [contents_cons]

@[simp] theorem contents_ensureChild (d : Directory) (name : String) (path : List String) :
    (d.ensureChild name).contents path = d.contents path := by
  unfold ensureChild
  split_ifs with h
  · rfl
  · cases path with
    | nil => rfl
    | cons segment rest =>
      rw [contents_setChild_cons, contents_cons]
      split_ifs with hs
      · rw [hs, Option.not_isSome_iff_eq_none.mp h]
        rfl
      · rfl

/-- Replacing one child changes the entries below it only. -/
theorem contents_setChild_update {d child : Directory} {name : String} (rest : List String)
    (e : Entry) (h : ∀ path, child.contents path =
      if path = rest then e else d.contents (name :: path)) (path : List String) :
    (d.setChild name child).contents path = if path = name :: rest then e else d.contents path := by
  cases path with
  | nil => rw [contents_setChild_nil, if_neg (by simp)]
  | cons segment path =>
    rw [contents_setChild_cons]
    by_cases hs : segment = name
    · subst hs
      rw [if_pos rfl, h]
      simp
    · rw [if_neg hs, if_neg (fun e => hs (List.cons.inj e).1)]

/-! ## Subscriptions -/

theorem contents_subscribeSegments (client : ClientId) (topic : List String) (d : Directory)
    (path : List String) :
    (subscribeSegments client topic d).contents path =
      if path = topic then ⟨(d.contents topic).owner, (d.contents topic).subscribers.insert client⟩
        else d.contents path := by
  induction topic generalizing d path with
  | nil => exact contents_setSubscribers d _ path
  | cons segment rest ih =>
    rw [subscribeSegments, contents_setChild_update rest ⟨(d.contents (segment :: rest)).owner,
      (d.contents (segment :: rest)).subscribers.insert client⟩]
    · rw [contents_ensureChild]
    · intro path
      rw [ih, ← contents_cons, ← contents_cons, contents_ensureChild, contents_ensureChild]

theorem contents_unsubscribeSegments (client : ClientId) (topic : List String) (d : Directory)
    (path : List String) :
    (unsubscribeSegments client topic d).2.contents path =
      if path = topic then
        ⟨(d.contents topic).owner, (d.contents topic).subscribers.filter (· ≠ client)⟩
      else d.contents path := by
  induction topic generalizing d path with
  | nil => exact contents_setSubscribers d _ path
  | cons segment rest ih =>
    rw [unsubscribeSegments]
    cases hc : d.child? segment with
    | some child =>
      refine contents_setChild_update _ _ (fun path => ?_) path
      rw [ih, contents_cons, contents_cons, hc]
      rfl
    | none =>
      have hempty : d.contents (segment :: rest) = .empty := by rw [contents, hc]
      split_ifs with hp
      · rw [hp, hempty]
        rfl
      · rfl

theorem unsubscribeSegments_ok (client : ClientId) (topic : List String) (d : Directory) :
    (unsubscribeSegments client topic d).1 = .ok () := by
  induction topic generalizing d with
  | nil => rfl
  | cons segment rest ih =>
    rw [unsubscribeSegments]
    cases d.child? segment with
    | some child => exact ih child
    | none => rfl

/-! ## Owners -/

/-- **Claiming** takes a free topic, keeps one's own, and is refused on a wildcard or on another
client's topic. -/
theorem claimSegments_cases (client : ClientId) (topic : List String) (d : Directory) :
    (claimSegments client topic d).1 =
        (if ∃ s ∈ topic, isWildcard s then .error .claimWildcardNotSupported
        else if (d.contents topic).owner = none ∨ (d.contents topic).owner = some client then .ok ()
        else .error .topicAlreadyClaimed) ∧
      ∀ path, (claimSegments client topic d).2.contents path =
        if path = topic ∧ (claimSegments client topic d).1 = .ok () then
          ⟨some client, (d.contents topic).subscribers⟩
        else d.contents path := by
  induction topic generalizing d with
  | nil =>
    rw [claimSegments, contents_nil]
    cases ho : d.owner with
    | none => exact ⟨by simp, fun path => by simp [contents_setOwner, contents_nil]⟩
    | some owner =>
      by_cases h : owner = client
      · refine ⟨by simp [h], fun path => ?_⟩
        simp only [h, if_true]
        split_ifs with hp
        · rw [hp.1, contents_nil, ho, h]
        · rfl
      · simp [h]
  | cons segment rest ih =>
    rw [claimSegments]
    by_cases hw : isWildcard segment
    · have hex : ∃ s ∈ segment :: rest, isWildcard s := ⟨segment, List.mem_cons_self, hw⟩
      rw [if_pos hw, if_pos hex]
      simp
    · obtain ⟨h₁, h₂⟩ := ih (((d.ensureChild segment).child? segment).getD new)
      have hcons : ∀ path, (((d.ensureChild segment).child? segment).getD new).contents path =
          d.contents (segment :: path) := fun path => by
        rw [← contents_cons, contents_ensureChild]
      have hex : (∃ s ∈ segment :: rest, isWildcard s) ↔ ∃ s ∈ rest, isWildcard s := by simp [hw]
      rw [hcons] at h₁
      simp only [hcons] at h₂
      rw [if_neg hw]
      refine ⟨by simp only [h₁, hex], fun path => ?_⟩
      -- the child's contents are the addressed entries, whether or not the claim succeeded
      by_cases hr : (claimSegments client rest
          (((d.ensureChild segment).child? segment).getD new)).1 = .ok ()
      · simp only [hr, and_true] at h₂ ⊢
        rw [contents_setChild_update rest ⟨some client, (d.contents (segment :: rest)).subscribers⟩
          (fun path => by rw [h₂, contents_ensureChild]), contents_ensureChild]
      · simp only [hr, and_false, if_false] at h₂ ⊢
        cases path with
        | nil => rw [contents_setChild_nil, contents_ensureChild]
        | cons s path =>
          rw [contents_setChild_cons, contents_ensureChild, h₂]
          split_ifs with hs
          · rw [hs]
          · rfl

/-- **Unclaiming** clears the owner if it is the client; a wildcard topic has none. -/
theorem contents_unclaimSegments (client : ClientId) (topic : List String) (d : Directory)
    (path : List String) :
    (unclaimSegments client topic d).2.contents path =
      if path = topic ∧ (∀ s ∈ topic, ¬ isWildcard s) ∧ (d.contents topic).owner = some client then
        ⟨none, (d.contents topic).subscribers⟩
      else d.contents path := by
  induction topic generalizing d path with
  | nil =>
    rw [unclaimSegments, contents_nil]
    by_cases h : d.owner = some client
    · simp [h, contents_setOwner, contents_nil]
    · simp [h]
  | cons segment rest ih =>
    rw [unclaimSegments]
    by_cases hw : isWildcard segment
    · rw [if_pos hw, if_neg]
      exact fun h => h.2.1 segment List.mem_cons_self hw
    rw [if_neg hw]
    have hall : (∀ s ∈ segment :: rest, ¬ isWildcard s) ↔ ∀ s ∈ rest, ¬ isWildcard s := by
      rw [List.forall_mem_cons, and_iff_right hw]
    cases hc : d.child? segment with
    | some child =>
      have hcons : ∀ path, d.contents (segment :: path) = child.contents path := fun path => by
        rw [contents_cons, hc]
        rfl
      by_cases ho : (∀ s ∈ rest, ¬ isWildcard s) ∧
          (d.contents (segment :: rest)).owner = some client
      · simp only [hall, and_iff_left ho]
        refine contents_setChild_update _ _ (fun path => ?_) path
        rw [ih child path, ← hcons, ← hcons]
        simp only [and_iff_left ho]
      · rw [if_neg (fun h => ho ⟨hall.mp h.2.1, h.2.2⟩)]
        cases path with
        | nil => rfl
        | cons s path =>
          rw [contents_setChild_cons]
          split_ifs with hs
          · rw [ih child path, ← hcons, ← hcons, if_neg (fun h => ho h.2), hs]
          · rfl
    | none =>
      have hempty : d.contents (segment :: rest) = .empty := by rw [contents, hc]
      rw [hempty, if_neg (by simp [Entry.empty])]

/-- The owner of a topic without wildcards is the one stored at its path. -/
theorem getOwnerSegments_eq (topic : List String) (d : Directory) :
    getOwnerSegments topic d =
      if ∃ s ∈ topic, isWildcard s then none else (d.contents topic).owner := by
  induction topic generalizing d with
  | nil => simp [getOwnerSegments, contents]
  | cons segment rest ih =>
    rw [getOwnerSegments]
    by_cases hw : isWildcard segment
    · rw [if_pos hw, if_pos ⟨segment, List.mem_cons_self, hw⟩]
    · have hex : (∃ s ∈ segment :: rest, isWildcard s) ↔ ∃ s ∈ rest, isWildcard s := by simp [hw]
      rw [if_neg hw, contents]
      simp only [hex]
      cases d.child? segment with
      | some child => exact ih child
      | none => simp [Entry.empty]

/-! ## Dropping a client -/

/-- An entry without the client. -/
def Entry.drop (client : ClientId) (e : Entry) : Entry :=
  ⟨if e.owner = some client then none else e.owner, e.subscribers.filter (· ≠ client)⟩

mutual

theorem contents_dropClientAux (client : ClientId) : ∀ (d : Directory) (s : Drop)
    (path : List String), (dropClientAux client d s).1.contents path = (d.contents path).drop client
  | mk owner children subscribers, s, [] => rfl
  | mk owner children subscribers, s, segment :: rest => by
    rw [contents_cons, contents_cons]
    change (((dropClientChildren client children _).1.lookup segment).getD new).contents rest =
      (((children.lookup segment).getD new).contents rest).drop client
    exact contents_dropClientChildren client children _ segment rest

theorem contents_dropClientChildren (client : ClientId) : ∀ (children : List (String × Directory))
    (s : Drop) (segment : String) (rest : List String),
    (((dropClientChildren client children s).1.lookup segment).getD new).contents rest =
      (((children.lookup segment).getD new).contents rest).drop client
  | [], s, segment, rest => by
    change new.contents rest = (new.contents rest).drop client
    rw [contents_new]
    rfl
  | (name, child) :: children, s, segment, rest => by
    rw [dropClientChildren, Assoc.lookup_cons, Assoc.lookup_cons]
    by_cases h : segment = name
    · simp only [h, if_true, Option.getD_some]
      exact contents_dropClientAux client child _ rest
    · simp only [h, if_false]
      exact contents_dropClientChildren client children _ segment rest

end

mutual

theorem WF.dropClientAux (client : ClientId) : ∀ (d : Directory) (s : Drop), d.WF →
    (dropClientAux client d s).1.WF
  | .mk owner children subscribers, s, h => by
    have hc := WF.dropClientChildren client children
    exact .mk (by rw [Assoc.NodupKeys, (hc _ h.child).1]; exact h.nodup) (hc _ h.child).2

theorem WF.dropClientChildren (client : ClientId) : ∀ (children : List (String × Directory))
    (s : Drop), (∀ c ∈ children, c.2.WF) →
    (dropClientChildren client children s).1.map Prod.fst = children.map Prod.fst ∧
      ∀ c ∈ (dropClientChildren client children s).1, c.2.WF
  | [], s, h => ⟨rfl, by simp [Directory.dropClientChildren]⟩
  | (name, child) :: children, s, h => by
    obtain ⟨hchild, hrest⟩ := List.forall_mem_cons.mp h
    have ih := WF.dropClientChildren client children
    rw [Directory.dropClientChildren]
    exact ⟨congrArg (name :: ·) (ih _ hrest).1,
      List.forall_mem_cons.mpr ⟨WF.dropClientAux client child _ hchild, (ih _ hrest).2⟩⟩

end

/-! ## Well-formedness is kept -/

theorem WF.claimSegments (client : ClientId) (topic : List String) {d : Directory} (h : d.WF) :
    (claimSegments client topic d).2.WF := by
  induction topic generalizing d with
  | nil =>
    rw [Directory.claimSegments]
    split
    · split_ifs <;> exact h
    · exact h.setOwner _
  | cons segment rest ih =>
    rw [Directory.claimSegments]
    split_ifs
    · exact h
    · exact (h.ensureChild segment).setChild segment (ih ((h.ensureChild segment).getD segment))

theorem WF.unclaimSegments (client : ClientId) (topic : List String) {d : Directory} (h : d.WF) :
    (unclaimSegments client topic d).2.WF := by
  induction topic generalizing d with
  | nil =>
    rw [Directory.unclaimSegments]
    split_ifs
    · exact h.setOwner _
    · exact h
  | cons segment rest ih =>
    rw [Directory.unclaimSegments]
    split_ifs
    · exact h
    · split
      · rename_i child hc
        exact h.setChild segment (ih (h.child? hc))
      · exact h

theorem WF.subscribeSegments (client : ClientId) (topic : List String) {d : Directory} (h : d.WF) :
    (subscribeSegments client topic d).WF := by
  induction topic generalizing d with
  | nil => exact h.setSubscribers _
  | cons segment rest ih =>
    exact (h.ensureChild segment).setChild segment (ih ((h.ensureChild segment).getD segment))

theorem WF.unsubscribeSegments (client : ClientId) (topic : List String) {d : Directory}
    (h : d.WF) : (unsubscribeSegments client topic d).2.WF := by
  induction topic generalizing d with
  | nil => exact h.setSubscribers _
  | cons segment rest ih =>
    rw [Directory.unsubscribeSegments]
    split
    · rename_i child hc
      exact h.setChild segment (ih (h.child? hc))
    · exact h

end Directory

end T2Bus
