import T2Bus.Directory.Lookups

/-!
# What `drop_client` reports

`drop_client` walks the tree with a stack of segments, and rebuilds a topic wherever the client was the
last subscriber. A hash map is iterated in an order of its own, so the result is stated for every order
of the children.

* `lastPaths`: the paths at which the client is the only subscriber; **`dropClient_results`**: the
  topics that are reported;
* `Reorder`: the same directory, its children in another order; `Built`: the directories that the
  operations build;
* **`dropClient_reports`**.
-/

namespace T2Bus

namespace Directory

variable {d d' : Directory} {c : ClientId} {t : Topic} {f : Flat}

/-! ## The walk -/

/-- The client is the only subscriber at the path. -/
def Last (d : Directory) (c : ClientId) (path : List String) : Prop :=
  c ∈ (d.contents path).subscribers ∧ ∀ k ∈ (d.contents path).subscribers, k = c

mutual

/-- The paths at which the client is the only subscriber, in the order of the walk. -/
def lastPaths (c : ClientId) : Directory → List (List String)
  | mk _ children subscribers =>
    (if c ∈ subscribers ∧ subscribers.filter (· ≠ c) = [] then [[]] else []) ++
      lastPathsChildren c children

def lastPathsChildren (c : ClientId) : List (String × Directory) → List (List String)
  | [] => []
  | (segment, child) :: rest =>
    (lastPaths c child).map (fun path => segment :: path) ++ lastPathsChildren c rest

end

theorem lastPathsChildren_eq (c : ClientId) (children : List (String × Directory)) :
    lastPathsChildren c children =
      children.flatMap fun child => (lastPaths c child.2).map fun path => child.1 :: path := by
  induction children with
  | nil => rfl
  | cons child rest ih =>
    obtain ⟨segment, child⟩ := child
    rw [lastPathsChildren, List.flatMap_cons, ih]

theorem last_nil {owner : Option ClientId} {children : List (String × Directory)}
    {subscribers : List ClientId} : (mk owner children subscribers).Last c [] ↔
      c ∈ subscribers ∧ subscribers.filter (· ≠ c) = [] := by
  rw [List.filter_eq_nil_iff]
  simp [Last, contents_nil, Directory.subscribers]

theorem last_cons (hd : d.WF) {child : String × Directory} (hm : child ∈ d.children)
    (path : List String) : d.Last c (child.1 :: path) ↔ child.2.Last c path := by
  have hc : d.child? child.1 = some child.2 := Assoc.lookup_of_mem hd.nodup hm
  rw [Last, Last, contents_cons, hc]
  rfl

/-- The walk comes to every path at which the client is the only subscriber. -/
theorem mem_lastPaths (c : ClientId) (d : Directory) : d.WF → ∀ path,
    path ∈ lastPaths c d ↔ d.Last c path := by
  induction d using Directory.induct with
  | node owner children subscribers ih =>
    intro hd path
    rw [lastPaths, lastPathsChildren_eq, List.mem_append, List.mem_flatMap]
    cases path with
    | nil =>
      rw [last_nil]
      split_ifs with h
      · exact iff_of_true (Or.inl (List.mem_singleton_self _)) h
      · exact iff_of_false (by simp) h
    | cons segment rest =>
      have hnil : segment :: rest ∉ (if c ∈ subscribers ∧ subscribers.filter (· ≠ c) = [] then [[]]
          else [] : List (List String)) := by
        split_ifs <;> simp
      rw [or_iff_right hnil]
      constructor
      · rintro ⟨child, hm, hp⟩
        obtain ⟨p, hp, he⟩ := List.mem_map.mp hp
        cases he
        exact (last_cons hd hm _).mpr ((ih child hm (hd.child child hm) _).mp hp)
      · intro hlast
        obtain ⟨child, hchild, -⟩ := mem_contents_cons.mp hlast.1
        have hm : (segment, child) ∈ children := Assoc.mem_of_lookup hchild
        exact ⟨_, hm, List.mem_map_of_mem ((ih _ hm (hd.child _ hm) _).mpr
          ((last_cons hd hm _).mp hlast))⟩

/-- The walk comes to no path twice. -/
theorem nodup_lastPaths (c : ClientId) (d : Directory) : d.WF → (lastPaths c d).Nodup := by
  induction d using Directory.induct with
  | node owner children subscribers ih =>
    intro hd
    rw [lastPaths, lastPathsChildren_eq]
    refine List.Nodup.append ?_ ?_ ?_
    · split_ifs <;> simp
    · refine List.nodup_flatMap.mpr ⟨fun child hm => ?_, ?_⟩
      · exact (ih child hm (hd.child child hm)).map fun p q h => (List.cons.inj h).2
      · -- the paths below two children differ in their first segment
        refine (List.pairwise_map.mp hd.nodup).imp fun {a b} hne => ?_
        refine List.disjoint_left.mpr fun path ha hb => ?_
        obtain ⟨p, -, rfl⟩ := List.mem_map.mp ha
        obtain ⟨q, -, he⟩ := List.mem_map.mp hb
        exact hne (List.cons.inj he).1.symm
    · refine List.disjoint_left.mpr fun path hnil hm => ?_
      obtain ⟨child, -, hp⟩ := List.mem_flatMap.mp hm
      obtain ⟨p, -, rfl⟩ := List.mem_map.mp hp
      split_ifs at hnil <;> simp at hnil

mutual

/-- The stack is as it was when a subtree is done. -/
theorem dropClientAux_topic (c : ClientId) : ∀ (d : Directory) (s : Drop),
    (dropClientAux c d s).2.topic = s.topic
  | mk owner children subscribers, s => by
    rw [dropClientAux]
    refine (dropClientChildren_topic c children _).trans ?_
    split_ifs <;> rfl

theorem dropClientChildren_topic (c : ClientId) : ∀ (children : List (String × Directory))
    (s : Drop), (dropClientChildren c children s).2.topic = s.topic
  | [], s => rfl
  | (segment, child) :: rest, s => by
    rw [dropClientChildren]
    refine (dropClientChildren_topic c rest _).trans ?_
    rw [Drop.pop, dropClientAux_topic c child]
    exact List.dropLast_concat

end

mutual

/-- **What the walk adds to the results**: the topics of the stack and the paths. -/
theorem dropClientAux_results (c : ClientId) : ∀ (d : Directory) (s : Drop),
    (dropClientAux c d s).2.results = s.results ++
      (lastPaths c d).filterMap fun path => Topic.fromValidSegments (s.topic ++ path)
  | mk owner children subscribers, s => by
    rw [dropClientAux, lastPaths]
    refine (dropClientChildren_results c children _).trans ?_
    split_ifs with h
    · rw [List.append_assoc, List.filterMap_append]
      congr 1
      cases hs : Topic.fromValidSegments s.topic <;> simp [hs]
    · rfl

theorem dropClientChildren_results (c : ClientId) : ∀ (children : List (String × Directory))
    (s : Drop), (dropClientChildren c children s).2.results = s.results ++
      (lastPathsChildren c children).filterMap fun path => Topic.fromValidSegments (s.topic ++ path)
  | [], s => (List.append_nil _).symm
  | (segment, child) :: rest, s => by
    have hstack : (dropClientAux c child (s.push segment)).2.pop.topic = s.topic := by
      rw [Drop.pop, dropClientAux_topic]
      exact List.dropLast_concat
    rw [dropClientChildren, lastPathsChildren]
    refine (dropClientChildren_results c rest _).trans ?_
    rw [hstack, List.filterMap_append, List.filterMap_map, ← List.append_assoc]
    congr 1
    refine (dropClientAux_results c child (s.push segment)).trans ?_
    congr 1
    refine List.filterMap_congr fun path _ => ?_
    simp [Drop.push]

end

theorem dropClient_results (d : Directory) (c : ClientId) :
    (d.dropClient c).1 = (lastPaths c d).filterMap Topic.fromValidSegments :=
  dropClientAux_results c d ⟨[], []⟩

/-- Every path that is reported is that of its topic. -/
theorem map_segments_dropClient (hd : d.Sound) :
    (d.dropClient c).1.map Topic.segments = lastPaths c d := by
  obtain ⟨f, hr, -⟩ := hd
  have hpath : ∀ path ∈ lastPaths c d, ∃ t : Topic, t.segments = path := by
    intro path hp
    obtain ⟨t, ht, -⟩ := (hr.sub c path).mp ((mem_lastPaths c d hr.wf path).mp hp).1
    exact ⟨t, ht⟩
  rw [dropClient_results, List.map_filterMap]
  refine (List.filterMap_congr fun path hp => ?_).trans List.filterMap_some
  obtain ⟨t, rfl⟩ := hpath path hp
  rw [Topic.fromValidSegments_segments]
  rfl

/-- **`drop_client` reports the topics whose last subscriber it drops**. -/
theorem mem_dropClient (hd : d.Sound) :
    t ∈ (d.dropClient c).1 ↔ d.Subscribed c t ∧ ∀ k, d.Subscribed k t → k = c := by
  have hwf : d.WF := hd.choose_spec.1.wf
  refine Iff.trans ?_ (mem_lastPaths c d hwf t.segments)
  rw [← map_segments_dropClient hd]
  exact (List.mem_map_of_injective Topic.segments_injective).symm

/-- It reports no topic twice. -/
theorem nodup_dropClient (hd : d.Sound) : (d.dropClient c).1.Nodup := by
  refine List.Nodup.of_map Topic.segments ?_
  rw [map_segments_dropClient hd]
  exact nodup_lastPaths c d hd.choose_spec.1.wf

/-! ## Any order of the children -/

/-- The same directory, its hash maps iterated in another order. -/
inductive Reorder : Directory → Directory → Prop where
  | children {owner : Option ClientId} {children children' : List (String × Directory)}
      {subscribers : List ClientId} (h : children.Perm children') :
      Reorder (mk owner children subscribers) (mk owner children' subscribers)
  | child {owner : Option ClientId} {before after : List (String × Directory)} {name : String}
      {child child' : Directory} {subscribers : List ClientId} (h : Reorder child child') :
      Reorder (mk owner (before ++ (name, child) :: after) subscribers)
        (mk owner (before ++ (name, child') :: after) subscribers)
  | trans {d d' d'' : Directory} (h : Reorder d d') (h' : Reorder d' d'') : Reorder d d''

/-- **The order of the children does not show in the contents.** -/
theorem Reorder.contents (h : d.Reorder d') : d.WF →
    d'.WF ∧ ∀ path, d'.contents path = d.contents path := by
  induction h with
  | @children owner children children' subscribers hperm =>
    intro hd
    have hnodup : Assoc.NodupKeys children' := (hperm.map Prod.fst).nodup_iff.mp hd.nodup
    refine ⟨.mk hnodup fun c hc => hd.child c (hperm.mem_iff.mpr hc), fun path => ?_⟩
    cases path with
    | nil => rfl
    | cons segment rest =>
      have hchild : (mk owner children' subscribers).child? segment =
          (mk owner children subscribers).child? segment := by
        refine Option.ext fun child => ?_
        exact (Assoc.mem_iff_lookup hnodup).symm.trans
          (hperm.mem_iff.symm.trans (Assoc.mem_iff_lookup hd.nodup))
      rw [contents_cons, contents_cons, hchild]
  | @child owner before after name child child' subscribers _ ih =>
    intro hd
    obtain ⟨hwf, hcontents⟩ := ih (hd.child (name, child) (by simp [Directory.children]))
    refine ⟨.mk ?_ fun c hc => ?_, fun path => ?_⟩
    · have hkeys := hd.nodup
      simpa [Assoc.NodupKeys, Directory.children] using hkeys
    · rcases List.mem_append.mp hc with hc | hc
      · exact hd.child c (List.mem_append_left _ hc)
      · rcases List.mem_cons.mp hc with rfl | hc
        · exact hwf
        · exact hd.child c (List.mem_append_right _ (List.mem_cons_of_mem _ hc))
    · cases path with
      | nil => rfl
      | cons segment rest =>
        rw [contents_cons, contents_cons]
        simp only [child?, Directory.children, List.lookup_append, Assoc.lookup_cons]
        cases before.lookup segment with
        | some c => rfl
        | none =>
          simp only [Option.none_or]
          split_ifs
          · exact hcontents rest
          · rfl
  | trans _ _ ih ih' =>
    intro hd
    obtain ⟨hwf, hcontents⟩ := ih hd
    obtain ⟨hwf', hcontents'⟩ := ih' hwf
    exact ⟨hwf', fun path => (hcontents' path).trans (hcontents path)⟩

/-- The directories that valid operations build, with the flat state of these operations; between two
of them the order of the children may change. -/
inductive Built : Directory → Flat → Prop where
  | new : Built new .new
  | apply {d : Directory} {f : Flat} (h : Built d f) (op : Op) (hop : op.Valid) :
      Built (d.apply op) (f.apply op)
  | reorder {d d' : Directory} {f : Flat} (h : Built d f) (hr : d.Reorder d') : Built d' f

theorem Built.represents (h : Built d f) : d.Represents f ∧ f.Valid := by
  induction h with
  | new => exact ⟨represents_new, Flat.valid_new⟩
  | apply _ op hop ih => exact ⟨ih.1.apply ih.2 op, ih.2.apply hop⟩
  | reorder _ hr ih =>
    obtain ⟨hwf, hcontents⟩ := hr.contents ih.1.wf
    exact ⟨ih.1.of_contents_eq hwf hcontents, ih.2⟩

/-- **`drop_client` reports each topic that loses its last subscriber, once, and no other topic**; the
topics are valid, and those that were subscribed to. -/
theorem dropClient_reports (h : Built d f) (c : ClientId) : (d.dropClient c).1.Nodup ∧
    ∀ t, (t ∈ (d.dropClient c).1 ↔ (c, t) ∈ f.subs ∧ ∀ k, (k, t) ∈ f.subs → k = c) ∧
      (t ∈ (d.dropClient c).1 → t.Valid) := by
  obtain ⟨hr, hf⟩ := h.represents
  have hmem : ∀ t, t ∈ (d.dropClient c).1 ↔ (c, t) ∈ f.subs ∧ ∀ k, (k, t) ∈ f.subs → k = c := by
    intro t
    rw [mem_dropClient ⟨f, hr, hf⟩]
    exact and_congr (hr.mem_subscribers c t) (forall_congr' fun k =>
      imp_congr_left (hr.mem_subscribers k t))
  exact ⟨nodup_dropClient ⟨f, hr, hf⟩, fun t => ⟨hmem t, fun ht => hf.sub _ ((hmem t).mp ht).1⟩⟩

theorem built_applyOps (ops : List Op) (hops : ∀ op ∈ ops, op.Valid) :
    Built (applyOps ops) (Flat.applyOps ops) := by
  induction ops using List.reverseRecOn with
  | nil => exact .new
  | append_singleton ops op ih =>
    rw [applyOps, Flat.applyOps, List.foldl_concat, List.foldl_concat]
    exact (ih fun o ho => hops o (List.mem_append_left _ ho)).apply op (hops op (by simp))

/-- A client that is alone on `p:` and on `p:a/*`; the children of `p` have changed places. -/
theorem dropClient_reports_swapped :
    let d : Directory := .mk none [("p", .mk none [("b", .mk none [] [2, 1]),
      ("a", .mk none [("*", .mk none [] [1])] [])] [1])] []
    let ops : List Op := [.subscribe 1 ⟨"p", ⟨""⟩⟩, .subscribe 1 ⟨"p", ⟨"a/*"⟩⟩,
      .subscribe 1 ⟨"p", ⟨"b"⟩⟩, .subscribe 2 ⟨"p", ⟨"b"⟩⟩]
    (d.dropClient 1).1 = [⟨"p", ⟨""⟩⟩, ⟨"p", ⟨"a/*"⟩⟩] ∧ (d.dropClient 1).1.Nodup ∧
      ∀ t, (t ∈ (d.dropClient 1).1 ↔ (1, t) ∈ (Flat.applyOps ops).subs ∧
        ∀ k, (k, t) ∈ (Flat.applyOps ops).subs → k = 1) ∧ (t ∈ (d.dropClient 1).1 → t.Valid) := by
  intro d ops
  have hbuilt : Built (applyOps ops) (Flat.applyOps ops) := built_applyOps ops (by decide)
  have hswap : (applyOps ops).Reorder d := @Reorder.child none [] [] "p" _ _ [] (.children (.swap _ _ _))
  exact ⟨by decide, dropClient_reports (hbuilt.reorder hswap) 1⟩

end Directory

end T2Bus
