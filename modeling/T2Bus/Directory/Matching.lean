import T2Bus.Lib.Glob
import T2Bus.Directory.Flat

/-!
# Topic matching

`getSubscribers` walks the trie of subscribed patterns with the published pattern. What it finds is
stated with the patterns alone: two topics match when some sequence of words is matched by both.

* `getSubscribersAux_nil`, `_doubleWildcard`, `_wildcard`, `_word`, `_true`: the search, branch by
  branch;
* `mem_getSubscribersAux`: soundness and completeness at any node, for any rest of the published
  topic and either flag; by induction on the tree and, below it, on the rest of the topic;
* `mem_getSubscribers`, `nodup_getSubscribers`: the same for a whole directory.
-/

namespace T2Bus

/-- The glob segment of a topic segment. -/
def globSeg (s : String) : Glob.Seg String :=
  if s = wildcard then .one else if s = doubleWildcard then .many else .lit s

/-- The concrete segments. -/
def words : Set String := {s | IsWord s}

/-- Some sequence of words is matched by both topics. -/
def Topic.Overlaps (t p : Topic) : Prop :=
  Glob.Overlap words (t.segments.map globSeg) (p.segments.map globSeg)

theorem globSeg_doubleWildcard : globSeg doubleWildcard = .many := by
  rw [globSeg, if_neg (by decide), if_pos rfl]

theorem globSeg_ne_many {s : String} (h : s ≠ doubleWildcard) : globSeg s ≠ .many := by
  unfold globSeg
  split_ifs <;> simp

/-- Every segment that is not `**` accepts some word. -/
theorem exists_accepts {s : String} (hs : IsSegment s) (h : s ≠ doubleWildcard) :
    ∃ a ∈ words, (globSeg s).Accepts a := by
  by_cases h₁ : s = wildcard
  · exact ⟨"a", by unfold words; decide, by rw [globSeg, if_pos h₁]; trivial⟩
  · exact ⟨s, hs.isWord h₁ h, by rw [globSeg, if_neg h₁, if_neg h]; rfl⟩

/-- `**` against a segment: it stops here, or consumes what the segment stands for. -/
theorem overlap_many_globSeg {s : String} (hs : IsSegment s) {P Q : List (Glob.Seg String)} :
    Glob.Overlap words (.many :: P) (globSeg s :: Q) ↔
      Glob.Overlap words P (globSeg s :: Q) ∨ Glob.Overlap words (.many :: P) Q := by
  by_cases h : s = doubleWildcard
  · rw [h, globSeg_doubleWildcard, Glob.overlap_many_many]
  · rw [Glob.overlap_many_cons (globSeg_ne_many h), and_iff_right (exists_accepts hs h)]

/-- Two segments other than `**` against each other. -/
theorem overlap_globSeg_globSeg {s t : String} (hs : IsSegment s) (ht : IsSegment t)
    (h₁ : s ≠ doubleWildcard) (h₂ : t ≠ doubleWildcard) {P Q : List (Glob.Seg String)} :
    Glob.Overlap words (globSeg s :: P) (globSeg t :: Q) ↔
      (s = t ∨ s = wildcard ∨ t = wildcard) ∧ Glob.Overlap words P Q := by
  rw [Glob.overlap_cons_cons (globSeg_ne_many h₁) (globSeg_ne_many h₂)]
  refine and_congr_left fun _ => ?_
  by_cases hsw : s = wildcard
  · obtain ⟨a, ha, hta⟩ := exists_accepts ht h₂
    have : (globSeg s).Accepts a := by rw [globSeg, if_pos hsw]; trivial
    exact iff_of_true ⟨a, ha, this, hta⟩ (Or.inr (Or.inl hsw))
  by_cases htw : t = wildcard
  · obtain ⟨a, ha, hsa⟩ := exists_accepts hs h₁
    have : (globSeg t).Accepts a := by rw [globSeg, if_pos htw]; trivial
    exact iff_of_true ⟨a, ha, hsa, this⟩ (Or.inr (Or.inr htw))
  have hlit : globSeg s = .lit s ∧ globSeg t = .lit t := by
    simp [globSeg, hsw, htw, h₁, h₂]
  rw [hlit.1, hlit.2]
  simp only [hsw, htw, or_false]
  constructor
  · rintro ⟨a, -, rfl, rfl⟩
    rfl
  · rintro rfl
    exact ⟨s, hs.isWord hsw h₁, rfl, rfl⟩

namespace Directory

/-! ## The search, branch by branch -/

theorem childSearches_eq (children : List (String × Directory)) :
    childSearches children = children.map fun c => (c.1, getSubscribersAux c.2) := by
  induction children with
  | nil => rfl
  | cons c rest ih => rw [childSearches, ih, List.map_cons]

/-- The search at a child, nothing if it is missing. -/
def searchChild (d : Directory) (name : String) : Search := fun topic flag =>
  match d.child? name with
  | some child => child.getSubscribersAux topic flag
  | none => []

theorem searchAt_childSearches (d : Directory) (name : String) :
    searchAt (childSearches d.children) name = d.searchChild name := by
  have hl : (childSearches d.children).lookup name =
      (d.child? name).map getSubscribersAux := by
    rw [child?, childSearches_eq]
    induction d.children with
    | nil => rfl
    | cons c rest ih =>
      rw [List.map_cons, Assoc.lookup_cons, Assoc.lookup_cons, ih]
      split_ifs <;> rfl
  funext topic flag
  rw [searchAt, hl, searchChild]
  cases d.child? name <;> rfl

theorem getSubscribersAux_eq (d : Directory) :
    d.getSubscribersAux = search d.subscribers (childSearches d.children) := by
  cases d
  rfl

theorem mem_foldl_union {α β : Type*} [BEq β] [LawfulBEq β] (f : α → List β) (l : List α)
    (init : List β) (c : β) :
    c ∈ l.foldl (fun found a => f a ∪ found) init ↔ c ∈ init ∨ ∃ a ∈ l, c ∈ f a := by
  induction l generalizing init with
  | nil => simp
  | cons a l ih =>
    rw [List.foldl_cons, ih, List.mem_union_iff]
    simp only [List.mem_cons, exists_eq_or_imp]
    tauto

variable (d : Directory) (c : ClientId)

/-- The flag up: the node stops here or consumes the next segment. -/
theorem getSubscribersAux_true (segment : String) (rest : List String) :
    c ∈ d.getSubscribersAux (segment :: rest) true ↔
      c ∈ d.getSubscribersAux (segment :: rest) false ∨ c ∈ d.getSubscribersAux rest true := by
  rw [getSubscribersAux_eq]
  exact List.mem_union_iff

theorem getSubscribersAux_nil (flag : Bool) :
    c ∈ d.getSubscribersAux [] flag ↔
      c ∈ d.subscribers ∨ c ∈ d.searchChild doubleWildcard [] true := by
  rw [getSubscribersAux_eq, search, searchNode, searchAt_childSearches]
  exact List.mem_union_iff

theorem getSubscribersAux_doubleWildcard (rest : List String) :
    c ∈ d.getSubscribersAux (doubleWildcard :: rest) false ↔
      c ∈ d.getSubscribersAux rest false ∨
        ∃ child ∈ d.children, c ∈ child.2.getSubscribersAux (doubleWildcard :: rest) false := by
  rw [getSubscribersAux_eq]
  simp only [search, searchNode, childSearches_eq, Bool.false_eq_true, if_false, if_true,
    mem_foldl_union (fun child : String × Search => child.2 (doubleWildcard :: rest) false),
    List.mem_map, exists_exists_and_eq_and]

theorem getSubscribersAux_wildcard (rest : List String) :
    c ∈ d.getSubscribersAux (wildcard :: rest) false ↔
      ∃ child ∈ d.children, c ∈
        if child.1 = doubleWildcard then child.2.getSubscribersAux (wildcard :: rest) true
        else child.2.getSubscribersAux rest false := by
  have hne : ¬ wildcard = doubleWildcard := by decide
  rw [getSubscribersAux_eq]
  simp only [search, searchNode, childSearches_eq, Bool.false_eq_true, if_false, if_true, hne,
    mem_foldl_union (fun child : String × Search => if child.1 = doubleWildcard then
      child.2 (wildcard :: rest) true else child.2 rest false),
    List.mem_map, exists_exists_and_eq_and, List.not_mem_nil, false_or]

theorem getSubscribersAux_word {segment : String} (h : ¬ isWildcard segment) (rest : List String) :
    c ∈ d.getSubscribersAux (segment :: rest) false ↔
      c ∈ d.searchChild segment rest false ∨ c ∈ d.searchChild wildcard rest false ∨
        c ∈ d.searchChild doubleWildcard (segment :: rest) true := by
  obtain ⟨h₁, h₂⟩ := not_or.mp h
  rw [getSubscribersAux_eq, search, searchNode, if_neg h₂, if_neg h₁]
  simp only [searchAt_childSearches, Bool.false_eq_true, if_false, List.mem_union_iff, or_assoc]

/-! ## Soundness and completeness -/

variable {d} {c}

theorem mem_searchChild {name : String} {topic : List String} {flag : Bool} :
    c ∈ d.searchChild name topic flag ↔
      ∃ child, d.child? name = some child ∧ c ∈ child.getSubscribersAux topic flag := by
  rw [searchChild]
  cases d.child? name <;> simp

/-- The pattern of a node's subscriptions as seen from the node: the path below it, after a `**`
when the flag is up. -/
def patternBelow (flag : Bool) (path : List String) : List (Glob.Seg String) :=
  (if flag then [.many] else []) ++ path.map globSeg

/-- The client subscribed somewhere below the node, to a pattern that overlaps the topic. -/
def FoundBelow (d : Directory) (c : ClientId) (topic : List String) (flag : Bool) : Prop :=
  ∃ path, c ∈ (d.contents path).subscribers ∧
    Glob.Overlap words (patternBelow flag path) (topic.map globSeg)

/-- Every path with a subscriber consists of segments. -/
def SegmentsBelow (d : Directory) : Prop :=
  ∀ path c, c ∈ (d.contents path).subscribers → ∀ s ∈ path, IsSegment s

/-- Split what is found below a node at the node itself and at its children. -/
theorem foundBelow_false {topic : List String} :
    FoundBelow d c topic false ↔
      c ∈ d.subscribers ∧ Glob.Overlap words [] (topic.map globSeg) ∨
        ∃ name child path, d.child? name = some child ∧ c ∈ (child.contents path).subscribers ∧
          Glob.Overlap words (globSeg name :: path.map globSeg) (topic.map globSeg) := by
  constructor
  · rintro ⟨path, hc, ho⟩
    cases path with
    | nil => exact Or.inl ⟨hc, ho⟩
    | cons name path =>
      obtain ⟨child, hchild, hc⟩ := mem_contents_cons.mp hc
      exact Or.inr ⟨name, child, path, hchild, hc, ho⟩
  · rintro (⟨hc, ho⟩ | ⟨name, child, path, hchild, hc, ho⟩)
    · exact ⟨[], hc, ho⟩
    · exact ⟨name :: path, mem_contents_cons.mpr ⟨child, hchild, hc⟩, ho⟩

/-- With the flag up, the node's `**` stops here or consumes the next segment. -/
theorem foundBelow_true {segment : String} {rest : List String} (hs : IsSegment segment) :
    FoundBelow d c (segment :: rest) true ↔
      FoundBelow d c (segment :: rest) false ∨ FoundBelow d c rest true := by
  simp only [FoundBelow, ← exists_or, ← and_or_left]
  exact exists_congr fun path => and_congr_right fun _ => overlap_many_globSeg hs

/-- Against an exhausted topic the flag does not matter. -/
theorem foundBelow_nil_true : FoundBelow d c [] true ↔ FoundBelow d c [] false :=
  exists_congr fun _ => and_congr_right fun _ => Glob.overlap_many_nil

theorem SegmentsBelow.child {child : Directory} {name : String} (h : d.SegmentsBelow)
    (hc : d.child? name = some child) : child.SegmentsBelow := fun path c hm s hs =>
  h (name :: path) c (mem_contents_cons.mpr ⟨child, hc, hm⟩) s (List.mem_cons_of_mem _ hs)

theorem SegmentsBelow.name {child : Directory} {name : String} {path : List String}
    (h : d.SegmentsBelow) (hc : d.child? name = some child)
    (hm : c ∈ (child.contents path).subscribers) : IsSegment name :=
  h (name :: path) c (mem_contents_cons.mpr ⟨child, hc, hm⟩) name List.mem_cons_self

/-- The client is found at the children of the node exactly if it is there. -/
def ChildrenSearched (d : Directory) (c : ClientId) : Prop :=
  ∀ name child, d.child? name = some child → ∀ topic flag, (∀ s ∈ topic, IsSegment s) →
    (c ∈ child.getSubscribersAux topic flag ↔ FoundBelow child c topic flag)

/-- A child for `**` is searched with the flag up, for the whole topic. -/
theorem ChildrenSearched.doubleWildcard (h : d.ChildrenSearched c) {child : Directory}
    (hchild : d.child? doubleWildcard = some child) {topic : List String}
    (htopic : ∀ s ∈ topic, IsSegment s) :
    c ∈ child.getSubscribersAux topic true ↔ ∃ path, c ∈ (child.contents path).subscribers ∧
      Glob.Overlap words (globSeg T2Bus.doubleWildcard :: path.map globSeg) (topic.map globSeg) := by
  rw [h _ child hchild _ _ htopic, globSeg_doubleWildcard]
  rfl

/-- Any other child that meets the published segment is searched for the rest of the topic. -/
theorem ChildrenSearched.segment (h : d.ChildrenSearched c) (hseg : d.SegmentsBelow) {name : String}
    {child : Directory} (hchild : d.child? name = some child) {segment : String}
    {rest : List String} (htopic : ∀ s ∈ segment :: rest, IsSegment s)
    (hname : name ≠ T2Bus.doubleWildcard) (hsegment : segment ≠ T2Bus.doubleWildcard)
    (hmeet : name = segment ∨ name = wildcard ∨ segment = wildcard) :
    c ∈ child.getSubscribersAux rest false ↔ ∃ path, c ∈ (child.contents path).subscribers ∧
      Glob.Overlap words (globSeg name :: path.map globSeg) ((segment :: rest).map globSeg) := by
  obtain ⟨hs, hrest⟩ := List.forall_mem_cons.mp htopic
  rw [h name child hchild _ _ hrest]
  refine exists_congr fun path => and_congr_right fun hc => ?_
  rw [List.map_cons, overlap_globSeg_globSeg (hseg.name hchild hc) hs hname hsegment,
    and_iff_right hmeet]
  rfl

/-- Published `**`: drop it, or let it consume what the child's segment stands for. -/
theorem mem_getSubscribersAux_doubleWildcard (hd : d.WF) (hseg : d.SegmentsBelow)
    (ih : d.ChildrenSearched c) {rest : List String}
    (htopic : ∀ s ∈ doubleWildcard :: rest, IsSegment s)
    (ihrest : c ∈ d.getSubscribersAux rest false ↔ FoundBelow d c rest false) :
    c ∈ d.getSubscribersAux (doubleWildcard :: rest) false ↔
      FoundBelow d c (doubleWildcard :: rest) false := by
  have hmem : ∀ name child, (name, child) ∈ d.children ↔ d.child? name = some child :=
    fun name child => Assoc.mem_iff_lookup hd.nodup
  rw [getSubscribersAux_doubleWildcard, ihrest, foundBelow_false, foundBelow_false]
  have hnil : Glob.Overlap words [] ((doubleWildcard :: rest).map globSeg) ↔
      Glob.Overlap words [] (rest.map globSeg) := by
    rw [List.map_cons, globSeg_doubleWildcard, Glob.overlap_comm, Glob.overlap_many_nil,
      Glob.overlap_comm]
  have hcons : ∀ name child path, d.child? name = some child →
      c ∈ (child.contents path).subscribers →
      (Glob.Overlap words (globSeg name :: path.map globSeg)
          ((doubleWildcard :: rest).map globSeg) ↔
        Glob.Overlap words (globSeg name :: path.map globSeg) (rest.map globSeg) ∨
          Glob.Overlap words (path.map globSeg) ((doubleWildcard :: rest).map globSeg)) := by
    intro name child path hchild hc
    rw [List.map_cons, globSeg_doubleWildcard, Glob.overlap_comm,
      overlap_many_globSeg (hseg.name hchild hc), Glob.overlap_comm]
    exact or_congr_right Glob.overlap_comm
  constructor
  · rintro ((⟨hc, ho⟩ | ⟨name, child, path, hchild, hc, ho⟩) | ⟨⟨name, child⟩, hm, hc⟩)
    · exact Or.inl ⟨hc, hnil.mpr ho⟩
    · exact Or.inr ⟨name, child, path, hchild, hc, (hcons _ _ _ hchild hc).mpr (Or.inl ho)⟩
    · have hchild := (hmem name child).mp hm
      obtain ⟨path, hc, ho⟩ := (ih name child hchild _ _ htopic).mp hc
      exact Or.inr ⟨name, child, path, hchild, hc, (hcons _ _ _ hchild hc).mpr (Or.inr ho)⟩
  · rintro (⟨hc, ho⟩ | ⟨name, child, path, hchild, hc, ho⟩)
    · exact Or.inl (Or.inl ⟨hc, hnil.mp ho⟩)
    · rcases (hcons _ _ _ hchild hc).mp ho with ho | ho
      · exact Or.inl (Or.inr ⟨name, child, path, hchild, hc, ho⟩)
      · exact Or.inr ⟨(name, child), (hmem name child).mpr hchild,
          (ih name child hchild _ _ htopic).mpr ⟨path, hc, ho⟩⟩

/-- Any other published segment is consumed by a segment of a child, or by its `**`. -/
theorem foundBelow_segment {segment : String} {rest : List String}
    (hsegment : segment ≠ doubleWildcard) : FoundBelow d c (segment :: rest) false ↔
      ∃ name child path, d.child? name = some child ∧ c ∈ (child.contents path).subscribers ∧
        Glob.Overlap words (globSeg name :: path.map globSeg) ((segment :: rest).map globSeg) := by
  rw [foundBelow_false, or_iff_right]
  rintro ⟨-, ho⟩
  exact Glob.not_overlap_cons_nil (globSeg_ne_many hsegment) ho.symm

/-- Published `*`: all children are searched. -/
theorem mem_getSubscribersAux_wildcard (hd : d.WF) (hseg : d.SegmentsBelow)
    (ih : d.ChildrenSearched c) {rest : List String} (htopic : ∀ s ∈ wildcard :: rest, IsSegment s) :
    c ∈ d.getSubscribersAux (wildcard :: rest) false ↔ FoundBelow d c (wildcard :: rest) false := by
  have hmem : ∀ name child, (name, child) ∈ d.children ↔ d.child? name = some child :=
    fun name child => Assoc.mem_iff_lookup hd.nodup
  have hne : wildcard ≠ doubleWildcard := by decide
  rw [foundBelow_segment hne, getSubscribersAux_wildcard]
  constructor
  · rintro ⟨⟨name, child⟩, hm, hc⟩
    have hchild := (hmem name child).mp hm
    by_cases hn : name = doubleWildcard
    · subst hn
      obtain ⟨path, hc, ho⟩ := (ih.doubleWildcard hchild htopic).mp (by simpa using hc)
      exact ⟨_, child, path, hchild, hc, ho⟩
    · obtain ⟨path, hc, ho⟩ := (ih.segment hseg hchild htopic hn hne (Or.inr (Or.inr rfl))).mp
        (by simpa [hn] using hc)
      exact ⟨name, child, path, hchild, hc, ho⟩
  · rintro ⟨name, child, path, hchild, hc, ho⟩
    refine ⟨(name, child), (hmem name child).mpr hchild, ?_⟩
    by_cases hn : name = doubleWildcard
    · subst hn
      simpa using (ih.doubleWildcard hchild htopic).mpr ⟨path, hc, ho⟩
    · simpa [hn] using
        (ih.segment hseg hchild htopic hn hne (Or.inr (Or.inr rfl))).mpr ⟨path, hc, ho⟩

/-- A published word: its own child, that for `*` and that for `**` are searched. -/
theorem mem_getSubscribersAux_word (hseg : d.SegmentsBelow) (ih : d.ChildrenSearched c)
    {segment : String} {rest : List String} (htopic : ∀ s ∈ segment :: rest, IsSegment s)
    (h₁ : segment ≠ wildcard) (h₂ : segment ≠ doubleWildcard) :
    c ∈ d.getSubscribersAux (segment :: rest) false ↔ FoundBelow d c (segment :: rest) false := by
  have hs : IsSegment segment := htopic segment List.mem_cons_self
  rw [foundBelow_segment h₂, getSubscribersAux_word d c (not_or.mpr ⟨h₁, h₂⟩), mem_searchChild,
    mem_searchChild, mem_searchChild]
  constructor
  · rintro (⟨child, hchild, hc⟩ | ⟨child, hchild, hc⟩ | ⟨child, hchild, hc⟩)
    · obtain ⟨path, hc, ho⟩ := (ih.segment hseg hchild htopic h₂ h₂ (Or.inl rfl)).mp hc
      exact ⟨_, child, path, hchild, hc, ho⟩
    · obtain ⟨path, hc, ho⟩ :=
        (ih.segment hseg hchild htopic (by decide) h₂ (Or.inr (Or.inl rfl))).mp hc
      exact ⟨_, child, path, hchild, hc, ho⟩
    · obtain ⟨path, hc, ho⟩ := (ih.doubleWildcard hchild htopic).mp hc
      exact ⟨_, child, path, hchild, hc, ho⟩
  · rintro ⟨name, child, path, hchild, hc, ho⟩
    by_cases hn : name = doubleWildcard
    · subst hn
      exact Or.inr (Or.inr ⟨child, hchild, (ih.doubleWildcard hchild htopic).mpr ⟨path, hc, ho⟩⟩)
    · have hmeet := ((overlap_globSeg_globSeg (hseg.name hchild hc) hs hn h₂).mp ho).1
      have hfound := (ih.segment hseg hchild htopic hn h₂ hmeet).mpr ⟨path, hc, ho⟩
      rcases hmeet with rfl | rfl | hw
      · exact Or.inl ⟨child, hchild, hfound⟩
      · exact Or.inr (Or.inl ⟨child, hchild, hfound⟩)
      · exact absurd hw h₁

/-- What the search with the flag down owes at a node whose children are searched correctly. -/
theorem mem_getSubscribersAux_false (hd : d.WF) (hseg : d.SegmentsBelow)
    (ih : d.ChildrenSearched c) {segment : String} {rest : List String}
    (htopic : ∀ s ∈ segment :: rest, IsSegment s)
    (ihrest : c ∈ d.getSubscribersAux rest false ↔ FoundBelow d c rest false) :
    c ∈ d.getSubscribersAux (segment :: rest) false ↔ FoundBelow d c (segment :: rest) false := by
  by_cases h₂ : segment = doubleWildcard
  · subst h₂
    exact mem_getSubscribersAux_doubleWildcard hd hseg ih htopic ihrest
  · by_cases h₁ : segment = wildcard
    · subst h₁
      exact mem_getSubscribersAux_wildcard hd hseg ih htopic
    · exact mem_getSubscribersAux_word hseg ih htopic h₁ h₂

/-- **The search is sound and complete**, at every node, for every rest of the published topic and
either flag. -/
theorem mem_getSubscribersAux (c : ClientId) (d : Directory) : d.WF → d.SegmentsBelow →
    ∀ topic flag, (∀ s ∈ topic, IsSegment s) →
      (c ∈ d.getSubscribersAux topic flag ↔ FoundBelow d c topic flag) := by
  induction d using Directory.induct with
  | node owner children subscribers ih =>
  intro hd hseg topic
  have hchild : (mk owner children subscribers).ChildrenSearched c :=
    fun name child h => ih _ (Assoc.mem_of_lookup h) (hd.child? h) (hseg.child h)
  induction topic with
  | nil =>
    intro flag _
    have hflag : FoundBelow (mk owner children subscribers) c [] flag ↔
        FoundBelow (mk owner children subscribers) c [] false := by
      cases flag
      · rfl
      · exact foundBelow_nil_true
    rw [hflag, foundBelow_false, getSubscribersAux_nil, mem_searchChild]
    refine or_congr (and_iff_left Glob.overlap_nil_nil).symm ?_
    constructor
    · rintro ⟨child, h, hc⟩
      obtain ⟨path, hc, ho⟩ := (hchild _ child h [] true (by simp)).mp hc
      exact ⟨_, child, path, h, hc, ho⟩
    · rintro ⟨name, child, path, h, hc, ho⟩
      -- only `**` matches the empty rest
      have hn : name = doubleWildcard := by
        by_contra hn
        exact Glob.not_overlap_cons_nil (globSeg_ne_many hn) ho
      subst hn
      exact ⟨child, h, (hchild _ child h [] true (by simp)).mpr ⟨path, hc, ho⟩⟩
  | cons segment rest ihrest =>
    intro flag htopic
    have hrest : ∀ s ∈ rest, IsSegment s := fun s h => htopic s (List.mem_cons_of_mem _ h)
    have hfalse := mem_getSubscribersAux_false hd hseg hchild htopic (ihrest false hrest)
    cases flag with
    | false => exact hfalse
    | true =>
      rw [getSubscribersAux_true, hfalse, ihrest true hrest,
        foundBelow_true (htopic segment List.mem_cons_self)]

/-! ## No duplicates -/

theorem nodup_foldl_union {α β : Type*} [DecidableEq β] (f : α → List β) (l : List α)
    {init : List β} (h : init.Nodup) : (l.foldl (fun found a => f a ∪ found) init).Nodup := by
  induction l generalizing init with
  | nil => exact h
  | cons a l ih => exact ih (h.union _)

theorem nodup_getSubscribersAux (d : Directory) : ∀ topic flag,
    (d.getSubscribersAux topic flag).Nodup := by
  induction d using Directory.induct with
  | node owner children subscribers ih =>
  have hsearch : ∀ name topic flag, ((mk owner children subscribers).searchChild name topic
      flag).Nodup := by
    intro name topic flag
    rw [searchChild]
    cases h : (mk owner children subscribers).child? name with
    | none => exact List.nodup_nil
    | some child => exact ih _ (Assoc.mem_of_lookup h) topic flag
  intro topic
  rw [getSubscribersAux_eq]
  induction topic with
  | nil =>
    intro flag
    rw [search, searchNode, searchAt_childSearches]
    exact (hsearch _ _ _).union _
  | cons segment rest ihrest =>
    intro flag
    have hnode : (searchNode subscribers (childSearches children) (segment :: rest)
        (search subscribers (childSearches children) rest false)).Nodup := by
      rw [searchNode]
      split_ifs
      · exact nodup_foldl_union _ _ (ihrest false)
      · exact nodup_foldl_union _ _ List.nodup_nil
      · have hat := searchAt_childSearches (mk owner children subscribers) doubleWildcard
        exact List.Nodup.union _ (congrFun₂ hat _ _ ▸ hsearch _ _ _)
    rw [search]
    cases flag with
    | false => exact hnode
    | true => exact (ihrest true).union _

/-! ## A whole directory -/

/-- The client subscribed to the topic. -/
def Subscribed (d : Directory) (c : ClientId) (t : Topic) : Prop :=
  c ∈ (d.contents t.segments).subscribers

theorem Sound.segmentsBelow (h : d.Sound) : d.SegmentsBelow := by
  obtain ⟨f, hr, hf⟩ := h
  intro path c hc s hs
  obtain ⟨t, rfl, ht⟩ := (hr.sub c path).mp hc
  exact Topic.valid_segments (hf.sub _ ht) s hs

/-- **Topic matching is exact**: `getSubscribers` returns the clients with a subscription that
overlaps the published topic. -/
theorem mem_getSubscribers (h : d.Sound) {p : Topic} (hp : p.Valid) :
    c ∈ d.getSubscribers p ↔ ∃ t, d.Subscribed c t ∧ t.Overlaps p := by
  have hsub := h.segmentsBelow
  obtain ⟨f, hr, -⟩ := h
  rw [getSubscribers, mem_getSubscribersAux c d hr.wf hsub _ _ (Topic.valid_segments hp)]
  constructor
  · rintro ⟨path, hc, ho⟩
    obtain ⟨t, rfl, -⟩ := (hr.sub c path).mp hc
    exact ⟨t, hc, ho⟩
  · rintro ⟨t, hc, ho⟩
    exact ⟨t.segments, hc, ho⟩

theorem nodup_getSubscribers (d : Directory) (p : Topic) : (d.getSubscribers p).Nodup :=
  nodup_getSubscribersAux d _ _

/-- **Topic matching is exact in every directory built by its operations**: the list has no
duplicates, and holds the clients with a current subscription that overlaps the topic. -/
theorem getSubscribers_applyOps (ops : List Op) (hops : ∀ op ∈ ops, op.Valid) {p : Topic}
    (hp : p.Valid) :
    ((applyOps ops).getSubscribers p).Nodup ∧
      ∀ c, c ∈ (applyOps ops).getSubscribers p ↔
        ∃ t, (c, t) ∈ (Flat.applyOps ops).subs ∧ t.Overlaps p := by
  obtain ⟨hr, hv⟩ := represents_applyOps ops hops
  refine ⟨nodup_getSubscribers _ _, fun c => ?_⟩
  rw [mem_getSubscribers ⟨_, hr, hv⟩ hp]
  exact exists_congr fun t => and_congr_left fun _ => hr.mem_subscribers c t

/-- Two subscribers of `p:a/**` and `p:*`, one of them dropped, and a publication on `*:a`. -/
theorem getSubscribers_applyOps_run :
    let ops : List Op := [.subscribe 1 ⟨"p", ⟨"a/**"⟩⟩, .subscribe 2 ⟨"p", ⟨"*"⟩⟩,
      .claim 1 ⟨"p", ⟨"a"⟩⟩, .dropClient 2]
    ((applyOps ops).getSubscribers ⟨"*", ⟨"a"⟩⟩).Nodup ∧
      ∀ c, c ∈ (applyOps ops).getSubscribers ⟨"*", ⟨"a"⟩⟩ ↔
        ∃ t, (c, t) ∈ (Flat.applyOps ops).subs ∧ t.Overlaps ⟨"*", ⟨"a"⟩⟩ :=
  getSubscribers_applyOps _ (by decide) (by decide)

end Directory

end T2Bus
