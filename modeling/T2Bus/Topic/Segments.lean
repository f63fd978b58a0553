import T2Bus.Topic.Syntax

/-!
# Topics and their segments

A valid topic is given by its segments, and every list of segments that starts with a protocol is that of
a valid topic. So a node of the directory's trie stands for one topic.

* **`Path.segments_fromValidSegments`**: joining segments and splitting them again;
* **`Topic.segments_identify`**.
-/

namespace T2Bus

/-- A segment is not empty. -/
theorem IsSegment.ne_empty {s : String} (h : IsSegment s) : s ≠ "" := by
  rcases h with h | rfl | rfl
  · exact h.1
  · decide
  · decide

/-- The text of a list of segments is empty only if there are none. -/
theorem Path.fromValidSegments_ne_empty {s : String} (hs : IsSegment s) (rest : List String) :
    (Path.fromValidSegments (s :: rest)).str ≠ "" := by
  intro h
  have hnil := Path.toList_fromValidSegments (s :: rest)
  rw [h, List.map_cons, intercalate_cons_eq] at hnil
  have hs' : s.toList = [] := (List.append_eq_nil_iff.mp hnil.symm).1
  exact hs.ne_empty (String.toList_inj.mp hs')

/-- **Splitting what was joined of segments gives the segments back.** -/
theorem Path.segments_fromValidSegments {segments : List String} (h : ∀ s ∈ segments, IsSegment s) :
    (Path.fromValidSegments segments).segments = segments := by
  cases segments with
  | nil => rfl
  | cons s rest =>
    have hne := Path.fromValidSegments_ne_empty (h s List.mem_cons_self) rest
    have hsep : ∀ l ∈ (s :: rest).map String.toList, pathSeparator ∉ l := by
      intro l hl
      obtain ⟨x, hx, rfl⟩ := List.mem_map.mp hl
      exact (h x hx).separator_notMem
    rw [Path.segments_of_ne hne, Path.toList_fromValidSegments,
      List.splitOn_intercalate _ hsep (by simp), List.map_map]
    exact (List.map_congr_left fun x _ => String.ofList_toList).trans (List.map_id _)

/-- **Segments identify topics.** -/
theorem Topic.segments_identify :
    (∀ t : Topic, t.Valid → Topic.fromValidSegments t.segments = some t) ∧
    (∀ protocol path, IsProtocol protocol → (∀ s ∈ path, IsSegment s) →
      ∃ t : Topic, Topic.fromValidSegments (protocol :: path) = some t ∧ t.Valid ∧
        t.segments = protocol :: path) ∧
    ∀ t u : Topic, t.Valid → u.Valid → t.segments = u.segments → t = u := by
  refine ⟨fun t _ => t.fromValidSegments_segments, fun protocol path hprotocol hpath => ?_,
    fun t u _ _ h => Topic.segments_injective h⟩
  have hsegments := Path.segments_fromValidSegments hpath
  refine ⟨⟨protocol, Path.fromValidSegments path⟩, rfl, ?_, ?_⟩
  · rw [Topic.valid_iff, hsegments]
    exact ⟨hprotocol, hpath⟩
  · rw [Topic.segments, hsegments]

theorem Topic.segments_identify_price :
    Topic.fromValidSegments (Topic.segments ⟨"f32", ⟨"price/*/eur"⟩⟩) =
        some ⟨"f32", ⟨"price/*/eur"⟩⟩ ∧
      ∃ t : Topic, Topic.fromValidSegments ["*", "price", "**"] = some t ∧ t.Valid ∧
        t.segments = ["*", "price", "**"] :=
  ⟨Topic.segments_identify.1 _ (by decide),
    Topic.segments_identify.2.1 "*" ["price", "**"] (by decide) (by decide)⟩

end T2Bus
