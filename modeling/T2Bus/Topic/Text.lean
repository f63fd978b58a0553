import Mathlib.Data.List.TakeWhile
import T2Bus.Topic.Segments
import T2Bus.Transport.Serde

/-!
# The text of a topic

A topic is read from its text, from a protocol and a path, or from the pair that stands for it on the
wire. All three let the same topics through, and each gives back what was written.

* `splitOnce_iff`, `splitOnce_none_iff`: splitting at the first separator;
* `IsPath`, `Topic.IsText`: the grammar; **`Topic.fromStr_ok_iff`**;
* `Path.Constructible`, `Topic.Constructible`: the values that can be had; `Topic.constructible_iff`;
* **`Topic.ofItem_eq_fromStr`**: the wire; **`Topic.fromStr_exact`**.
-/

namespace T2Bus

open Cbor

/-! ## Splitting at the first separator -/

theorem splitOnce_of_notMem {c : Char} {a : String} (h : c ∉ a.toList) (b : String) :
    splitOnce c (a.push c ++ b) = some (a, b) := by
  have hall : ∀ x ∈ a.toList, (x != c) = true := fun x hx => bne_iff_ne.mpr fun e => h (e ▸ hx)
  have hsplit : (a.push c ++ b).toList.span (· != c) = (a.toList, c :: b.toList) := by
    rw [List.span_eq_takeWhile_dropWhile, String.toList_append, String.toList_push, List.append_assoc,
      List.takeWhile_append_of_pos hall, List.dropWhile_append_of_pos hall]
    simp
  rw [splitOnce, hsplit]
  simp

/-- **A string is split at the first separator**, if there is one. -/
theorem splitOnce_cases (c : Char) (s : String) : (c ∉ s.toList ∧ splitOnce c s = none) ∨
    ∃ a b, s = a.push c ++ b ∧ c ∉ a.toList ∧ splitOnce c s = some (a, b) := by
  by_cases hc : c ∈ s.toList
  · obtain ⟨a, b, hab, ha⟩ := List.eq_append_cons_of_mem hc
    have hs : s = (String.ofList a).push c ++ String.ofList b := by
      rw [← String.toList_inj, hab, String.toList_append, String.toList_push, String.toList_ofList,
        String.toList_ofList, List.append_assoc]
      rfl
    have ha' : c ∉ (String.ofList a).toList := by rwa [String.toList_ofList]
    refine Or.inr ⟨_, _, hs, ha', ?_⟩
    rw [hs]
    exact splitOnce_of_notMem ha' _
  · have hall : ∀ x ∈ s.toList, (x != c) = true := fun x hx => bne_iff_ne.mpr fun e => hc (e ▸ hx)
    have hsplit : s.toList.span (· != c) = (s.toList, []) := by
      rw [List.span_eq_takeWhile_dropWhile, List.takeWhile_eq_self_iff.mpr hall,
        List.dropWhile_eq_nil_iff.mpr hall]
    exact Or.inl ⟨hc, by rw [splitOnce, hsplit]⟩

/-! ## Paths -/

/-- A path as it is written: nothing, or segments with separators between them. -/
def IsPath (s : String) : Prop :=
  s = "" ∨ ∃ segments ≠ [], (∀ x ∈ segments, IsSegment x) ∧ s = "/".intercalate segments

theorem validatePath_iff_isPath (s : String) : validatePath s = .ok () ↔ IsPath s := by
  rw [validatePath_iff, IsPath]
  refine or_congr_right ⟨fun h => ⟨_, ?_, h, ?_⟩, ?_⟩
  · exact mt List.map_eq_nil_iff.mp (List.splitOn_ne_nil _ _)
  · rw [← String.toList_inj, String.toList_intercalate, List.map_map]
    have hid : String.toList ∘ String.ofList = id := funext fun l => String.toList_ofList
    rw [hid, List.map_id]
    exact (List.intercalate_splitOn (x := pathSeparator)).symm
  · rintro ⟨segments, hne, hall, rfl⟩
    have hsep : ∀ l ∈ segments.map String.toList, pathSeparator ∉ l := by
      intro l hl
      obtain ⟨x, hx, rfl⟩ := List.mem_map.mp hl
      exact (hall x hx).separator_notMem
    rw [String.toList_intercalate]
    change ∀ w ∈ (([pathSeparator].intercalate (segments.map String.toList)).splitOn
      pathSeparator).map String.ofList, IsSegment w
    rw [List.splitOn_intercalate _ hsep (mt List.map_eq_nil_iff.mp hne), List.map_map]
    have hid : (String.ofList ∘ String.toList) = id := funext fun x => String.ofList_toList
    rwa [hid, List.map_id]

/-- The characters of a segment are those of words, and the star. -/
theorem IsSegment.protocolSeparator_notMem {s : String} (h : IsSegment s) :
    protocolSeparator ∉ s.toList := by
  rcases h with h | rfl | rfl
  · exact fun hs => absurd (h.2 _ hs) (by decide)
  · decide
  · decide

/-- No path contains the separator of the protocol. -/
theorem IsPath.protocolSeparator_notMem {s : String} (h : IsPath s) : protocolSeparator ∉ s.toList := by
  rcases h with rfl | ⟨segments, -, hall, rfl⟩
  · decide
  · rw [String.toList_intercalate]
    cases segments with
    | nil => simp
    | cons x rest =>
      rw [List.map_cons]
      change protocolSeparator ∉ [pathSeparator].intercalate _
      rw [intercalate_cons_eq, List.mem_append, not_or]
      refine ⟨(hall x List.mem_cons_self).protocolSeparator_notMem, fun hm => ?_⟩
      obtain ⟨l, hl, hc⟩ := List.mem_flatten.mp hm
      simp only [List.map_map, List.mem_map, Function.comp_apply] at hl
      obtain ⟨y, hy, rfl⟩ := hl
      rcases List.mem_cons.mp hc with hc | hc
      · exact absurd hc (by decide)
      · exact (hall y (List.mem_cons_of_mem _ hy)).protocolSeparator_notMem hc

theorem IsProtocol.protocolSeparator_notMem {s : String} (h : IsProtocol s) :
    protocolSeparator ∉ s.toList := by
  refine IsSegment.protocolSeparator_notMem (h.imp id Or.inl)

theorem Path.new_ok_iff {s : String} {p : Path} : Path.new s = .ok p ↔ IsPath s ∧ p = ⟨s⟩ := by
  rw [← validatePath_iff_isPath, Path.new]
  cases validatePath s with
  | error e => exact iff_of_false (by rintro ⟨⟩) (by rintro ⟨⟨⟩, -⟩)
  | ok u => exact ⟨fun h => by cases h; exact ⟨rfl, rfl⟩, fun h => by rw [h.2]; rfl⟩

theorem Topic.new_ok_iff {protocol : String} {p : Path} {t : Topic} :
    Topic.new protocol p = .ok t ↔ IsProtocol protocol ∧ t = ⟨protocol, p⟩ := by
  rw [← validateProtocol_iff, Topic.new]
  cases validateProtocol protocol with
  | error e => exact iff_of_false (by rintro ⟨⟩) (by rintro ⟨⟨⟩, -⟩)
  | ok u => exact ⟨fun h => by cases h; exact ⟨rfl, rfl⟩, fun h => by rw [h.2]; rfl⟩

/-! ## Topics -/

/-- A topic as it is written: a protocol, the separator and a path. -/
def Topic.IsText (s : String) : Prop :=
  ∃ protocol path, IsProtocol protocol ∧ IsPath path ∧ s = protocol ++ ":" ++ path

theorem Topic.display_eq (t : Topic) : t.display = t.protocol ++ ":" ++ t.path.str := by
  rw [Topic.display, String.push_eq_append]
  rfl

/-- Reading a text whose first part is no longer than the protocol. -/
theorem Topic.fromStr_append {protocol : String} (h : protocolSeparator ∉ protocol.toList)
    (path : String) :
    Topic.fromStr (protocol ++ ":" ++ path) = Path.new path >>= Topic.new protocol := by
  have htext : protocol ++ ":" ++ path = protocol.push protocolSeparator ++ path := by
    rw [String.push_eq_append]
    rfl
  rw [Topic.fromStr, htext, splitOnce_of_notMem h]

/-- **A text is read as the topic that it writes.** -/
theorem Topic.fromStr_ok_iff {s : String} {t : Topic} : Topic.fromStr s = .ok t ↔
    IsProtocol t.protocol ∧ IsPath t.path.str ∧ s = t.display := by
  have hnew : ∀ protocol path, Path.new path >>= Topic.new protocol = .ok t ↔
      IsProtocol protocol ∧ IsPath path ∧ t = ⟨protocol, ⟨path⟩⟩ := by
    intro protocol path
    cases hp : Path.new path with
    | error e =>
      refine iff_of_false (by rintro ⟨⟩) ?_
      rintro ⟨-, hpath, -⟩
      rw [Path.new_ok_iff.mpr ⟨hpath, rfl⟩] at hp
      cases hp
    | ok p =>
      obtain ⟨hpath, rfl⟩ := Path.new_ok_iff.mp hp
      refine Topic.new_ok_iff.trans (and_congr_right fun _ => ?_)
      exact (and_iff_right hpath).symm
  constructor
  · intro h
    rcases splitOnce_cases protocolSeparator s with ⟨-, hnone⟩ | ⟨a, b, hs, -, hsome⟩
    · rw [Topic.fromStr, hnone] at h
      cases h
    · rw [Topic.fromStr, hsome] at h
      obtain ⟨ha, hb, rfl⟩ := (hnew a b).mp h
      exact ⟨ha, hb, hs⟩
  · rintro ⟨hprotocol, hpath, rfl⟩
    rw [Topic.display_eq, Topic.fromStr_append hprotocol.protocolSeparator_notMem]
    exact (hnew _ _).mpr ⟨hprotocol, hpath, rfl⟩

/-- **The wire decoder takes a pair for what its text is read as.** -/
theorem Topic.ofItem_eq_fromStr (protocol path : String) :
    Topic.ofItem (.array [.text protocol, .text path]) =
      (Topic.fromStr (protocol ++ ":" ++ path)).toOption := by
  by_cases h : protocolSeparator ∈ protocol.toList
  · -- neither the protocol nor what follows the first separator is well written
    have hnone : Topic.ofItem (.array [.text protocol, .text path]) = none := by
      rw [Topic.ofItem]
      cases Path.new path with
      | error e => rfl
      | ok p =>
        cases ht : Topic.new protocol p with
        | error e => simp [Except.toOption, ht]
        | ok t => exact absurd h (Topic.new_ok_iff.mp ht).1.protocolSeparator_notMem
    rw [hnone]
    cases ht : Topic.fromStr (protocol ++ ":" ++ path) with
    | error e => rfl
    | ok t =>
      obtain ⟨hprotocol, hpath, hs⟩ := Topic.fromStr_ok_iff.mp ht
      -- the text of a topic has the separator once
      have hcount := congrArg (fun s => s.toList.count protocolSeparator) (hs.trans t.display_eq)
      simp only [String.toList_append, List.count_append,
        List.count_eq_zero_of_not_mem hprotocol.protocolSeparator_notMem,
        List.count_eq_zero_of_not_mem hpath.protocolSeparator_notMem] at hcount
      have hpos := List.count_pos_iff.mpr h
      omega
  · rw [Topic.fromStr_append h, Topic.ofItem]
    cases Path.new path with
    | error e => rfl
    | ok p =>
      change (Topic.new protocol p).toOption = _
      rfl

/-! ## The values that can be had -/

/-- The paths that can be constructed; `FromStr`, `TryFrom` and `Deserialize` go through `Path::new`. -/
inductive Path.Constructible : Path → Prop
  | root : Constructible .root
  | new {s : String} {p : Path} (h : Path.new s = .ok p) : Constructible p

/-- The topics that can be constructed. -/
inductive Topic.Constructible : Topic → Prop
  | new {protocol : String} {p : Path} {t : Topic} (hp : p.Constructible)
      (h : Topic.new protocol p = .ok t) : Constructible t
  | fromStr {s : String} {t : Topic} (h : Topic.fromStr s = .ok t) : Constructible t
  | deserialize {item : Item} {t : Topic} (h : Topic.ofItem item = some t) : Constructible t

theorem Path.Constructible.isPath {p : Path} (h : p.Constructible) : IsPath p.str := by
  cases h with
  | root => exact Or.inl rfl
  | new h =>
    obtain ⟨hs, rfl⟩ := Path.new_ok_iff.mp h
    exact hs

/-- **What can be constructed is well written.** -/
theorem Topic.constructible_iff (t : Topic) :
    t.Constructible ↔ IsProtocol t.protocol ∧ IsPath t.path.str := by
  constructor
  · intro h
    cases h with
    | new hp h =>
      obtain ⟨hprotocol, rfl⟩ := Topic.new_ok_iff.mp h
      exact ⟨hprotocol, hp.isPath⟩
    | fromStr h =>
      obtain ⟨hprotocol, hpath, -⟩ := Topic.fromStr_ok_iff.mp h
      exact ⟨hprotocol, hpath⟩
    | @deserialize item _ h =>
      unfold Topic.ofItem at h
      split at h
      · rename_i protocol path
        have hpair : Topic.ofItem (.array [.text protocol, .text path]) = some t := h
        rw [Topic.ofItem_eq_fromStr] at hpair
        cases hs : Topic.fromStr (protocol ++ ":" ++ path) with
        | error e =>
          rw [hs] at hpair
          cases hpair
        | ok u =>
          rw [hs] at hpair
          cases hpair
          obtain ⟨hprotocol, hpath, -⟩ := Topic.fromStr_ok_iff.mp hs
          exact ⟨hprotocol, hpath⟩
      · cases h
  · rintro ⟨hprotocol, hpath⟩
    exact .fromStr (Topic.fromStr_ok_iff.mpr ⟨hprotocol, hpath, rfl⟩)

theorem Topic.Constructible.valid {t : Topic} (h : t.Constructible) : t.Valid := by
  obtain ⟨hprotocol, hpath⟩ := t.constructible_iff.mp h
  exact ⟨(validateProtocol_iff _).mpr hprotocol, (validatePath_iff_isPath _).mpr hpath⟩

/-- **The syntax of topics is exact and lossless**: what is read, that it is printed as it was written
and read back as what it was, and that the wire agrees, for pairs and for what is serialized. -/
theorem Topic.fromStr_exact :
    (∀ s, (∃ t, Topic.fromStr s = .ok t) ↔ Topic.IsText s) ∧
    (∀ s t, Topic.fromStr s = .ok t → t.display = s) ∧
    (∀ t : Topic, t.Constructible → Topic.fromStr t.display = .ok t) ∧
    (∀ protocol path, Topic.ofItem (.array [.text protocol, .text path]) =
      (Topic.fromStr (protocol ++ ":" ++ path)).toOption) ∧
    ∀ t : Topic, t.Constructible → Topic.ofItem t.toItem = some t := by
  refine ⟨fun s => ⟨?_, ?_⟩, fun s t h => (Topic.fromStr_ok_iff.mp h).2.2.symm, fun t h => ?_,
    Topic.ofItem_eq_fromStr, fun t h => Topic.ofItem_toItem h.valid⟩
  · rintro ⟨t, h⟩
    obtain ⟨hprotocol, hpath, rfl⟩ := Topic.fromStr_ok_iff.mp h
    exact ⟨t.protocol, t.path.str, hprotocol, hpath, t.display_eq⟩
  · rintro ⟨protocol, path, hprotocol, hpath, rfl⟩
    refine ⟨⟨protocol, ⟨path⟩⟩, Topic.fromStr_ok_iff.mpr ⟨hprotocol, hpath, ?_⟩⟩
    exact (Topic.display_eq ⟨protocol, ⟨path⟩⟩).symm
  · obtain ⟨hprotocol, hpath⟩ := t.constructible_iff.mp h
    exact Topic.fromStr_ok_iff.mpr ⟨hprotocol, hpath, rfl⟩

theorem Topic.fromStr_exact_price :
    Topic.display ⟨"f32", ⟨"price/*/eur"⟩⟩ = "f32:price/*/eur" ∧
      Topic.fromStr (Topic.display ⟨"f32", ⟨"price/*/eur"⟩⟩) = .ok ⟨"f32", ⟨"price/*/eur"⟩⟩ ∧
      Topic.ofItem (Topic.toItem ⟨"f32", ⟨"price/*/eur"⟩⟩) = some ⟨"f32", ⟨"price/*/eur"⟩⟩ := by
  have hnew : Topic.fromStr "f32:price/*/eur" = .ok ⟨"f32", ⟨"price/*/eur"⟩⟩ := by decide +kernel
  have hc : Topic.Constructible ⟨"f32", ⟨"price/*/eur"⟩⟩ := .fromStr hnew
  exact ⟨Topic.fromStr_exact.2.1 _ _ hnew, Topic.fromStr_exact.2.2.1 _ hc,
    Topic.fromStr_exact.2.2.2.2 _ hc⟩

end T2Bus
