import Mathlib.Data.List.Basic

/-!
# Topics and paths

A path is a `/` separated sequence of segments, a topic is a protocol and a path. The types do not
enforce the syntax of their strings: `Path.fromValidSegments` builds a path without a check.

* `Path.segments`, `Topic.segments`: the segments, protocol first; `Topic.display`: the text;
* `Path.fromValidSegments`, `Topic.fromValidSegments`: back from segments;
* `Topic.segments_injective`: a topic is determined by its segments.
-/

namespace T2Bus

/-- `WILDCARD`: matches exactly one segment. -/
def wildcard : String := "*"

/-- `DOUBLE_WILDCARD`: matches zero or more segments. -/
def doubleWildcard : String := "**"

/-- `PROTOCOL_SEPARATOR` -/
def protocolSeparator : Char := ':'

/-- `PATH_SEPARATOR` -/
def pathSeparator : Char := '/'

structure Path where
  str : String
  deriving DecidableEq, Repr

namespace Path

/-- The root (empty) path. -/
def root : Path := ⟨""⟩

def isRoot (p : Path) : Bool := p.str == ""

/-- The segments of the path; none for the root. -/
def segments (p : Path) : List String :=
  if p.isRoot then [] else (p.str.toList.splitOn pathSeparator).map String.ofList

/-- The loop of `from_valid_segments`, after `i` segments. -/
def pushSegments : List String → ℕ → String → String
  | [], _, path => path
  | segment :: rest, i, path =>
    pushSegments rest (i + 1) ((if i > 0 then path.push pathSeparator else path) ++ segment)

/-- Construct from segments already known to be valid. -/
def fromValidSegments (segments : List String) : Path := ⟨pushSegments segments 0 ""⟩

end Path

structure Topic where
  protocol : String
  path : Path
  deriving DecidableEq, Repr

namespace Topic

/-- The text of a topic. -/
def display (t : Topic) : String := t.protocol.push protocolSeparator ++ t.path.str

/-- The protocol followed by the path segments. -/
def segments (t : Topic) : List String := t.protocol :: t.path.segments

/-- Construct from segments (protocol first); `none` if there are no segments. -/
def fromValidSegments : List String → Option Topic
  | [] => none
  | protocol :: path => some ⟨protocol, Path.fromValidSegments path⟩

end Topic

/-! ## Segments determine the topic -/

theorem Path.segments_root : Path.root.segments = [] := rfl

theorem Path.segments_of_ne {p : Path} (h : p.str ≠ "") :
    p.segments = (p.str.toList.splitOn pathSeparator).map String.ofList := by
  simp [Path.segments, Path.isRoot, h]

theorem Path.segments_eq_nil {p : Path} : p.segments = [] ↔ p = Path.root := by
  obtain ⟨s⟩ := p
  by_cases h : s = ""
  · subst h
    exact ⟨fun _ => rfl, fun _ => rfl⟩
  · rw [Path.segments_of_ne h, List.map_eq_nil_iff]
    exact ⟨fun h' => absurd h' (List.splitOn_ne_nil _ _), fun h' => absurd (congrArg Path.str h') h⟩

/-- The string of a path that is not the root is its segments, joined. -/
theorem Path.toList_eq_intercalate {p : Path} (h : p.str ≠ "") :
    p.str.toList = [pathSeparator].intercalate (p.segments.map String.toList) := by
  rw [Path.segments_of_ne h, List.map_map]
  have hid : String.toList ∘ String.ofList = id := funext fun l => String.toList_ofList
  rw [hid, List.map_id, List.intercalate_splitOn]

theorem Path.segments_injective : Function.Injective Path.segments := by
  intro p q h
  by_cases hp : p.str = ""
  · have hp' : p = Path.root := congrArg Path.mk hp
    rw [hp', Path.segments_root] at h
    rw [hp', Path.segments_eq_nil.mp h.symm]
  · have hq : q.str ≠ "" := by
      intro hq
      have hq' : q = Path.root := congrArg Path.mk hq
      rw [hq', Path.segments_root] at h
      exact hp (congrArg Path.str (Path.segments_eq_nil.mp h))
    have hs : p.str.toList = q.str.toList := by
      rw [Path.toList_eq_intercalate hp, Path.toList_eq_intercalate hq, h]
    exact congrArg Path.mk (String.toList_inj.mp hs)

/-- **A topic is determined by its segments.** -/
theorem Topic.segments_injective : Function.Injective Topic.segments := by
  rintro ⟨p, a⟩ ⟨q, b⟩ h
  obtain ⟨hpq, hab⟩ := List.cons.inj h
  exact congrArg₂ Topic.mk hpq (Path.segments_injective hab)

/-! ## The separator-joining loop -/

/-- Joining puts the separator in front of every part but the first. -/
theorem intercalate_cons_eq (c : Char) (x : List Char) (xs : List (List Char)) :
    [c].intercalate (x :: xs) = x ++ (xs.map fun y => c :: y).flatten := by
  induction xs generalizing x with
  | nil => simp
  | cons y ys ih => rw [List.intercalate_cons_cons, ih]; simp

theorem Path.toList_pushSegments (segs : List String) (i : ℕ) (path : String) :
    (Path.pushSegments segs i path).toList = path.toList ++
      (if i > 0 then (segs.map fun s => pathSeparator :: s.toList).flatten
        else [pathSeparator].intercalate (segs.map String.toList)) := by
  induction segs generalizing i path with
  | nil => simp [Path.pushSegments]
  | cons s rest ih =>
    rw [Path.pushSegments, ih (i + 1)]
    rw [if_pos (Nat.succ_pos i), List.map_cons, List.map_cons, intercalate_cons_eq, List.map_map]
    by_cases hi : i > 0 <;>
      simp [hi, String.toList_append, String.toList_push, Function.comp_def]

/-- The loop joins the segments with the separator. -/
theorem Path.toList_fromValidSegments (segs : List String) :
    (Path.fromValidSegments segs).str.toList =
      [pathSeparator].intercalate (segs.map String.toList) := by
  rw [Path.fromValidSegments, Path.toList_pushSegments]
  simp

/-- Joining the segments of a path gives the path back. -/
theorem Path.fromValidSegments_segments (p : Path) : Path.fromValidSegments p.segments = p := by
  have hs : (Path.fromValidSegments p.segments).str = p.str := by
    rw [← String.toList_inj, Path.toList_fromValidSegments]
    by_cases h : p.str = ""
    · have hp : p = Path.root := congrArg Path.mk h
      rw [hp]
      rfl
    · exact (Path.toList_eq_intercalate h).symm
  exact congrArg Path.mk hs

/-- Joining the segments of a topic gives the topic back. -/
theorem Topic.fromValidSegments_segments (t : Topic) :
    Topic.fromValidSegments t.segments = some t := by
  rw [Topic.segments, Topic.fromValidSegments, Path.fromValidSegments_segments]

end T2Bus
