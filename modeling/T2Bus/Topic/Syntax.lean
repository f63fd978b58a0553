import Mathlib.Computability.RegularExpressions
import T2Bus.Err

/-!
# The syntax of topics

Paths and protocols are checked against two anchored regular expressions. The regexes are terms of
Mathlib's `RegularExpression`; an anchored match is a match of the whole string.

* `rgxPath`, `rgxProtocol`, `validatePath`, `validateProtocol`, `Path.new`, `Topic.new`,
  `Topic.fromStr`: the source's checks and constructors;
* `rgxPath_rmatch_iff`: a string matches `rgxPath` when each of its segments is a word or a wildcard;
* `Topic.Valid`, `Topic.valid_segments`: what a valid topic's segments look like.
-/

namespace T2Bus

open RegularExpression

/-! ## Regular expressions -/

/-- The characters of `[a-z0-9_]`. -/
def wordChars : List Char := "abcdefghijklmnopqrstuvwxyz0123456789_".toList

/-- A character class. -/
def charClass (cs : List Char) : RegularExpression Char := cs.foldr (fun c r => char c + r) 0

/-- One or more times. -/
def plus (r : RegularExpression Char) : RegularExpression Char := r * r.star

/-- `[a-z0-9_]+` -/
def rgxWord : RegularExpression Char := plus (charClass wordChars)

/-- `([a-z0-9_]+|\*|\*\*)` -/
def rgxSegment : RegularExpression Char := rgxWord + char '*' + char '*' * char '*'

/-- `RGX_PATH`: `^(([a-z0-9_]+|\*|\*\*)/)*([a-z0-9_]+|\*|\*\*)$` -/
def rgxPath : RegularExpression Char := (rgxSegment * char '/').star * rgxSegment

/-- `RGX_PROTOCOL`: `^([a-z0-9_]+|\*)$` -/
def rgxProtocol : RegularExpression Char := rgxWord + char '*'

/-! ## Validation and construction -/

def validatePath (path : String) : BusResult Unit :=
  if path = "" ∨ rgxPath.rmatch path.toList then .ok ()
  else .error (.invalidTopicString ("Invalid path: " ++ path))

def validateProtocol (protocol : String) : BusResult Unit :=
  if rgxProtocol.rmatch protocol.toList then .ok ()
  else .error (.invalidTopicString ("Invalid protocol: " ++ protocol))

/-- Validate and construct a path. -/
def Path.new (path : String) : BusResult Path := do
  validatePath path
  return ⟨path⟩

/-- Validate and construct a topic. -/
def Topic.new (protocol : String) (path : Path) : BusResult Topic := do
  validateProtocol protocol
  return ⟨protocol, path⟩

/-- `str::split_once`: the parts before and after the first `c`. -/
def splitOnce (c : Char) (s : String) : Option (String × String) :=
  match s.toList.span (· != c) with
  | (_, []) => none
  | (before, _ :: after) => some (String.ofList before, String.ofList after)

/-- `FromStr for Topic` -/
def Topic.fromStr (s : String) : BusResult Topic :=
  match splitOnce protocolSeparator s with
  | none => .error (.invalidTopicString
      ("Invalid topic: " ++ s ++ ". Expected <protocol>:<path>"))
  | some (protocol, path) => do
    let path ← Path.new path
    Topic.new protocol path

/-- A path that passes its check. -/
def Path.Valid (p : Path) : Prop := validatePath p.str = .ok ()

/-- A topic whose protocol and path pass their checks: what `Topic::new`, `FromStr` and
`Deserialize` let through. -/
def Topic.Valid (t : Topic) : Prop := validateProtocol t.protocol = .ok () ∧ t.path.Valid

/-! ## Words and segments -/

/-- A word over `[a-z0-9_]`. -/
def IsWord (s : String) : Prop := s ≠ "" ∧ ∀ c ∈ s.toList, c ∈ wordChars

/-- A path segment: a word or a wildcard. -/
def IsSegment (s : String) : Prop := IsWord s ∨ s = wildcard ∨ s = doubleWildcard

/-- A protocol: a word or the single wildcard. -/
def IsProtocol (s : String) : Prop := IsWord s ∨ s = wildcard

instance (s : String) : Decidable (IsWord s) :=
  -- over the characters of `s`, not over all there are
  @instDecidableAnd _ _ inferInstance (List.decidableBAll _ _)

instance (s : String) : Decidable (IsSegment s) := by unfold IsSegment; infer_instance
instance (s : String) : Decidable (IsProtocol s) := by unfold IsProtocol; infer_instance

theorem IsSegment.isWord {s : String} (h : IsSegment s) (h₁ : s ≠ wildcard)
    (h₂ : s ≠ doubleWildcard) : IsWord s := by
  rcases h with h | h | h
  · exact h
  · exact absurd h h₁
  · exact absurd h h₂

/-- No segment contains the separator. -/
theorem IsSegment.separator_notMem {s : String} (h : IsSegment s) : pathSeparator ∉ s.toList := by
  rcases h with h | rfl | rfl
  · intro hs
    exact absurd (h.2 _ hs) (by decide)
  · decide
  · decide

theorem mem_matches_char (c : Char) (w : List Char) : w ∈ (char c).matches' ↔ w = [c] := by
  rw [matches'_char]
  rfl

theorem charClass_matches (cs : List Char) (w : List Char) :
    w ∈ (charClass cs).matches' ↔ ∃ c ∈ cs, w = [c] := by
  induction cs with
  | nil => simp [charClass]
  | cons c cs ih =>
    change w ∈ (char c + charClass cs).matches' ↔ _
    rw [matches'_add, Language.mem_add, ih, mem_matches_char]
    simp

theorem plus_charClass_matches (cs : List Char) (w : List Char) :
    w ∈ (plus (charClass cs)).matches' ↔ w ≠ [] ∧ ∀ c ∈ w, c ∈ cs := by
  rw [plus, matches'_mul, matches'_star, Language.mem_mul]
  constructor
  · rintro ⟨a, ha, b, hb, rfl⟩
    obtain ⟨c, hc, rfl⟩ := (charClass_matches cs a).mp ha
    obtain ⟨L, rfl, hL⟩ := Language.mem_kstar.mp hb
    refine ⟨by simp, fun x hx => ?_⟩
    rcases List.mem_cons.mp hx with rfl | hx
    · exact hc
    · obtain ⟨l, hl, hxl⟩ := List.mem_flatten.mp hx
      obtain ⟨d, hd, rfl⟩ := (charClass_matches cs l).mp (hL l hl)
      rwa [List.mem_singleton.mp hxl]
  · rintro ⟨hne, hw⟩
    cases w with
    | nil => exact absurd rfl hne
    | cons c w =>
      refine ⟨[c], (charClass_matches cs _).mpr ⟨c, hw c List.mem_cons_self, rfl⟩, w, ?_, rfl⟩
      refine Language.mem_kstar.mpr ⟨w.map fun d => [d], (List.flatMap_singleton' w).symm, fun l hl => ?_⟩
      obtain ⟨d, hd, rfl⟩ := List.mem_map.mp hl
      exact (charClass_matches cs _).mpr ⟨d, hw d (List.mem_cons_of_mem _ hd), rfl⟩

theorem rgxWord_matches (w : List Char) : w ∈ rgxWord.matches' ↔ IsWord (String.ofList w) := by
  rw [rgxWord, plus_charClass_matches, IsWord, String.toList_ofList, ← String.ofList_nil, Ne, Ne,
    String.ofList_inj]

theorem rgxSegment_matches (w : List Char) :
    w ∈ rgxSegment.matches' ↔ IsSegment (String.ofList w) := by
  have hstar : String.ofList w = wildcard ↔ w = ['*'] := @String.ofList_inj w ['*']
  have hstars : String.ofList w = doubleWildcard ↔ w = ['*', '*'] :=
    @String.ofList_inj w ['*', '*']
  rw [rgxSegment, matches'_add, matches'_add, matches'_mul, Language.mem_add, Language.mem_add,
    rgxWord_matches, mem_matches_char, Language.mem_mul, IsSegment, hstar, hstars, or_assoc]
  simp only [mem_matches_char, exists_eq_left, List.singleton_append, eq_comm]

theorem rgxProtocol_rmatch_iff (s : String) : rgxProtocol.rmatch s.toList ↔ IsProtocol s := by
  have hstar : s = wildcard ↔ s.toList = ['*'] := (@String.toList_inj s "*").symm
  rw [rmatch_iff_matches', rgxProtocol, matches'_add, Language.mem_add, rgxWord_matches,
    mem_matches_char, IsProtocol, String.ofList_toList, hstar]

/-- Parts that each end in the separator, followed by a last part. -/
theorem intercalate_concat (c : Char) (L : List (List Char)) (x : List Char) :
    [c].intercalate (L ++ [x]) = (L.map (· ++ [c])).flatten ++ x := by
  induction L with
  | nil => simp
  | cons y ys ih =>
    cases ys with
    | nil => simp [List.intercalate_cons_cons]
    | cons z zs =>
      rw [List.cons_append, List.cons_append, List.intercalate_cons_cons, ← List.cons_append, ih]
      simp

/-- **A string matches `rgxPath` exactly when each of its segments is a word or a wildcard.** -/
theorem rgxPath_rmatch_iff (s : String) :
    rgxPath.rmatch s.toList ↔
      ∀ w ∈ (s.toList.splitOn pathSeparator).map String.ofList, IsSegment w := by
  rw [rmatch_iff_matches', rgxPath, matches'_mul, matches'_star, Language.mem_mul]
  constructor
  · rintro ⟨a, ha, b, hb, hab⟩
    obtain ⟨L, rfl, hL⟩ := Language.mem_kstar.mp ha
    -- every part of the starred block is a segment and the separator
    have hparts : ∃ M : List (List Char), L = M.map (· ++ [pathSeparator]) ∧
        ∀ m ∈ M, IsSegment (String.ofList m) := by
      clear hab ha
      induction L with
      | nil => exact ⟨[], rfl, by simp⟩
      | cons l L ih =>
        obtain ⟨M, rfl, hM⟩ := ih fun y hy => hL y (List.mem_cons_of_mem _ hy)
        obtain ⟨m, hm, x, hx, rfl⟩ := Language.mem_mul.mp
          (by simpa only [matches'_mul] using hL l List.mem_cons_self)
        rw [mem_matches_char] at hx
        subst hx
        exact ⟨m :: M, rfl, List.forall_mem_cons.mpr ⟨(rgxSegment_matches m).mp hm, hM⟩⟩
    obtain ⟨M, rfl, hM⟩ := hparts
    have hall : ∀ m ∈ M ++ [b], IsSegment (String.ofList m) := by
      intro m hm
      rcases List.mem_append.mp hm with hm | hm
      · exact hM m hm
      · rw [List.mem_singleton.mp hm]
        exact (rgxSegment_matches b).mp hb
    rw [← hab, ← intercalate_concat, List.splitOn_intercalate _ _ (by simp)]
    · intro w hw
      obtain ⟨m, hm, rfl⟩ := List.mem_map.mp hw
      exact hall m hm
    · intro m hm
      have := (hall m hm).separator_notMem
      rwa [String.toList_ofList] at this
  · intro h
    -- the last segment stands alone, the others carry their separator
    obtain ⟨M, x, hMx⟩ : ∃ M x, s.toList.splitOn pathSeparator = M ++ [x] :=
      ⟨_, _, (List.dropLast_append_getLast (List.splitOn_ne_nil _ _)).symm⟩
    rw [hMx] at h
    refine ⟨(M.map (· ++ [pathSeparator])).flatten, ?_, x, ?_, ?_⟩
    · refine Language.mem_kstar.mpr ⟨_, rfl, fun y hy => ?_⟩
      obtain ⟨m, hm, rfl⟩ := List.mem_map.mp hy
      rw [matches'_mul]
      refine Language.mem_mul.mpr ⟨m, (rgxSegment_matches m).mpr (h _ ?_), _,
        (mem_matches_char _ _).mpr rfl, rfl⟩
      exact List.mem_map_of_mem (List.mem_append_left _ hm)
    · exact (rgxSegment_matches x).mpr (h _ (List.mem_map_of_mem (by simp)))
    · rw [← intercalate_concat, ← hMx, List.intercalate_splitOn]

/-! ## Valid topics -/

theorem validatePath_iff (s : String) :
    validatePath s = .ok () ↔
      s = "" ∨ ∀ w ∈ (s.toList.splitOn pathSeparator).map String.ofList, IsSegment w := by
  rw [← rgxPath_rmatch_iff, validatePath]
  split_ifs with h
  · exact iff_of_true rfl h
  · exact iff_of_false (by simp) h

theorem validateProtocol_iff (s : String) : validateProtocol s = .ok () ↔ IsProtocol s := by
  rw [← rgxProtocol_rmatch_iff, validateProtocol]
  split_ifs with h
  · exact iff_of_true rfl h
  · exact iff_of_false (by simp) h

/-- A path is valid when each of its segments is a word or a wildcard. -/
theorem Path.valid_iff (p : Path) : p.Valid ↔ ∀ s ∈ p.segments, IsSegment s := by
  rw [Path.Valid, validatePath_iff]
  by_cases h : p.str = ""
  · have hp : p = Path.root := congrArg Path.mk h
    rw [hp]
    exact iff_of_true (Or.inl rfl) fun s hs => by cases hs
  · rw [Path.segments_of_ne h]
    simp [h]

/-- A topic is valid when its protocol and its path segments are. -/
theorem Topic.valid_iff (t : Topic) :
    t.Valid ↔ IsProtocol t.protocol ∧ ∀ s ∈ t.path.segments, IsSegment s := by
  rw [Topic.Valid, validateProtocol_iff, Path.valid_iff]

instance (t : Topic) : Decidable t.Valid := decidable_of_iff _ t.valid_iff.symm

/-- Every segment of a valid topic is a word or a wildcard. -/
theorem Topic.valid_segments {t : Topic} (h : t.Valid) : ∀ s ∈ t.segments, IsSegment s := by
  obtain ⟨hp, hs⟩ := t.valid_iff.mp h
  refine List.forall_mem_cons.mpr ⟨?_, hs⟩
  rcases hp with hp | hp
  · exact Or.inl hp
  · exact Or.inr (Or.inl hp)

/-- A word is the only segment of its path. -/
theorem IsWord.segments {w : String} (h : IsWord w) : ∀ s ∈ Path.segments ⟨w⟩, IsSegment s := by
  have hsep := IsSegment.separator_notMem (Or.inl h)
  rw [Path.segments_of_ne h.1, List.splitOn_eq_singleton hsep, List.map_singleton,
    String.ofList_toList]
  exact List.forall_mem_singleton.mpr (Or.inl h)

example : Topic.Valid ⟨"f32", ⟨"price/*/eur"⟩⟩ := by decide

example : ¬ Topic.Valid ⟨"f32", ⟨"price//eur"⟩⟩ := by decide

end T2Bus
