import Mathlib.Data.List.Basic

/-!
# Regular expressions with capture groups

The fragment of character classes, their repetitions, sequences, alternatives, groups and anchors, with
the semantics of a leftmost-first search: the ways in which an expression matches at a position are
ordered by preference, a match is the most preferred one at the first position that has any.

* `Regex`; `Regex.results`: all matches at a position, the preferred ones first;
* `Regex.find`, `Regex.isMatch`, `Regex.capturesIter`: searching, and going on behind a match;
* `mem_results_seq`, `mem_splits`, …: what a match says about the text;
* **`Regex.head?_flatMap_splits`**: a lazy repetition ends where the rest of the expression matches
  first; `Regex.head?_results_seq`.
-/

/-- Regular expressions. -/
inductive Regex where
  /-- One character of a class. -/
  | one (p : Char → Bool)
  /-- Any number of characters of a class, as few or as many as possible first. -/
  | many (lazy : Bool) (p : Char → Bool)
  | empty
  | seq (r s : Regex)
  | alt (r s : Regex)
  /-- A capture group. -/
  | group (n : ℕ) (r : Regex)
  /-- `^` -/
  | start
  /-- `$` -/
  | stop

namespace Regex

/-- The class `.`: every character but the end of a line. -/
def dot (c : Char) : Bool := c != '\n'

/-- `p+` or `p+?` -/
def plus (lazy : Bool) (p : Char → Bool) : Regex := seq (one p) (many lazy p)

def literal (w : List Char) : Regex := w.foldr (fun c r => seq (one (· == c)) r) empty

def cat (rs : List Regex) : Regex := rs.foldr seq empty

/-- `^r$` -/
def anchored (r : Regex) : Regex := cat [start, r, stop]

/-- What an expression matches, the texts of the groups, and what is left behind it. -/
structure Match where
  text : List Char
  groups : List (ℕ × List Char)
  rest : List Char
  deriving DecidableEq

/-- The text of a group. -/
def Match.get? (m : Match) (n : ℕ) : Option String := (m.groups.lookup n).map String.ofList

/-- One match behind another. -/
def Match.append (m m' : Match) : Match := ⟨m.text ++ m'.text, m.groups ++ m'.groups, m'.rest⟩

/-- The beginnings that consist of characters of a class, shortest first, with what is left. -/
def splits (p : Char → Bool) : List Char → List (List Char × List Char)
  | [] => [([], [])]
  | c :: cs => ([], c :: cs) :: if p c then (splits p cs).map fun x => (c :: x.1, x.2) else []

/-- The matches at a position, in the order of preference. -/
def results : Regex → (atStart : Bool) → List Char → List Match
  | one p, _, cs =>
    match cs with
    | c :: rest => if p c then [⟨[c], [], rest⟩] else []
    | [] => []
  | many lazy p, _, cs =>
    let found := (splits p cs).map fun x => ⟨x.1, [], x.2⟩
    if lazy then found else found.reverse
  | empty, _, cs => [⟨[], [], cs⟩]
  | seq r s, atStart, cs => (results r atStart cs).flatMap fun m =>
    (results s (atStart && m.text.isEmpty) m.rest).map m.append
  | alt r s, atStart, cs => results r atStart cs ++ results s atStart cs
  | group n r, atStart, cs => (results r atStart cs).map fun m =>
    { m with groups := m.groups ++ [(n, m.text)] }
  | start, atStart, cs => if atStart then [⟨[], [], cs⟩] else []
  | stop, _, cs => if cs.isEmpty then [⟨[], [], cs⟩] else []

/-- The preferred match at the first position that has one. -/
def find (r : Regex) (atStart : Bool) (cs : List Char) : Option Match :=
  match (results r atStart cs).head? with
  | some m => some m
  | none =>
    match cs with
    | [] => none
    | _ :: cs => find r false cs

def isMatch (r : Regex) (s : String) : Bool := (find r true s.toList).isSome

def captures (r : Regex) (s : String) : Option Match := find r true s.toList

/-- At most `n` matches, each behind the one before it. -/
def scan (r : Regex) : (n : ℕ) → (atStart : Bool) → List Char → List Match
  | 0, _, _ => []
  | n + 1, atStart, cs =>
    match find r atStart cs with
    | some m => m :: scan r n false m.rest
    | none => []

/-- All matches, one behind the other, of an expression that matches no empty text. -/
def capturesIter (r : Regex) (s : String) : List Match := scan r s.toList.length true s.toList

/-! ## Matches and texts -/

variable {r s : Regex} {p : Char → Bool} {atStart : Bool} {cs : List Char} {m : Match}

theorem mem_splits {x : List Char × List Char} :
    x ∈ splits p cs ↔ cs = x.1 ++ x.2 ∧ ∀ c ∈ x.1, p c = true := by
  obtain ⟨l₁, l₂⟩ := x
  induction cs generalizing l₁ with
  | nil =>
    rw [splits, List.mem_singleton, Prod.mk.injEq]
    constructor
    · rintro ⟨rfl, rfl⟩
      exact ⟨rfl, by simp⟩
    · rintro ⟨h, -⟩
      exact List.append_eq_nil_iff.mp h.symm
  | cons c cs ih =>
    rw [splits, List.mem_cons, Prod.mk.injEq]
    cases l₁ with
    | nil =>
      refine ⟨fun h => ⟨?_, by simp⟩, fun h => Or.inl ⟨rfl, h.1.symm⟩⟩
      rcases h with ⟨-, h⟩ | h
      · exact h.symm
      · split_ifs at h
        · simp at h
        · cases h
    | cons d l₁ =>
      split_ifs with hp
      · simp only [false_and, false_or, List.mem_map, Prod.mk.injEq, List.cons.injEq,
          List.cons_append, List.forall_mem_cons]
        constructor
        · rintro ⟨x, hx, ⟨rfl, rfl⟩, rfl⟩
          obtain ⟨heq, hall⟩ := (ih x.1).mp hx
          exact ⟨⟨rfl, heq⟩, hp, hall⟩
        · rintro ⟨⟨rfl, heq⟩, -, hall⟩
          exact ⟨(l₁, l₂), (ih l₁).mpr ⟨heq, hall⟩, ⟨rfl, rfl⟩, rfl⟩
      · simp only [false_and, List.not_mem_nil, or_self, List.cons_append,
          List.cons.injEq, List.forall_mem_cons, false_iff]
        rintro ⟨⟨rfl, -⟩, hd, -⟩
        exact hp hd

theorem mem_results_many {lazy : Bool} :
    m ∈ results (many lazy p) atStart cs ↔
      m.groups = [] ∧ cs = m.text ++ m.rest ∧ ∀ c ∈ m.text, p c = true := by
  have hmem : m ∈ results (many lazy p) atStart cs ↔
      m ∈ (splits p cs).map fun x => (⟨x.1, [], x.2⟩ : Match) := by
    unfold results
    cases lazy <;> simp
  obtain ⟨text, groups, rest⟩ := m
  rw [hmem, List.mem_map]
  constructor
  · rintro ⟨x, hx, heq⟩
    cases heq
    exact ⟨rfl, mem_splits.mp hx⟩
  · rintro ⟨rfl, h⟩
    exact ⟨(text, rest), mem_splits.mpr h, rfl⟩

theorem mem_results_one : m ∈ results (one p) atStart cs ↔
    ∃ c, p c = true ∧ cs = c :: m.rest ∧ m.text = [c] ∧ m.groups = [] := by
  obtain ⟨text, groups, rest⟩ := m
  cases cs with
  | nil => simp [results]
  | cons c cs =>
    rw [results]
    split_ifs with hp
    · simp only [List.mem_singleton, Match.mk.injEq, List.cons.injEq]
      constructor
      · rintro ⟨rfl, rfl, rfl⟩
        exact ⟨c, hp, ⟨rfl, rfl⟩, rfl, rfl⟩
      · rintro ⟨c', -, ⟨rfl, rfl⟩, rfl, rfl⟩
        exact ⟨rfl, rfl, rfl⟩
    · simp only [List.not_mem_nil, List.cons.injEq, false_iff]
      rintro ⟨c', hc', ⟨rfl, -⟩, -⟩
      exact hp hc'

theorem mem_results_seq : m ∈ results (seq r s) atStart cs ↔
    ∃ m₁ ∈ results r atStart cs, ∃ m₂ ∈ results s (atStart && m₁.text.isEmpty) m₁.rest,
      m₁.append m₂ = m := by
  rw [results]
  simp only [List.mem_flatMap, List.mem_map]

theorem mem_results_group {n : ℕ} : m ∈ results (group n r) atStart cs ↔
    ∃ m₁ ∈ results r atStart cs, { m₁ with groups := m₁.groups ++ [(n, m₁.text)] } = m := by
  rw [results, List.mem_map]

theorem mem_results_plus {lazy : Bool} : m ∈ results (plus lazy p) atStart cs ↔
    m.groups = [] ∧ cs = m.text ++ m.rest ∧ m.text ≠ [] ∧ ∀ c ∈ m.text, p c = true := by
  rw [plus, mem_results_seq]
  constructor
  · rintro ⟨m₁, h₁, m₂, h₂, rfl⟩
    obtain ⟨c, hc, hcs, htext, hgroups⟩ := mem_results_one.mp h₁
    obtain ⟨hgroups₂, hrest, hall⟩ := mem_results_many.mp h₂
    refine ⟨by simp [Match.append, hgroups, hgroups₂], ?_, by simp [Match.append, htext], ?_⟩
    · simp [Match.append, htext, hcs, hrest]
    · simpa [Match.append, htext, hc] using hall
  · rintro ⟨hgroups, hcs, hne, hall⟩
    obtain ⟨text, groups, rest⟩ := m
    obtain ⟨c, text, rfl⟩ := List.exists_cons_of_ne_nil hne
    obtain ⟨hc, hall'⟩ := List.forall_mem_cons.mp hall
    obtain rfl : groups = [] := hgroups
    exact ⟨⟨[c], [], text ++ rest⟩, mem_results_one.mpr ⟨c, hc, hcs, rfl, rfl⟩,
      ⟨text, [], rest⟩, mem_results_many.mpr ⟨rfl, rfl, hall'⟩, rfl⟩

/-- A literal matches its own text, and in one way. -/
theorem results_literal (w : List Char) :
    results (literal w) atStart (w ++ cs) = [⟨w, [], cs⟩] := by
  induction w generalizing atStart with
  | nil => rfl
  | cons c w ih =>
    rw [literal, List.foldr_cons, results, List.cons_append, results, ← literal]
    simp [ih, Match.append]

theorem mem_results_literal {w : List Char} (h : m ∈ results (literal w) atStart cs) :
    m.text = w ∧ m.groups = [] ∧ cs = w ++ m.rest := by
  induction w generalizing atStart cs m with
  | nil =>
    cases List.mem_singleton.mp h
    exact ⟨rfl, rfl, rfl⟩
  | cons c w ih =>
    rw [literal, List.foldr_cons, ← literal, mem_results_seq] at h
    obtain ⟨m₁, h₁, m₂, h₂, rfl⟩ := h
    obtain ⟨d, hd, hcs, htext, hgroups⟩ := mem_results_one.mp h₁
    obtain ⟨htext₂, hgroups₂, hrest⟩ := ih h₂
    obtain rfl : d = c := beq_iff_eq.mp hd
    refine ⟨?_, ?_, ?_⟩
    · simp [Match.append, htext, htext₂]
    · simp [Match.append, hgroups, hgroups₂]
    · simp [Match.append, hcs, hrest]

/-- A literal does not match a text that begins otherwise. -/
theorem results_literal_of_ne {c d : Char} {w : List Char} (h : d ≠ c) :
    results (literal (c :: w)) atStart (d :: cs) = [] := by
  refine List.eq_nil_iff_forall_not_mem.mpr fun m hm => ?_
  obtain ⟨-, -, hcs⟩ := mem_results_literal hm
  exact h (List.cons.inj hcs).1

/-! ## Searching -/

/-- What is found begins somewhere in the text. -/
theorem mem_results_of_find (h : find r atStart cs = some m) :
    ∃ before rest, cs = before ++ rest ∧ m ∈ results r (atStart && before.isEmpty) rest := by
  induction cs generalizing atStart with
  | nil =>
    rw [find] at h
    cases hh : (results r atStart []).head? with
    | none => simp [hh] at h
    | some m' =>
      rw [hh] at h
      cases h
      exact ⟨[], [], rfl, by simpa using List.mem_of_mem_head? hh⟩
  | cons c cs ih =>
    rw [find] at h
    cases hh : (results r atStart (c :: cs)).head? with
    | none =>
      rw [hh] at h
      obtain ⟨before, rest, rfl, hm⟩ := ih h
      exact ⟨c :: before, rest, rfl, by simpa using hm⟩
    | some m' =>
      rw [hh] at h
      cases h
      exact ⟨[], c :: cs, rfl, by simpa using List.mem_of_mem_head? hh⟩

theorem find_of_head? (h : (results r atStart cs).head? = some m) : find r atStart cs = some m := by
  rw [find.eq_def, h]

theorem results_stop (m : Match) (atStart : Bool) :
    (results (seq stop empty) atStart m.rest).map m.append = if m.rest.isEmpty then [m] else [] := by
  obtain ⟨text, groups, rest⟩ := m
  cases rest <;> simp [results, Match.append]

/-- An anchored expression matches the whole text, from its start. -/
theorem results_anchored : results (anchored r) true cs =
    (results r true cs).filter fun m => m.rest.isEmpty := by
  have hfilter : ∀ l : List Match, (l.flatMap fun m => if m.rest.isEmpty then [m] else []) =
      l.filter fun m => m.rest.isEmpty := by
    intro l
    induction l with
    | nil => rfl
    | cons m l ih =>
      rw [List.flatMap_cons, ih, List.filter_cons]
      split_ifs <;> rfl
  have hseq : results (seq r (seq stop empty)) true cs =
      (results r true cs).filter fun m => m.rest.isEmpty := by
    rw [results]
    simp only [results_stop]
    exact hfilter _
  have hstart : (⟨[], [], cs⟩ : Match).append = id := rfl
  rw [anchored, cat, List.foldr_cons, results, results, if_pos rfl, List.flatMap_singleton, hstart,
    List.map_id]
  exact hseq

theorem find_anchored : find (anchored r) true cs = (results (anchored r) true cs).head? := by
  cases hh : (results (anchored r) true cs).head? with
  | some m => exact find_of_head? hh
  | none =>
    cases hf : find (anchored r) true cs with
    | none => rfl
    | some m =>
      obtain ⟨before, rest, rfl, hm⟩ := mem_results_of_find hf
      cases before with
      | nil =>
        rw [List.head?_eq_none_iff] at hh
        rw [List.nil_append] at hh
        rw [List.isEmpty_nil, Bool.and_true, hh] at hm
        cases hm
      | cons c before => cases hm

theorem captures_anchored {s : String} (h : captures (anchored r) s = some m) :
    m ∈ results r true s.toList ∧ m.rest = [] := by
  rw [captures, find_anchored, results_anchored] at h
  simpa using List.mem_filter.mp (List.mem_of_mem_head? h)

theorem isMatch_anchored {s : String} :
    isMatch (anchored r) s = true ↔ ∃ m ∈ results r true s.toList, m.rest = [] := by
  rw [isMatch, find_anchored, results_anchored, List.isSome_head?]
  simp

/-! ## The preferred match -/

/-- **A lazy repetition ends where the rest of the expression matches first.** -/
theorem head?_flatMap_splits {β : Type*} {f : List Char × List Char → List β} {run tail : List Char}
    {b : β} (hrun : ∀ c ∈ run, p c = true)
    (hno : ∀ l₁ l₂, run = l₁ ++ l₂ → l₂ ≠ [] → f (l₁, l₂ ++ tail) = [])
    (h : (f (run, tail)).head? = some b) :
    ((splits p (run ++ tail)).flatMap f).head? = some b := by
  induction run generalizing f with
  | nil =>
    rw [List.nil_append]
    cases tail with
    | nil => simpa [splits] using h
    | cons c tail => simp [splits, h]
  | cons c run ih =>
    obtain ⟨hc, hrun⟩ := List.forall_mem_cons.mp hrun
    have hnil : f ([], c :: run ++ tail) = [] := hno [] (c :: run) rfl (by simp)
    rw [List.cons_append] at hnil ⊢
    rw [splits, if_pos hc, List.flatMap_cons, hnil, List.nil_append, List.flatMap_map]
    refine ih hrun (fun l₁ l₂ heq hne => ?_) h
    exact hno (c :: l₁) l₂ (by rw [heq, List.cons_append]) hne

/-- Behind an expression that matches in one way. -/
theorem head?_results_seq {m' : Match} (hr : results r atStart cs = [m])
    (hs : (results s (atStart && m.text.isEmpty) m.rest).head? = some m') :
    (results (seq r s) atStart cs).head? = some (m.append m') := by
  rw [results, hr, List.flatMap_singleton, List.head?_map, hs]
  rfl

theorem results_seq_of_nil (h : results r atStart cs = []) : results (seq r s) atStart cs = [] := by
  rw [results, h, List.flatMap_nil]

/-- **A lazy group** of any number of characters. -/
theorem head?_results_lazy {n : ℕ} {run tail : List Char} (hrun : ∀ c ∈ run, p c = true)
    (hno : ∀ l₁ l₂, run = l₁ ++ l₂ → l₂ ≠ [] → ∀ b, results s b (l₂ ++ tail) = [])
    (h : (results s (atStart && run.isEmpty) tail).head? = some m) :
    (results (seq (group n (many true p)) s) atStart (run ++ tail)).head? =
      some (Match.append ⟨run, [(n, run)], tail⟩ m) := by
  rw [results, results, results, if_pos rfl, List.map_map, List.flatMap_map]
  refine head?_flatMap_splits hrun (fun l₁ l₂ heq hne => ?_) ?_
  · simp [hno l₁ l₂ heq hne]
  · simp [h]

/-- A lazy group of at least one character. -/
theorem head?_results_lazy_plus {n : ℕ} {run tail : List Char} (hne : run ≠ [])
    (hrun : ∀ c ∈ run, p c = true)
    (hno : ∀ l₁ l₂, run = l₁ ++ l₂ → l₂ ≠ [] → ∀ b, results s b (l₂ ++ tail) = [])
    (h : (results s false tail).head? = some m) :
    (results (seq (group n (plus true p)) s) atStart (run ++ tail)).head? =
      some (Match.append ⟨run, [(n, run)], tail⟩ m) := by
  obtain ⟨c, run, rfl⟩ := List.exists_cons_of_ne_nil hne
  obtain ⟨hc, hrun⟩ := List.forall_mem_cons.mp hrun
  have hplus : results (plus true p) atStart (c :: (run ++ tail)) =
      (splits p (run ++ tail)).map fun x => ⟨c :: x.1, [], x.2⟩ := by
    rw [plus, results, results, if_pos hc, List.flatMap_singleton, results, if_pos rfl, List.map_map]
    rfl
  rw [results, results, List.cons_append, hplus, List.map_map, List.flatMap_map]
  refine head?_flatMap_splits hrun (fun l₁ l₂ heq hne => ?_) ?_
  · have hnil := hno (c :: l₁) l₂ (by rw [heq, List.cons_append]) hne
    simp [hnil]
  · simp [h]

end Regex
