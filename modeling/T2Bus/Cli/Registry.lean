import T2Bus.Lib.Lts
import T2Bus.Cli.Config

/-!
# The registry survives being written and read back

A line of the file is read as its entry, whatever the address: the name has no space, so the lazy group
ends at the first one, and the address has no line break, so the last group takes all of it.

* `IsName`, `IsLine`, `validateBusAddrName_iff`, `captures_busAddrRgx`: what the checks let through;
* `head?_results_config`: one line; **`parseConfig_configStr`**: the whole file;
* `IsRegistry`: distinct names, and names and addresses that passed the checks; **`Command.run_ok`**;
* `Reachable`: the runs of commands; **`registry_survives`**.
-/

namespace T2Bus

namespace Cli

open Regex

/-! ## Names and addresses -/

/-- A nonempty word over `[a-z_]`. -/
def IsName (s : String) : Prop := s.toList ≠ [] ∧ ∀ c ∈ s.toList, nameChar c = true

/-- A text on one line. -/
def IsLine (s : String) : Prop := ∀ c ∈ s.toList, dot c = true

instance (s : String) : Decidable (IsName s) := inferInstanceAs (Decidable (_ ∧ _))

instance (s : String) : Decidable (IsLine s) := List.decidableBAll _ _

theorem validateBusAddrName_iff {s : String} : validateBusAddrName s = .ok s ↔ IsName s := by
  have hmatch : isMatch busAddrNameRgx s = true ↔ IsName s := by
    simp only [busAddrNameRgx, isMatch_anchored, mem_results_plus]
    constructor
    · rintro ⟨m, ⟨-, hs, hne, hall⟩, hrest⟩
      rw [hrest, List.append_nil] at hs
      exact ⟨hs ▸ hne, hs ▸ hall⟩
    · rintro ⟨hne, hall⟩
      exact ⟨⟨s.toList, [], []⟩, ⟨rfl, (List.append_nil _).symm, hne, hall⟩, rfl⟩
  rw [validateBusAddrName, ← hmatch]
  split_ifs with h <;> simp [h]

theorem mem_results_type {m : Match} {atStart : Bool} {cs : List Char}
    (h : m ∈ results (alt (literal "tcp".toList) (alt (literal "unix".toList)
      (literal "name".toList))) atStart cs) :
    (m.text = "tcp".toList ∨ m.text = "unix".toList ∨ m.text = "name".toList) ∧
      m.groups = [] ∧ cs = m.text ++ m.rest := by
  rcases List.mem_append.mp h with h | h
  · obtain ⟨htext, hgroups, hcs⟩ := mem_results_literal h
    exact ⟨Or.inl htext, hgroups, htext ▸ hcs⟩
  · rcases List.mem_append.mp h with h | h
    · obtain ⟨htext, hgroups, hcs⟩ := mem_results_literal h
      exact ⟨Or.inr (Or.inl htext), hgroups, htext ▸ hcs⟩
    · obtain ⟨htext, hgroups, hcs⟩ := mem_results_literal h
      exact ⟨Or.inr (Or.inr htext), hgroups, htext ▸ hcs⟩

/-- **What an address is made of**: a type, a colon, and a text on one line. -/
theorem captures_busAddrRgx {s : String} {m : Match} (h : captures busAddrRgx s = some m) :
    ∃ typ addr, m.get? 1 = some typ ∧ m.get? 2 = some addr ∧
      (typ = "tcp" ∨ typ = "unix" ∨ typ = "name") ∧ s = typ ++ ":" ++ addr ∧ IsLine addr := by
  obtain ⟨hm, hrest⟩ := captures_anchored h
  obtain ⟨m₁, h₁, m₂₃, h₂₃, rfl⟩ := mem_results_seq.mp hm
  obtain ⟨m₂, h₂, m₃₄, h₃₄, rfl⟩ := mem_results_seq.mp h₂₃
  obtain ⟨m₃, h₃, m₄, h₄, rfl⟩ := mem_results_seq.mp h₃₄
  cases List.mem_singleton.mp h₄
  obtain ⟨typ, htyp, rfl⟩ := mem_results_group.mp h₁
  obtain ⟨addr, haddr, rfl⟩ := mem_results_group.mp h₃
  obtain ⟨htext₂, hgroups₂, hcs₂⟩ := mem_results_literal h₂
  obtain ⟨hgroups₃, hcs₃, -, hall⟩ := mem_results_plus.mp haddr
  obtain ⟨htypes, hgroups₁, hs⟩ := mem_results_type htyp
  have hrest : addr.rest = [] := hrest
  have hcs₂ : typ.rest = ":".toList ++ m₂.rest := hcs₂
  refine ⟨String.ofList typ.text, String.ofList addr.text, ?_, ?_, ?_, ?_, ?_⟩
  · simp [Match.get?, Match.append, hgroups₁]
  · simp [Match.get?, Match.append, hgroups₁, hgroups₂, hgroups₃, List.lookup_cons]
  · rcases htypes with ht | ht | ht <;> simp [ht]
  · refine String.toList_inj.mp ?_
    simp only [String.toList_append, String.toList_ofList]
    rw [hs, hcs₂, hcs₃, hrest, List.append_nil, List.append_assoc]
  · simpa [IsLine] using hall

/-! ## One line -/

theorem results_type {typ : List Char} (h : typ = "tcp".toList ∨ typ = "unix".toList)
    (atStart : Bool) (rest : List Char) :
    results (group 2 (alt (literal "tcp".toList) (literal "unix".toList))) atStart (typ ++ rest) =
      [⟨typ, [(2, typ)], rest⟩] := by
  have hne : 'u' ≠ 't' := by decide
  have hne' : 't' ≠ 'u' := by decide
  rw [results, results]
  rcases h with rfl | rfl
  · have hunix : results (literal "unix".toList) atStart ("tcp".toList ++ rest) = [] :=
      results_literal_of_ne hne'
    rw [results_literal, hunix]
    rfl
  · have htcp : results (literal "tcp".toList) atStart ("unix".toList ++ rest) = [] :=
      results_literal_of_ne hne
    rw [results_literal, htcp]
    rfl

/-- The rest of an expression that begins with a character does not match within a text without it. -/
theorem results_within {c : Char} {rs : List Regex} {run l₁ l₂ tail : List Char}
    (hrun : ∀ d ∈ run, d ≠ c) (heq : run = l₁ ++ l₂) (hne : l₂ ≠ []) (atStart : Bool) :
    results (cat (literal [c] :: rs)) atStart (l₂ ++ tail) = [] := by
  obtain ⟨d, l₂, rfl⟩ := List.exists_cons_of_ne_nil hne
  have hd : d ≠ c := hrun d (heq ▸ List.mem_append_right _ List.mem_cons_self)
  exact results_seq_of_nil (results_literal_of_ne hd)

/-- **A line is read as its entry**: the name up to the first space, the type, and the rest. -/
theorem head?_results_config {name typ text : List Char} (hname : name ≠ [])
    (hspace : ∀ c ∈ name, c ≠ ' ' ∧ dot c = true)
    (htyp : typ = "tcp".toList ∨ typ = "unix".toList) (htext : ∀ c ∈ text, dot c = true)
    (atStart : Bool) (rest : List Char) :
    (results busAddrConfigRgx atStart
      (name ++ (' ' :: (typ ++ (':' :: (text ++ ('\n' :: rest))))))).head? =
      some ⟨name ++ (' ' :: (typ ++ (':' :: (text ++ ['\n'])))),
        [(1, name), (2, typ), (3, text)], rest⟩ := by
  have hline : ∀ b, (results (cat [literal ['\n']]) b ('\n' :: rest)).head? =
      some ⟨['\n'], [], rest⟩ :=
    fun b => rfl
  have htext' : ∀ b, (results (cat [group 3 (many true dot), literal ['\n']]) b
      (text ++ ('\n' :: rest))).head? = some ⟨text ++ ['\n'], [(3, text)], rest⟩ := by
    refine fun b => head?_results_lazy htext (fun l₁ l₂ heq hne b => ?_) (hline _)
    exact results_within (fun d hd => by simpa [dot] using htext d hd) heq hne b
  have hcolon : ∀ b, (results (cat [literal [':'], group 3 (many true dot),
      literal ['\n']]) b (':' :: (text ++ ('\n' :: rest)))).head? =
      some ⟨':' :: (text ++ ['\n']), [(3, text)], rest⟩ :=
    fun b => head?_results_seq (results_literal [':']) (htext' _)
  have htyp' : ∀ b, (results (cat [group 2 (alt (literal "tcp".toList) (literal "unix".toList)),
      literal [':'], group 3 (many true dot), literal ['\n']]) b
      (typ ++ (':' :: (text ++ ('\n' :: rest))))).head? =
      some ⟨typ ++ (':' :: (text ++ ['\n'])), [(2, typ), (3, text)], rest⟩ :=
    fun b => head?_results_seq (results_type htyp b _) (hcolon _)
  refine head?_results_lazy_plus hname (fun c hc => (hspace c hc).2) (fun l₁ l₂ heq hne b => ?_)
    (head?_results_seq (results_literal [' ']) (htyp' _))
  exact results_within (fun d hd => (hspace d hd).1) heq hne b

/-! ## The whole file -/

namespace ResolvedBusAddr

def typ : ResolvedBusAddr → String
  | .tcp _ => "tcp"
  | .unix _ => "unix"

/-- The text behind the type of an address. -/
def text : ResolvedBusAddr → String
  | .tcp addr => addr
  | .unix addr => addr

theorem toList_display (addr : ResolvedBusAddr) :
    addr.display.toList = addr.typ.toList ++ (':' :: addr.text.toList) := by
  cases addr <;> simp [display, typ, text]

theorem typ_cases (addr : ResolvedBusAddr) :
    addr.typ.toList = "tcp".toList ∨ addr.typ.toList = "unix".toList := by
  cases addr with
  | tcp addr => exact Or.inl rfl
  | unix addr => exact Or.inr rfl

end ResolvedBusAddr

/-- What a registered name and its address look like. -/
def IsEntry (e : String × ResolvedBusAddr) : Prop := IsName e.1 ∧ IsLine e.2.text

theorem IsName.ne_space {s : String} (h : IsName s) : ∀ c ∈ s.toList, c ≠ ' ' ∧ dot c = true := by
  intro c hc
  have hn := h.2 c hc
  refine ⟨?_, ?_⟩
  · rintro rfl
    exact absurd hn (by decide)
  · rw [dot, bne_iff_ne]
    rintro rfl
    exact absurd hn (by decide)

/-- A line is found, and its entry read. -/
theorem find_entryStr {e : String × ResolvedBusAddr} (h : IsEntry e) (atStart : Bool)
    (rest : List Char) : ∃ m, find busAddrConfigRgx atStart ((entryStr e).toList ++ rest) = some m ∧
      m.rest = rest ∧ entry m = .ok e := by
  obtain ⟨name, addr⟩ := e
  obtain ⟨hname, hline⟩ := h
  have hread := head?_results_config hname.1 hname.ne_space addr.typ_cases hline atStart rest
  refine ⟨_, find_of_head? ((congrArg _ ?_).trans hread), rfl, ?_⟩
  · simp [entryStr, ResolvedBusAddr.toList_display]
  · cases addr <;> simp [entry, Match.get?, List.lookup_cons, ResolvedBusAddr.typ, ResolvedBusAddr.text]

/-- The lines of the file are read one after the other. -/
theorem mapM_scan {config : Config} (h : ∀ e ∈ config, IsEntry e) {n : ℕ}
    (hn : (configStr config).toList.length ≤ n) (atStart : Bool) :
    (scan busAddrConfigRgx n atStart (configStr config).toList).mapM entry = .ok config := by
  induction config generalizing n atStart with
  | nil =>
    cases n <;> rfl
  | cons e config ih =>
    obtain ⟨he, hconfig⟩ := List.forall_mem_cons.mp h
    have hstr : (configStr (e :: config)).toList = (entryStr e).toList ++ (configStr config).toList := by
      simp [configStr]
    have hpos : 0 < (entryStr e).toList.length := by
      simp only [entryStr, String.toList_append, List.length_append]
      exact Nat.succ_pos _
    rw [hstr, List.length_append] at hn
    obtain ⟨n, rfl⟩ : ∃ k, n = k + 1 := ⟨n - 1, by omega⟩
    obtain ⟨m, hm, hrest, hentry⟩ := find_entryStr he atStart (configStr config).toList
    have ih := ih hconfig (n := n) (by omega) false
    rw [hstr, scan, hm]
    simp only [hrest, List.mapM_cons, hentry, ih]
    rfl

/-- **The file is read as it was written.** -/
theorem parseConfig_configStr {config : Config} (h : ∀ e ∈ config, IsEntry e) :
    parseConfig (.set (some (configStr config))) = .ok config := mapM_scan h (Nat.le_refl _) true

/-! ## Commands -/

/-- The names are distinct, and every name and every address has passed its check. -/
structure IsRegistry (config : Config) : Prop where
  nodup : (config.map Prod.fst).Nodup
  entries : ∀ e ∈ config, IsEntry e

/-- The file holds a registry, if there is one. -/
def Home.Sound : Home → Prop
  | .unset => False
  | .set none => True
  | .set (some config) => ∃ registry, IsRegistry registry ∧ config = configStr registry

theorem Home.Sound.parseConfig {home : Home} (h : home.Sound) :
    ∃ registry, IsRegistry registry ∧ Cli.parseConfig home = .ok registry := by
  match home, h with
  | .set none, _ => exact ⟨[], ⟨List.nodup_nil, by simp⟩, rfl⟩
  | .set (some config), ⟨registry, hr, heq⟩ =>
    subst heq
    exact ⟨registry, hr, parseConfig_configStr hr.entries⟩

/-- The address that an argument stands for: it is the argument, or that of the name it gives. -/
def NewAddr (config : Config) (arg : String) (addr : ResolvedBusAddr) : Prop :=
  arg = addr.display ∨ ∃ name, arg = "name:" ++ name ∧ (name, addr) ∈ config

theorem resolveAddr_ok {home : Home} {config : Config} (hc : IsRegistry config)
    (hparse : parseConfig home = .ok config) {arg : String} {addr : ResolvedBusAddr}
    (h : resolveAddr (some arg) home = .ok addr) : NewAddr config arg addr ∧ IsLine addr.text := by
  rw [resolveAddr] at h
  cases hcap : captures busAddrRgx arg with
  | none =>
    simp [hcap] at h
  | some m =>
    obtain ⟨typ, text, h₁, h₂, htyp, rfl, hline⟩ := captures_busAddrRgx hcap
    rcases htyp with rfl | rfl | rfl
    · simp only [hcap, h₁, h₂] at h
      cases h
      exact ⟨Or.inl rfl, hline⟩
    · simp only [hcap, h₁, h₂] at h
      cases h
      exact ⟨Or.inl rfl, hline⟩
    · simp only [hcap, h₁, h₂, hparse] at h
      cases hfind : config.find? fun e => e.1 == text with
      | none =>
        simp only [bind, Except.bind, hfind] at h
        cases h
      | some e =>
        simp only [bind, Except.bind, hfind] at h
        cases h
        have hmem : e ∈ config := List.mem_of_find?_eq_some hfind
        have hname : e.1 = text := by simpa using List.find?_some hfind
        exact ⟨Or.inr ⟨e.1, by rw [hname]; rfl, hmem⟩, (hc.entries e hmem).2⟩

/-- The entries of the other names. -/
def others (name : String) (config : Config) : Config := config.filter fun e => e.1 != name

theorem mem_others {name : String} {config : Config} {e : String × ResolvedBusAddr} :
    e ∈ others name config ↔ e ∈ config ∧ e.1 ≠ name := by
  simp [others]

@[simp] theorem others_others (name : String) (config : Config) :
    others name (others name config) = others name config := by
  simp [others]

theorem IsRegistry.others {config : Config} (h : IsRegistry config) (name : String) :
    IsRegistry (others name config) :=
  ⟨h.nodup.sublist (List.filter_sublist.map _), fun e he => h.entries e (mem_others.mp he).1⟩

theorem IsRegistry.perm {config config' : Config} (h : IsRegistry config)
    (hperm : config.Perm config') : IsRegistry config' :=
  ⟨(hperm.map _).nodup_iff.mp h.nodup, fun e he => h.entries e (hperm.mem_iff.mpr he)⟩

/-- The list with an entry put in front or behind, in place of what the name had. -/
def withEntry (config : Config) (name : String) (addr : ResolvedBusAddr) (isDefault : Bool) :
    Config :=
  if isDefault then (name, addr) :: others name config else others name config ++ [(name, addr)]

theorem IsRegistry.withEntry {config : Config} (h : IsRegistry config) {name : String}
    {addr : ResolvedBusAddr} (he : IsEntry (name, addr)) (isDefault : Bool) :
    IsRegistry (withEntry config name addr isDefault) := by
  have ho := h.others name
  have hnew : name ∉ (Cli.others name config).map Prod.fst := by
    intro hmem
    obtain ⟨e, hmem, heq⟩ := List.mem_map.mp hmem
    exact (mem_others.mp hmem).2 heq
  have hcons : IsRegistry ((name, addr) :: Cli.others name config) :=
    ⟨List.nodup_cons.mpr ⟨hnew, ho.nodup⟩, List.forall_mem_cons.mpr ⟨he, ho.entries⟩⟩
  cases isDefault with
  | true => exact hcons
  | false => exact hcons.perm (List.perm_append_singleton _ _).symm

theorem others_withEntry (config : Config) (name : String) (addr : ResolvedBusAddr)
    (isDefault : Bool) : others name (withEntry config name addr isDefault) = others name config := by
  cases isDefault with
  | true => simp [withEntry, others]
  | false => simp [withEntry, others]

/-- What a command has made of the registered names: the named entry is first or last, or gone, and
the others are what they were. -/
def Command.Updates (old written : Config) : Command → Prop
  | register name arg isDefault =>
    (∃ addr, NewAddr old arg addr ∧
      (if isDefault then written.head? else written.getLast?) = some (name, addr)) ∧
      others name written = others name old
  | unregister name => (∀ e ∈ written, e.1 ≠ name) ∧ others name written = others name old

/-- **What a command writes.** -/
theorem Command.run_ok {home home' : Home} (hs : home.Sound) {command : Command}
    (hv : command.Valid) (h : command.run home = .ok home') :
    ∃ old written, parseConfig home = .ok old ∧ home' = .set (some (configStr written)) ∧
      IsRegistry written ∧ command.Updates old written := by
  obtain ⟨old, hold, hparse⟩ := hs.parseConfig
  cases home with
  | unset => exact hs.elim
  | set config =>
    cases command with
    | register name arg isDefault =>
      rw [run] at h
      cases hres : resolveAddr (some arg) (.set config) with
      | error fault =>
        rw [hres] at h
        cases h
      | ok addr =>
        rw [hres, hparse] at h
        cases h
        obtain ⟨hnew, hline⟩ := resolveAddr_ok hold hparse hres
        have hentry : IsEntry (name, addr) := ⟨validateBusAddrName_iff.mp hv.1, hline⟩
        refine ⟨old, withEntry old name addr isDefault, hparse, rfl,
          hold.withEntry hentry isDefault, ⟨addr, hnew, ?_⟩, others_withEntry old name addr isDefault⟩
        cases isDefault with
        | true => rfl
        | false => exact List.getLast?_concat
    | unregister name =>
      rw [run, hparse] at h
      cases h
      exact ⟨old, others name old, hparse, rfl, hold.others name, fun e he => (mem_others.mp he).2,
        others_others name old⟩

/-! ## Runs of commands -/

/-- A command that the argument parser accepts; one that fails leaves the file as it is. -/
def step (home : Home) (command : Command) : Option Home :=
  if command.Valid then
    match command.run home with
    | .ok home' => some home'
    | .error _ => some home
  else none

/-- The home directories that any commands lead to, when there is no file at first. -/
def Reachable (home : Home) : Prop := Lts.Reachable step (.set none) home

theorem Home.Sound.step {home home' : Home} {command : Command} (h : home.Sound)
    (hstep : step home command = some home') : home'.Sound := by
  rw [Cli.step] at hstep
  split_ifs at hstep with hv
  cases hrun : command.run home with
  | error fault =>
    rw [hrun] at hstep
    cases hstep
    exact h
  | ok home₁ =>
    rw [hrun] at hstep
    cases hstep
    obtain ⟨old, written, -, rfl, hw, -⟩ := Command.run_ok h hv hrun
    exact ⟨written, hw, rfl⟩

theorem Reachable.sound {home : Home} (h : Reachable home) : home.Sound := by
  have hinit : Home.Sound (.set none) := trivial
  exact Lts.invariant hinit (fun _ _ _ hs hstep => hs.step hstep) h

/-- **The registry survives**: whatever commands were run, the list that a successful command has
written is the list that is read, its names are distinct, and it differs from the list before in the
named entry only. -/
theorem registry_survives {home home' : Home} {command : Command} (h : Reachable home)
    (hv : command.Valid) (hrun : command.run home = .ok home') :
    ∃ old written, parseConfig home = .ok old ∧ home' = .set (some (configStr written)) ∧
      parseConfig home' = .ok written ∧ (written.map Prod.fst).Nodup ∧
      command.Updates old written := by
  obtain ⟨old, written, hparse, rfl, hw, hup⟩ := Command.run_ok h.sound hv hrun
  exact ⟨old, written, hparse, rfl, parseConfig_configStr hw.entries, hw.nodup, hup⟩

/-- An address that looks like several entries, registered again as the default by its name. -/
theorem registry_survives_imitated :
    ∃ old written, parseConfig (.set (some "a tcp:x tcp:y unix:z\n")) = .ok old ∧
      Home.set (some "b tcp:x tcp:y unix:z\na tcp:x tcp:y unix:z\n") =
        .set (some (configStr written)) ∧
      parseConfig (.set (some "b tcp:x tcp:y unix:z\na tcp:x tcp:y unix:z\n")) = .ok written ∧
      (written.map Prod.fst).Nodup ∧ (Command.register "b" "name:a" true).Updates old written :=
  registry_survives ⟨[.register "a" "tcp:x tcp:y unix:z" false], by decide +kernel⟩
    (by decide +kernel) (by decide +kernel)

end Cli

end T2Bus
