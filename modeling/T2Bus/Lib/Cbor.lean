import Mathlib.Data.List.Basic
import Mathlib.Data.Nat.Basic
import Mathlib.Tactic.Common
import Mathlib.Tactic.Ring

/-!
# A fragment of CBOR

The data items that a serializer of records and enumerations writes: unsigned integers, texts,
arrays, maps with text keys, booleans and null. Heads are written in their shortest form.

* `beBytes`, `beNat`: big-endian numbers, with `beNat_beBytes`;
* `head`, `decodeHead`: a major type with its argument;
* `Item.encode`, `Item.decode`: an item; the decoder is given the depth it may go to;
* `Item.decode_encode`: the round trip, for the items that fit the format.
-/

namespace Cbor

abbrev Bytes := List UInt8

/-- A parser reads a value off the front of the input. -/
abbrev Parser (α : Type) := Bytes → Option (α × Bytes)

/-! ## Numbers -/

/-- The last `8 * w` bits of `n`, most significant byte first. -/
def beBytes : ℕ → ℕ → Bytes
  | 0, _ => []
  | w + 1, n => UInt8.ofNat (n / 256 ^ w) :: beBytes w n

/-- The number that the bytes spell. -/
def beNat (bytes : Bytes) : ℕ := bytes.foldl (fun n b => 256 * n + b.toNat) 0

@[simp] theorem length_beBytes (w n : ℕ) : (beBytes w n).length = w := by
  induction w with
  | zero => rfl
  | succ w ih => rw [beBytes, List.length_cons, ih]

/-- **Big-endian round trip**, up to the width. -/
theorem beNat_beBytes (w n : ℕ) : beNat (beBytes w n) = n % 256 ^ w := by
  have h : ∀ acc, (beBytes w n).foldl (fun n b => 256 * n + b.toNat) acc =
      acc * 256 ^ w + n % 256 ^ w := by
    induction w with
    | zero => intro acc; simp [beBytes, Nat.mod_one]
    | succ w ih =>
      intro acc
      rw [beBytes, List.foldl_cons, ih, Nat.mod_pow_succ, UInt8.toNat_ofNat']
      norm_num
      ring
  rw [beNat, h, Nat.zero_mul, Nat.zero_add]

/-- Read a given number of bytes. -/
def takeBytes (k : ℕ) : Parser Bytes := fun bytes =>
  if k ≤ bytes.length then some (bytes.take k, bytes.drop k) else none

theorem takeBytes_append {k : ℕ} {bytes : Bytes} (h : bytes.length = k) (rest : Bytes) :
    takeBytes k (bytes ++ rest) = some (bytes, rest) := by
  subst h
  simp [takeBytes]

/-! ## Heads -/

/-- The width of the number that follows, for the last five bits of a head. -/
def argWidth (info : ℕ) : Option ℕ :=
  match info with
  | 24 => some 1
  | 25 => some 2
  | 26 => some 4
  | 27 => some 8
  | _ => none

/-- The major type and its argument, in the shortest form. -/
def head (major n : ℕ) : Bytes :=
  if n < 24 then [UInt8.ofNat (32 * major + n)]
  else if n < 2 ^ 8 then UInt8.ofNat (32 * major + 24) :: beBytes 1 n
  else if n < 2 ^ 16 then UInt8.ofNat (32 * major + 25) :: beBytes 2 n
  else if n < 2 ^ 32 then UInt8.ofNat (32 * major + 26) :: beBytes 4 n
  else UInt8.ofNat (32 * major + 27) :: beBytes 8 n

def decodeHead : Parser (ℕ × ℕ)
  | [] => none
  | b :: rest =>
    let major := b.toNat / 32
    let info := b.toNat % 32
    if info < 24 then some ((major, info), rest)
    else do
      let w ← argWidth info
      let (arg, rest) ← takeBytes w rest
      return ((major, beNat arg), rest)

theorem decodeHead_short {major n : ℕ} (hm : major < 8) (hn : n < 24) (rest : Bytes) :
    decodeHead (UInt8.ofNat (32 * major + n) :: rest) = some ((major, n), rest) := by
  have hb : (UInt8.ofNat (32 * major + n)).toNat = 32 * major + n := by
    rw [UInt8.toNat_ofNat']
    omega
  have hdiv : (32 * major + n) / 32 = major := by omega
  have hmod : (32 * major + n) % 32 = n := by omega
  simp only [decodeHead, hb, hdiv, hmod, if_pos hn]

theorem decodeHead_long {major info w n : ℕ} (hm : major < 8) (hi : 24 ≤ info) (hi' : info < 32)
    (hw : argWidth info = some w) (hn : n < 256 ^ w) (rest : Bytes) :
    decodeHead (UInt8.ofNat (32 * major + info) :: (beBytes w n ++ rest)) =
      some ((major, n), rest) := by
  have hb : (UInt8.ofNat (32 * major + info)).toNat = 32 * major + info := by
    rw [UInt8.toNat_ofNat']
    omega
  have hdiv : (32 * major + info) / 32 = major := by omega
  have hmod : (32 * major + info) % 32 = info := by omega
  simp only [decodeHead, hb, hdiv, hmod, if_neg (Nat.not_lt.mpr hi), hw]
  simp [takeBytes_append (length_beBytes w n), beNat_beBytes, Nat.mod_eq_of_lt hn]

/-- **A head is read back**, whatever follows it. -/
theorem decodeHead_head {major n : ℕ} (hm : major < 8) (hn : n < 2 ^ 64) (rest : Bytes) :
    decodeHead (head major n ++ rest) = some ((major, n), rest) := by
  rw [head]
  split_ifs with h₀ h₁ h₂ h₃
  · exact decodeHead_short hm h₀ rest
  · exact decodeHead_long hm (by decide) (by decide) rfl (by simpa using h₁) rest
  · exact decodeHead_long hm (by decide) (by decide) rfl (by simpa using h₂) rest
  · exact decodeHead_long hm (by decide) (by decide) rfl (by simpa using h₃) rest
  · exact decodeHead_long hm (by decide) (by decide) rfl (by simpa using hn) rest

theorem length_head_pos (major n : ℕ) : 0 < (head major n).length := by
  rw [head]
  split_ifs <;> simp

/-! ## Items -/

inductive Item where
  | uint (n : ℕ)
  | text (s : String)
  | array (items : List Item)
  | map (entries : List (String × Item))
  | bool (b : Bool)
  | null

def encodeText (s : String) : Bytes := head 3 s.utf8ByteSize ++ s.toByteArray.data.toList

mutual

def Item.encode : Item → Bytes
  | .uint n => head 0 n
  | .text s => encodeText s
  | .array items => head 4 items.length ++ encodeItems items
  | .map entries => head 5 entries.length ++ encodeEntries entries
  | .bool false => head 7 20
  | .bool true => head 7 21
  | .null => head 7 22

def encodeItems : List Item → Bytes
  | [] => []
  | item :: items => item.encode ++ encodeItems items

def encodeEntries : List (String × Item) → Bytes
  | [] => []
  | (key, item) :: entries => encodeText key ++ item.encode ++ encodeEntries entries

end

def decodeText : Parser String := fun bytes => do
  let ((major, n), rest) ← decodeHead bytes
  guard (major = 3)
  let (s, rest) ← takeBytes n rest
  let s ← String.fromUTF8? s.toByteArray
  return (s, rest)

/-- The parser `n` times over. -/
def times {α : Type} (p : Parser α) : ℕ → Parser (List α)
  | 0 => fun bytes => some ([], bytes)
  | n + 1 => fun bytes => do
    let (a, rest) ← p bytes
    let (as, rest) ← times p n rest
    return (a :: as, rest)

def decodeEntry (p : Parser Item) : Parser (String × Item) := fun bytes => do
  let (key, rest) ← decodeText bytes
  let (item, rest) ← p rest
  return ((key, item), rest)

/-- Items nested at most `depth` deep. -/
def Item.decode : (depth : ℕ) → Parser Item
  | 0 => fun _ => none
  | depth + 1 => fun bytes => do
    let ((major, n), rest) ← decodeHead bytes
    match major with
    | 0 => return (.uint n, rest)
    | 3 =>
      let (s, rest) ← decodeText bytes
      return (.text s, rest)
    | 4 =>
      let (items, rest) ← times (Item.decode depth) n rest
      return (.array items, rest)
    | 5 =>
      let (entries, rest) ← times (decodeEntry (Item.decode depth)) n rest
      return (.map entries, rest)
    | 7 =>
      match n with
      | 20 => return (.bool false, rest)
      | 21 => return (.bool true, rest)
      | 22 => return (.null, rest)
      | _ => none
    | _ => none

/-- The items nested at most `depth` deep whose numbers and lengths have 64 bits. -/
inductive Item.Fits : ℕ → Item → Prop
  | uint {depth n} (hn : n < 2 ^ 64) : Fits (depth + 1) (.uint n)
  | text {depth s} (hs : s.utf8ByteSize < 2 ^ 64) : Fits (depth + 1) (.text s)
  | array {depth items} (hn : items.length < 2 ^ 64) (hi : ∀ item ∈ items, Fits depth item) :
      Fits (depth + 1) (.array items)
  | map {depth entries} (hn : entries.length < 2 ^ 64)
      (hk : ∀ entry ∈ entries, entry.1.utf8ByteSize < 2 ^ 64)
      (hi : ∀ entry ∈ entries, Fits depth entry.2) : Fits (depth + 1) (.map entries)
  | bool {depth b} : Fits (depth + 1) (.bool b)
  | null {depth} : Fits (depth + 1) .null

theorem decodeText_encodeText {s : String} (hs : s.utf8ByteSize < 2 ^ 64) (rest : Bytes) :
    decodeText (encodeText s ++ rest) = some (s, rest) := by
  have hlen : s.toByteArray.data.toList.length = s.utf8ByteSize := by
    rw [Array.length_toList]
    rfl
  have hutf : String.fromUTF8? s.toByteArray.data.toList.toByteArray = some s := by
    have hb : s.toByteArray.data.toList.toByteArray = s.toByteArray :=
      ByteArray.ext (by simp [List.data_toByteArray])
    rw [hb, String.fromUTF8?, dif_pos s.isValidUTF8]
    rfl
  rw [decodeText, encodeText, List.append_assoc, decodeHead_head (by decide) hs]
  simp [takeBytes_append hlen, hutf]

/-- What reads every element back reads the list back. -/
theorem times_flatMap {α : Type} {p : Parser α} {enc : α → Bytes} (as : List α)
    (h : ∀ a ∈ as, ∀ rest, p (enc a ++ rest) = some (a, rest)) (rest : Bytes) :
    times p as.length (as.flatMap enc ++ rest) = some (as, rest) := by
  induction as with
  | nil => rfl
  | cons a as ih =>
    have ih := ih fun b hb => h b (List.mem_cons_of_mem _ hb)
    simp [times, List.append_assoc, h a List.mem_cons_self, ih]

theorem encodeItems_eq (items : List Item) : encodeItems items = items.flatMap Item.encode := by
  induction items with
  | nil => rfl
  | cons item items ih => rw [encodeItems, ih, List.flatMap_cons]

def encodeEntry (entry : String × Item) : Bytes := encodeText entry.1 ++ entry.2.encode

theorem encodeEntries_eq (entries : List (String × Item)) :
    encodeEntries entries = entries.flatMap encodeEntry := by
  induction entries with
  | nil => rfl
  | cons entry entries ih => rw [encodeEntries, ih, List.flatMap_cons, encodeEntry]

/-- **An item is read back**, whatever follows it. -/
theorem Item.decode_encode {depth : ℕ} {item : Item} (h : item.Fits depth) :
    ∀ rest, Item.decode depth (item.encode ++ rest) = some (item, rest) := by
  induction h with
  | uint hn =>
    intro rest
    simp [Item.decode, Item.encode, decodeHead_head (by decide : 0 < 8) hn]
  | text hs =>
    intro rest
    have hhead := decodeHead_head (by decide : 3 < 8) hs
    simp [Item.decode, Item.encode, decodeText_encodeText hs]
    simp [encodeText, List.append_assoc, hhead]
  | array hn _ ih =>
    intro rest
    have hitems := times_flatMap _ ih rest
    simp [Item.decode, Item.encode, encodeItems_eq, List.append_assoc,
      decodeHead_head (by decide : 4 < 8) hn, hitems]
  | @map depth entries hn hk _ ih =>
    intro rest
    have hentry : ∀ entry ∈ entries, ∀ rest,
        decodeEntry (Item.decode depth) (encodeEntry entry ++ rest) = some (entry, rest) := by
      intro entry he rest
      simp [decodeEntry, encodeEntry, List.append_assoc, decodeText_encodeText (hk entry he),
        ih entry he]
    have hentries := times_flatMap entries hentry rest
    simp [Item.decode, Item.encode, encodeEntries_eq, List.append_assoc,
      decodeHead_head (by decide : 5 < 8) hn, hentries]
  | @bool _ b =>
    intro rest
    cases b <;> simp [Item.decode, Item.encode, decodeHead_head (by decide : 7 < 8)]
  | null =>
    intro rest
    simp [Item.decode, Item.encode, decodeHead_head (by decide : 7 < 8)]

/-! ## Lengths -/

/-- How long a head is for its argument. -/
def headLen (n : ℕ) : ℕ :=
  if n < 24 then 1 else if n < 2 ^ 8 then 2 else if n < 2 ^ 16 then 3 else if n < 2 ^ 32 then 5 else 9

theorem length_head (major n : ℕ) : (head major n).length = headLen n := by
  unfold head headLen
  split_ifs <;> simp

theorem headLen_pos (n : ℕ) : 0 < headLen n := by
  rw [← length_head 0]
  exact length_head_pos 0 n

theorem headLen_le (n : ℕ) : headLen n ≤ 9 := by
  unfold headLen
  split_ifs <;> decide

theorem headLen_le_of_lt {n : ℕ} (h : n < 2 ^ 32) : headLen n ≤ 5 := by
  unfold headLen
  split_ifs <;> decide

theorem length_encodeText (s : String) :
    (encodeText s).length = headLen s.utf8ByteSize + s.utf8ByteSize := by
  have hlen : s.toByteArray.data.toList.length = s.utf8ByteSize := Array.length_toList
  rw [encodeText, List.length_append, length_head, hlen]

theorem length_encode_uint (n : ℕ) : (Item.uint n).encode.length = headLen n := length_head 0 n

theorem length_encode_text (s : String) : (Item.text s).encode.length = (encodeText s).length := rfl

theorem length_encode_array (items : List Item) :
    (Item.array items).encode.length = headLen items.length + (encodeItems items).length := by
  rw [Item.encode, List.length_append, length_head]

theorem length_encode_map (entries : List (String × Item)) :
    (Item.map entries).encode.length = headLen entries.length + (encodeEntries entries).length := by
  rw [Item.encode, List.length_append, length_head]

theorem length_encodeItems_cons (item : Item) (items : List Item) :
    (encodeItems (item :: items)).length = item.encode.length + (encodeItems items).length :=
  List.length_append

theorem length_encodeEntries_cons (key : String) (item : Item) (entries : List (String × Item)) :
    (encodeEntries ((key, item) :: entries)).length =
      (encodeText key).length + item.encode.length + (encodeEntries entries).length := by
  rw [encodeEntries, List.length_append, List.length_append]

@[simp] theorem length_encodeItems_nil : (encodeItems []).length = 0 := rfl

@[simp] theorem length_encodeEntries_nil : (encodeEntries []).length = 0 := rfl

/-- A text takes more than its bytes. -/
theorem lt_length_encode_text (s : String) : s.utf8ByteSize < (Item.text s).encode.length := by
  have hpos := headLen_pos s.utf8ByteSize
  rw [length_encode_text, length_encodeText]
  omega

end Cbor
