/-
# UTF-8

Text leaves and enters the board as bytes.  `textOf?` reads a byte string that is UTF-8 all
through and refuses any other.  `lossyText` reads every byte string: each run of bytes that can
start no character, or that starts one and breaks off, becomes one replacement character; the
run is as long as some character begins with it, and at least one byte.
-/

namespace Ledboard.Text

/-- The UTF-8 bytes of a text. -/
def bytesOf (s : String) : List UInt8 := s.toUTF8.data.toList

/-- The text of a byte string that is valid UTF-8. -/
def textOf? (bytes : List UInt8) : Option String := String.fromUTF8? ⟨bytes.toArray⟩

/-- The bytes that may stand second after a first byte of a longer character. -/
def secondRange (lead : Nat) : Nat × Nat :=
  if lead = 0xe0 then (0xa0, 0xbf)
  else if lead = 0xed then (0x80, 0x9f)
  else if lead = 0xf0 then (0x90, 0xbf)
  else if lead = 0xf4 then (0x80, 0x8f)
  else (0x80, 0xbf)

/-- How many bytes a character has by its first byte; none for a byte that starts no character. -/
def sequenceLength? (lead : Nat) : Option Nat :=
  if lead < 0x80 then some 1
  else if 0xc2 ≤ lead ∧ lead ≤ 0xdf then some 2
  else if 0xe0 ≤ lead ∧ lead ≤ 0xef then some 3
  else if 0xf0 ≤ lead ∧ lead ≤ 0xf4 then some 4
  else none

/-- How many of the following bytes continue a character: at most `wanted`, the first of them
within `range`, the others continuation bytes. -/
def continuing (wanted : Nat) (range : Nat × Nat) : List UInt8 → Nat
  | [] => 0
  | b :: rest =>
    match wanted with
    | 0 => 0
    | left + 1 =>
      if range.1 ≤ b.toNat ∧ b.toNat ≤ range.2 then continuing left (0x80, 0xbf) rest + 1 else 0

/-- The code point of a character's bytes: the payload bits of the first byte, then six bits of
each other byte. -/
def codePoint (bytes : List UInt8) : Nat :=
  match bytes with
  | [] => 0
  | lead :: rest =>
    let start :=
      match rest.length with
      | 0 => lead.toNat
      | 1 => lead.toNat % 32
      | 2 => lead.toNat % 16
      | _ => lead.toNat % 8
    rest.foldl (fun n b => n * 64 + b.toNat % 64) start

/-- The replacement character. -/
def replacement : Char := '\ufffd'

/-- The first character of a byte string, and how many bytes after the first belong to it. -/
def lossyHead (lead : UInt8) (rest : List UInt8) : Char × Nat :=
  match sequenceLength? lead.toNat with
  | none => (replacement, 0)
  | some length =>
    let found := continuing (length - 1) (secondRange lead.toNat) rest
    if found + 1 = length then (Char.ofNat (codePoint (lead :: rest.take found)), found)
    else (replacement, found)

/-- The characters of a byte string, with a replacement for each run that is no character. -/
def lossyChars : List UInt8 → List Char
  | [] => []
  | lead :: rest =>
    let head := lossyHead lead rest
    head.1 :: lossyChars (rest.drop head.2)
termination_by bytes => bytes.length
decreasing_by
  simp only [List.length_drop, List.length_cons]
  omega

/-- The text of any byte string. -/
def lossyText (bytes : List UInt8) : String := String.ofList (lossyChars bytes)

theorem textOf?_bytesOf (s : String) : textOf? (bytesOf s) = some s := by
  simp [textOf?, bytesOf, String.fromUTF8?]
  exact ⟨s.isValidUTF8, by simp [String.fromUTF8]⟩

/-- A byte string that is read as a text is the bytes of that text. -/
theorem bytesOf_of_textOf? {bytes : List UInt8} {text : String} (h : textOf? bytes = some text) :
    bytesOf text = bytes := by
  unfold textOf? String.fromUTF8? at h
  split at h
  · rw [← Option.some.inj h]
    rfl
  · exact absurd h (by simp)

@[simp] theorem length_bytesOf (s : String) : (bytesOf s).length = s.utf8ByteSize := by
  rw [bytesOf, Array.length_toList]
  rfl

theorem bytesOf_append (s t : String) : bytesOf (s ++ t) = bytesOf s ++ bytesOf t := by
  simp [bytesOf]

theorem bytesOf_ofList (cs : List Char) :
    bytesOf (String.ofList cs) = cs.flatMap String.utf8EncodeChar := by
  simp [bytesOf, List.utf8Encode, String.toByteArray_ofList]

/-- A character below 128 is one byte. -/
theorem utf8EncodeChar_of_lt {c : Char} (h : c.toNat < 128) :
    String.utf8EncodeChar c = [UInt8.ofNat c.toNat] := by
  have hascii : c.val.toNat ≤ 127 := Nat.le_of_lt_succ h
  simp only [String.utf8EncodeChar, if_pos hascii]
  rfl

/-- The bytes of any other character have their topmost bit. -/
theorem le_of_mem_utf8EncodeChar {c : Char} (h : 128 ≤ c.toNat) :
    ∀ b ∈ String.utf8EncodeChar c, 128 ≤ b.toNat := by
  have hlong : ¬ c.val.toNat ≤ 127 := Nat.not_le_of_lt h
  simp only [String.utf8EncodeChar, if_neg hlong]
  split
  · simp only [List.forall_mem_cons, UInt8.toNat_ofNat']
    exact ⟨by omega, by omega, List.forall_mem_nil _⟩
  · split
    · simp only [List.forall_mem_cons, UInt8.toNat_ofNat']
      exact ⟨by omega, by omega, by omega, List.forall_mem_nil _⟩
    · simp only [List.forall_mem_cons, UInt8.toNat_ofNat']
      exact ⟨by omega, by omega, by omega, by omega, List.forall_mem_nil _⟩

/-- A byte below 128 belongs to no character but that of its number. -/
theorem toNat_of_mem_utf8EncodeChar {c : Char} {b : UInt8} (hb : b.toNat < 128)
    (h : b ∈ String.utf8EncodeChar c) : c.toNat = b.toNat := by
  rcases Nat.lt_or_ge c.toNat 128 with hascii | hlong
  · rw [utf8EncodeChar_of_lt hascii, List.mem_singleton] at h
    rw [h, UInt8.toNat_ofNat']
    omega
  · have hle := le_of_mem_utf8EncodeChar hlong b h
    omega

theorem exists_of_mem_bytesOf {s : String} {b : UInt8} (hb : b.toNat < 128)
    (h : b ∈ bytesOf s) : ∃ c ∈ s.toList, c.toNat = b.toNat := by
  rw [← String.ofList_toList (s := s), bytesOf_ofList, List.mem_flatMap] at h
  obtain ⟨c, hc, hbyte⟩ := h
  exact ⟨c, hc, toNat_of_mem_utf8EncodeChar hb hbyte⟩

/-- A text that ends with a byte below 128 ends with the character of its number. -/
theorem exists_of_getLast?_bytesOf {s : String} {b : UInt8} (hb : b.toNat < 128)
    (h : (bytesOf s).getLast? = some b) : ∃ c, s.toList.getLast? = some c ∧ c.toNat = b.toNat := by
  rw [← String.ofList_toList (s := s), bytesOf_ofList] at h
  rcases List.eq_nil_or_concat s.toList with hnil | ⟨front, c, hlast⟩
  · rw [hnil] at h
    exact absurd h (by simp)
  · rw [List.concat_eq_append] at hlast
    rw [hlast, List.flatMap_append, List.flatMap_singleton, List.getLast?_append] at h
    refine ⟨c, by rw [hlast, List.getLast?_concat], toNat_of_mem_utf8EncodeChar hb ?_⟩
    cases hend : (String.utf8EncodeChar c).getLast? with
    | none => exact absurd (List.getLast?_eq_none_iff.mp hend) String.utf8EncodeChar_ne_nil
    | some last =>
      rw [hend, Option.some_or, Option.some.injEq] at h
      exact h ▸ List.mem_of_getLast? hend

end Ledboard.Text
