import Scorebook.Proofs.Scanning

/-!
# What decoding loses, and what it does not

A stretch of ASCII reads the same in both encodings a database may be in: every byte is the
character of that code. Valid UTF-8 reads as the string it encodes, so it can be written again
without loss; and a valid text can be cut in front of every ASCII byte and behind it, which is where
the scanners cut (`Text.Cut`).
-/

namespace Scorebook

theorem latin1_append (xs ys : List UInt8) : latin1 (xs ++ ys) = latin1 xs ++ latin1 ys :=
  List.map_append

/-! ## ASCII -/

/-- An ASCII byte is the encoding of its character. -/
theorem utf8EncodeChar_ofUInt8 {b : UInt8} :
    b < 0x80 → String.utf8EncodeChar (Char.ofUInt8 b) = [b] :=
  Byte.forall_of_table (p := fun b => b < 0x80 → String.utf8EncodeChar (Char.ofUInt8 b) = [b])
    (by decide +kernel) b

/-- ASCII bytes are the encoding of what they are read as. -/
theorem toByteArray_ofList_latin1 {bytes : List UInt8} (h : ∀ b ∈ bytes, b < 0x80) :
    (String.ofList (latin1 bytes)).toByteArray = bytes.toByteArray := by
  rw [String.toByteArray_ofList, List.utf8Encode]
  apply congrArg List.toByteArray
  induction bytes with
  | nil => rfl
  | cons b bytes ih =>
    have hrest := ih fun c hc => h c (List.mem_cons_of_mem b hc)
    rw [latin1, List.map_cons, List.flatMap_cons, utf8EncodeChar_ofUInt8 (h b List.mem_cons_self)]
    exact congrArg (b :: ·) hrest

/-- ASCII is read alike in both encodings. -/
theorem decode_of_ascii {bytes : List UInt8} (h : ∀ b ∈ bytes, b < 0x80) :
    decode bytes.toByteArray = String.ofList (latin1 bytes) := by
  rw [decode, List.toList_data_toByteArray]
  cases hutf8 : String.fromUTF8? bytes.toByteArray with
  | none => rfl
  | some s =>
    rw [Option.getD_some, ← String.toByteArray_inj, toByteArray_ofList_latin1 h]
    unfold String.fromUTF8? at hutf8
    split at hutf8
    · cases hutf8
      rfl
    · cases hutf8

/-! ## UTF-8 -/

/-- Valid UTF-8 is read as the string it encodes. -/
theorem toByteArray_decode {bytes : ByteArray} (h : bytes.IsValidUTF8) :
    (decode bytes).toByteArray = bytes := by
  rw [decode, String.fromUTF8?, dif_pos h]
  rfl

/-- What was encoded as UTF-8 is decoded to itself. -/
theorem decode_toByteArray (s : String) : decode s.toByteArray = s :=
  String.toByteArray_inj.1 (toByteArray_decode s.isValidUTF8)

/-- The bytes a string is written with. -/
def utf8 (s : String) : List UInt8 :=
  s.toByteArray.data.toList

/-- The encoding as a list of bytes is the encoding. -/
theorem toByteArray_utf8 (s : String) : (utf8 s).toByteArray = s.toByteArray :=
  ByteArray.ext (by rw [List.data_toByteArray, utf8, Array.toArray_toList])

/-- A string is written character by character. -/
theorem utf8_eq_flatMap (s : String) : utf8 s = s.toList.flatMap String.utf8EncodeChar := by
  rw [utf8, ← String.utf8Encode_toList, List.utf8Encode, List.toList_data_toByteArray]

theorem utf8_append (s₁ s₂ : String) : utf8 (s₁ ++ s₂) = utf8 s₁ ++ utf8 s₂ := by
  rw [utf8, String.toByteArray_append, ByteArray.data_append, Array.toList_append]
  rfl

/-- Valid UTF-8 is encoded again as it was. -/
theorem utf8_decode {bytes : List UInt8} (h : bytes.toByteArray.IsValidUTF8) :
    utf8 (decode bytes.toByteArray) = bytes := by
  rw [utf8, toByteArray_decode h, List.toList_data_toByteArray]

/-- In the encoding of a character above ASCII no byte is ASCII. -/
theorem eq_ofUInt8_of_mem_utf8EncodeChar {c : Char} {b : UInt8}
    (hmem : b ∈ String.utf8EncodeChar c) (hascii : b < 0x80) : c = Char.ofUInt8 b := by
  have hlt : b.toNat < 128 := hascii
  unfold String.utf8EncodeChar at hmem
  simp only at hmem
  -- Only a character of one byte has a byte below 0x80.
  split at hmem
  · next hsmall =>
    obtain rfl := List.mem_singleton.1 hmem
    apply Char.ext
    apply UInt32.toNat_inj.1
    show c.val.toNat = (UInt8.ofNat c.val.toNat).toUInt32.toNat
    simp only [UInt8.toNat_toUInt32, UInt8.toNat_ofNat']
    omega
  · exfalso
    split at hmem
    · simp only [List.mem_cons, List.not_mem_nil, or_false] at hmem
      rcases hmem with rfl | rfl <;> simp only [UInt8.toNat_ofNat'] at hlt <;> omega
    · split at hmem
      · simp only [List.mem_cons, List.not_mem_nil, or_false] at hmem
        rcases hmem with rfl | rfl | rfl <;> simp only [UInt8.toNat_ofNat'] at hlt <;> omega
      · simp only [List.mem_cons, List.not_mem_nil, or_false] at hmem
        rcases hmem with rfl | rfl | rfl | rfl <;> simp only [UInt8.toNat_ofNat'] at hlt <;> omega

/-- An ASCII byte in a string is a character of the string. -/
theorem mem_toList_of_mem_utf8 {s : String} {b : UInt8} (hmem : b ∈ utf8 s) (hascii : b < 0x80) :
    Char.ofUInt8 b ∈ s.toList := by
  rw [utf8_eq_flatMap, List.mem_flatMap] at hmem
  obtain ⟨c, hc, hb⟩ := hmem
  exact eq_ofUInt8_of_mem_utf8EncodeChar hb hascii ▸ hc

/-- The characters of a string that are ASCII are its bytes that are. -/
theorem mem_utf8_iff {s : String} {b : UInt8} (hascii : b < 0x80) :
    b ∈ utf8 s ↔ Char.ofUInt8 b ∈ s.toList := by
  refine ⟨fun hmem => mem_toList_of_mem_utf8 hmem hascii, fun hmem => ?_⟩
  rw [utf8_eq_flatMap]
  refine List.mem_flatMap.2 ⟨_, hmem, ?_⟩
  rw [utf8EncodeChar_ofUInt8 hascii]
  exact List.mem_singleton_self b

/-! ## The ASCII bytes -/

/-- A byte that is no ASCII is encoded with bytes that are none. -/
theorem filter_ascii_utf8EncodeChar (b : UInt8) :
    (String.utf8EncodeChar (Char.ofUInt8 b)).filter (· < 0x80) = if b < 0x80 then [b] else [] :=
  Byte.forall_of_table (p := fun b => (String.utf8EncodeChar (Char.ofUInt8 b)).filter (· < 0x80) =
    if b < 0x80 then [b] else []) (by decide +kernel) b

/-- Encoding single bytes anew keeps the ASCII bytes among them, in order. -/
theorem filter_ascii_utf8_latin1 (bytes : List UInt8) :
    (utf8 (String.ofList (latin1 bytes))).filter (· < 0x80) = bytes.filter (· < 0x80) := by
  rw [utf8_eq_flatMap, String.toList_ofList]
  induction bytes with
  | nil => rfl
  | cons b rest ih =>
    rw [latin1, List.map_cons, List.flatMap_cons, List.filter_append, filter_ascii_utf8EncodeChar]
    simp only [List.filter_cons, decide_eq_true_eq]
    split
    · exact congrArg (b :: ·) ih
    · exact ih

/-- Whatever the encoding, what is read and written again has the ASCII bytes it was read from. -/
theorem filter_ascii_utf8_decode (bytes : List UInt8) :
    (utf8 (decode bytes.toByteArray)).filter (· < 0x80) = bytes.filter (· < 0x80) := by
  by_cases hvalid : bytes.toByteArray.IsValidUTF8
  · rw [utf8_decode hvalid]
  · rw [decode, String.fromUTF8?, dif_neg hvalid, Option.getD_none, List.toList_data_toByteArray,
      filter_ascii_utf8_latin1]

/-- An ASCII byte of the decoded text stood in the bytes. -/
theorem mem_of_mem_utf8_decode {bytes : List UInt8} {b : UInt8}
    (hmem : b ∈ utf8 (decode bytes.toByteArray)) (hascii : b < 0x80) : b ∈ bytes := by
  have hfilter : b ∈ bytes.filter (· < 0x80) := by
    rw [← filter_ascii_utf8_decode]
    exact List.mem_filter.2 ⟨hmem, decide_eq_true hascii⟩
  exact (List.mem_filter.1 hfilter).1

/-- ASCII is written as it was read. -/
theorem utf8_decode_of_ascii {bytes : List UInt8} (h : ∀ b ∈ bytes, b < 0x80) :
    utf8 (decode bytes.toByteArray) = bytes := by
  rw [decode_of_ascii h, utf8, toByteArray_ofList_latin1 h, List.toList_data_toByteArray]

/-- An ASCII byte starts a character. -/
theorem isUTF8FirstByte_of_ascii {b : UInt8} : b < 0x80 → b.IsUTF8FirstByte :=
  Byte.forall_of_table (p := fun b => b < 0x80 → b.IsUTF8FirstByte) (by decide +kernel) b

namespace Text

variable {t : Text} {start p q : Nat} {b : UInt8}

/-- The text from `start` to `p` is valid by itself. -/
structure Cut (t : Text) (start p : Nat) : Prop where
  le : start ≤ p
  le_size : p ≤ t.size
  valid : (t.slice ⟨start, p⟩).IsValidUTF8

/-- A slice is cut in two at any offset in it. -/
theorem slice_append (hpq : p ≤ q) (hq : q ≤ t.size) (hp : start ≤ p) :
    t.slice ⟨start, p⟩ ++ t.slice ⟨p, q⟩ = t.slice ⟨start, q⟩ := by
  simp only [slice, Nat.min_eq_left hq, Nat.min_eq_left (Nat.le_trans hpq hq)]
  exact (ByteArray.extract_eq_extract_append_extract p hp hpq).symm

/-- A slice of a slice is a slice of the text. -/
theorem extract_slice (hp : start ≤ p) (hpq : p ≤ q) {r : Nat} (hqr : q ≤ r) (hr : r ≤ t.size) :
    (t.slice ⟨start, r⟩).extract (p - start) (q - start) = t.slice ⟨p, q⟩ := by
  simp only [slice, Nat.min_eq_left hr, Nat.min_eq_left (Nat.le_trans hqr hr),
    ByteArray.extract_extract]
  congr 1 <;> omega

/-- A slice in the text has the length of its span. -/
theorem size_slice (hp : start ≤ p) (hle : p ≤ t.size) : (t.slice ⟨start, p⟩).size = p - start := by
  have := t.size_le
  simp only [slice, Nat.min_eq_left hle, ByteArray.size_extract]
  omega

theorem getElem_bytes (hb : t[p]? = some b) (hlt : p < t.bytes.size) : t.bytes[p] = b :=
  (getElem?_eq_some_iff.1 hb).2

/-- What stands between two cuts is valid. -/
theorem Cut.slice (hp : t.Cut start p) (hq : t.Cut start q) (hpq : p ≤ q) :
    (t.slice ⟨p, q⟩).IsValidUTF8 := by
  let whole : String := ⟨t.slice ⟨start, q⟩, hq.valid⟩
  have hsize : whole.utf8ByteSize = q - start := size_slice hq.le hq.le_size
  -- A cut of the longer stretch leaves two pieces that are text.
  have hvalid : String.Pos.Raw.IsValid whole ⟨p - start⟩ := by
    refine String.Pos.Raw.isValid_iff_isValidUTF8_extract_zero.2 ⟨?_, ?_⟩
    · rw [String.Pos.Raw.le_iff, String.byteIdx_rawEndPos, hsize]
      exact Nat.sub_le_sub_right hpq start
    · have hcut : (t.slice ⟨start, q⟩).extract 0 (p - start) = t.slice ⟨start, p⟩ := by
        rw [← extract_slice (Nat.le_refl start) hp.le hpq hq.le_size, Nat.sub_self]
      exact hcut ▸ hp.valid
  have hrest := hvalid.isValidUTF8_extract_utf8ByteSize
  rw [hsize] at hrest
  exact (extract_slice hp.le hpq (Nat.le_refl q) hq.le_size) ▸ hrest

/-- A valid text can be cut in front of any byte that starts a character. -/
theorem cut_of_first (hall : t.Cut start t.size) (hp : start ≤ p) (hb : t[p]? = some b)
    (hfirst : b.IsUTF8FirstByte) : t.Cut start p := by
  have hlt := lt_size_of_getElem? hb
  let whole : String := ⟨t.slice ⟨start, t.size⟩, hall.valid⟩
  have hsize : whole.utf8ByteSize = t.size - start := size_slice hall.le (Nat.le_refl _)
  -- A first byte of a character is where a text may be cut.
  have hvalid : String.Pos.Raw.IsValid whole ⟨p - start⟩ := by
    rw [String.Pos.Raw.isValid_iff_isUTF8FirstByte]
    right
    refine ⟨?_, ?_⟩
    · rw [String.Pos.Raw.lt_iff, String.byteIdx_rawEndPos, hsize]
      exact Nat.sub_lt_sub_right hp hlt
    · have hbound : p - start < whole.toByteArray.size := by
        rw [String.size_toByteArray, hsize]
        omega
      have hbyte : whole.toByteArray[p - start] = b :=
        (ByteArray.getElem_extract hbound).trans
          (getElem_bytes (getElem?_of_eq (Nat.add_sub_cancel' hp).symm hb) _)
      rw [String.getUTF8Byte_eq_getElem]
      simp only [hbyte]
      exact hfirst
  refine ⟨hp, Nat.le_of_lt hlt, ?_⟩
  have hcut := hvalid.isValidUTF8_extract_zero
  rw [← extract_slice (Nat.le_refl start) hp (Nat.le_of_lt hlt) (Nat.le_refl _), Nat.sub_self]
  exact hcut

/-- A valid text can be cut behind an ASCII byte. -/
theorem cut_succ_of_ascii (hall : t.Cut start t.size) (hp : start ≤ p) (hb : t[p]? = some b)
    (hascii : b < 0x80) : t.Cut start (p + 1) := by
  have hlt := lt_size_of_getElem? hb
  refine ⟨Nat.le_succ_of_le hp, hlt, ?_⟩
  rw [← slice_append (Nat.le_succ p) hlt hp]
  apply (cut_of_first hall hp hb (isUTF8FirstByte_of_ascii hascii)).valid.append
  have hslice : t.slice ⟨p, p + 1⟩ = (String.utf8EncodeChar (Char.ofUInt8 b)).toByteArray := by
    rw [utf8EncodeChar_ofUInt8 hascii, slice, Nat.min_eq_left hlt,
      ByteArray.extract_add_one (Nat.le_trans hlt t.size_le), getElem_bytes hb]
  rw [hslice]
  exact Char.isValidUTF8_toByteArray_utf8EncodeChar

/-- A search for an ASCII byte ends at a cut. -/
theorem cut_seek {f : UInt8 → Bool} (hall : t.Cut start t.size)
    (hascii : ∀ b, f b = true → b < 0x80) (hp : start ≤ p) (hle : p ≤ t.size) :
    t.Cut start (t.seek f p) := by
  obtain hsize | ⟨b, hb, hfound⟩ := seek_eq_size_or t f p
  · rw [hsize]
    exact hall
  · exact cut_of_first hall (Nat.le_trans hp (le_seek hle)) hb
      (isUTF8FirstByte_of_ascii (hascii b hfound))

/-- What is read between two cuts is written with the bytes that stand there. -/
theorem utf8_read (hp : t.Cut start p) (hq : t.Cut start q) (hpq : p ≤ q) :
    utf8 (t.read ⟨p, q⟩) = t.word ⟨p, q⟩ := by
  rw [read, slice_eq_word, utf8_decode]
  exact slice_eq_word t _ ▸ hp.slice hq hpq

end Text

end Scorebook
