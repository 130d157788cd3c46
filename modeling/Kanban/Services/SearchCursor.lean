import Mathlib.Data.List.Basic
import Mathlib.Tactic.IntervalCases

/-!
# Search cursors

`services/search.rs`: the cursor of a page of search hits is the sort key of its last hit, as JSON in
base64.  The encoder and the decoder are written out by hand; what was encoded is decoded again.

## Main definitions

* `base64Encode`, `base64Decode` — the two loops.
* `Json` — the JSON library.
* `encodeCursor`, `decodeCursor` — the cursor of a sort key, and the value that a cursor stands for.
* `jsonText` — a JSON library whose values are texts.
-/

namespace Kanban.Services

/-! ## Base64 -/

/-- The standard alphabet. -/
def base64Chars : List Char :=
  "ABCDEFGHIJKLMNOPQRSTUVWXYZabcdefghijklmnopqrstuvwxyz0123456789+/".toList

/-- `CHARS[i] as char`. -/
def base64Char (i : UInt8) : Char := base64Chars.getD i.toNat '='

/-- `base64_encode`: three bytes make four characters, and what is left is padded. -/
def base64Encode : List UInt8 → List Char
  | b0 :: b1 :: b2 :: input =>
      base64Char (b0 >>> 2) :: base64Char (((b0 &&& 3) <<< 4) ||| (b1 >>> 4)) ::
        base64Char (((b1 &&& 0xf) <<< 2) ||| (b2 >>> 6)) :: base64Char (b2 &&& 0x3f) ::
        base64Encode input
  | [b0, b1] =>
      [base64Char (b0 >>> 2), base64Char (((b0 &&& 3) <<< 4) ||| (b1 >>> 4)),
        base64Char ((b1 &&& 0xf) <<< 2), '=']
  | [b0] => [base64Char (b0 >>> 2), base64Char ((b0 &&& 3) <<< 4), '=', '=']
  | [] => []

def base64Invalid : UInt8 := 255

/-- The byte of an ASCII character. -/
def asciiByte (c : Char) : UInt8 := c.toNat.toUInt8

/-- The decoder's table; the padding counts as zero. -/
def base64Table (byte : UInt8) : UInt8 :=
  if byte = asciiByte '=' then 0
  else match base64Chars.findIdx? fun c => asciiByte c = byte with
    | some i => i.toUInt8
    | none => base64Invalid

/-- `base64_decode` from the byte at position `i` on; fewer than four bytes at the end are ignored. -/
def base64Decode (i : ℕ) : List UInt8 → Except String (List UInt8)
  | x0 :: x1 :: x2 :: x3 :: input =>
      let a := base64Table x0
      let b := base64Table x1
      let c := base64Table x2
      let d := base64Table x3
      if a = base64Invalid ∨ b = base64Invalid ∨ c = base64Invalid ∨ d = base64Invalid then
        .error s!"invalid base64 character at position {i}"
      else do
        let out ← base64Decode (i + 4) input
        .ok (((a <<< 2) ||| (b >>> 4)) ::
          ((if x2 ≠ asciiByte '=' then [((b &&& 0xf) <<< 4) ||| (c >>> 2)] else []) ++
            (if x3 ≠ asciiByte '=' then [((c &&& 3) <<< 6) ||| d] else []) ++ out))
  | _ => .ok []

/-- A six-bit value. -/
def Sextet (v : UInt8) : Prop := v.toNat < 64

theorem table_char : ∀ i : Fin 64, base64Table (asciiByte (base64Char i.val.toUInt8)) = i.val.toUInt8 ∧
    asciiByte (base64Char i.val.toUInt8) ≠ asciiByte '=' ∧ i.val.toUInt8 ≠ base64Invalid ∧
    (base64Char i.val.toUInt8).toNat < 128 := by
  decide +kernel

/-- The table finds the character of a six-bit value. -/
theorem Sextet.table {v : UInt8} (h : Sextet v) : base64Table (asciiByte (base64Char v)) = v ∧
    asciiByte (base64Char v) ≠ asciiByte '=' ∧ v ≠ base64Invalid ∧ (base64Char v).toNat < 128 := by
  have := table_char ⟨v.toNat, h⟩
  simpa using this

theorem Sextet.or {u v : UInt8} (hu : Sextet u) (hv : Sextet v) : Sextet (u ||| v) := by
  have := Nat.or_lt_two_pow (n := 6) hu hv
  simpa [Sextet] using this

/-- The parts of a byte that the encoder takes. -/
theorem sextet_parts (b : UInt8) : (Sextet (b >>> 2) ∧ Sextet (b >>> 4) ∧ Sextet (b >>> 6)) ∧
    Sextet (b &&& 0x3f) ∧ Sextet ((b &&& 3) <<< 4) ∧ Sextet ((b &&& 0xf) <<< 2) := by
  have hb : b.toNat < 256 := b.toNat_lt
  have h3 : b.toNat &&& 3 = b.toNat % 4 := Nat.and_two_pow_sub_one_eq_mod _ 2
  have h15 : b.toNat &&& 15 = b.toNat % 16 := Nat.and_two_pow_sub_one_eq_mod _ 4
  have h63 : b.toNat &&& 63 = b.toNat % 64 := Nat.and_two_pow_sub_one_eq_mod _ 6
  simp only [Sextet, UInt8.toNat_shiftRight, UInt8.toNat_shiftLeft, UInt8.toNat_and,
    Nat.shiftRight_eq_div_pow, Nat.shiftLeft_eq]
  simp [h3, h15, h63]
  omega

/-- The first of three bytes is put together again. -/
theorem join_first (b0 b1 : UInt8) :
    (b0 >>> 2) <<< 2 ||| (((b0 &&& 3) <<< 4) ||| (b1 >>> 4)) >>> 4 = b0 := by
  refine UInt8.eq_of_toBitVec_eq (BitVec.eq_of_getLsbD_eq fun i hi => ?_)
  interval_cases i <;> simp

theorem join_second (b0 b1 b2 : UInt8) :
    ((((b0 &&& 3) <<< 4) ||| (b1 >>> 4)) &&& 0xf) <<< 4 |||
      (((b1 &&& 0xf) <<< 2) ||| (b2 >>> 6)) >>> 2 = b1 := by
  refine UInt8.eq_of_toBitVec_eq (BitVec.eq_of_getLsbD_eq fun i hi => ?_)
  interval_cases i <;> simp

theorem join_third (b1 b2 : UInt8) :
    ((((b1 &&& 0xf) <<< 2) ||| (b2 >>> 6)) &&& 3) <<< 6 ||| (b2 &&& 0x3f) = b2 := by
  refine UInt8.eq_of_toBitVec_eq (BitVec.eq_of_getLsbD_eq fun i hi => ?_)
  interval_cases i <;> simp

/-- Four characters are read at once. -/
theorem base64Decode_chars {s0 s1 s2 s3 : UInt8} {i : ℕ} {input : List UInt8} (h0 : Sextet s0)
    (h1 : Sextet s1) (h2 : Sextet s2) (h3 : Sextet s3) :
    base64Decode i (asciiByte (base64Char s0) :: asciiByte (base64Char s1) ::
        asciiByte (base64Char s2) :: asciiByte (base64Char s3) :: input) =
      (base64Decode (i + 4) input).map fun out => ((s0 <<< 2) ||| (s1 >>> 4)) ::
        (((s1 &&& 0xf) <<< 4) ||| (s2 >>> 2)) :: (((s2 &&& 3) <<< 6) ||| s3) :: out := by
  obtain ⟨ht0, -, hi0, -⟩ := h0.table
  obtain ⟨ht1, -, hi1, -⟩ := h1.table
  obtain ⟨ht2, hp2, hi2, -⟩ := h2.table
  obtain ⟨ht3, hp3, hi3, -⟩ := h3.table
  rw [base64Decode]
  simp only [ht0, ht1, ht2, ht3, hi0, hi1, hi2, hi3, or_self, if_false, if_pos hp2, if_pos hp3]
  cases base64Decode (i + 4) input <;> rfl

/-- **What was encoded is decoded again.** -/
theorem base64Decode_encode {i : ℕ} {bytes : List UInt8} :
    base64Decode i ((base64Encode bytes).map asciiByte) = .ok bytes := by
  induction bytes using base64Encode.induct generalizing i with
  | case1 b0 b1 b2 input ih =>
      obtain ⟨⟨h2, -, -⟩, -, h3, -⟩ := sextet_parts b0
      obtain ⟨⟨-, h4, -⟩, -, -, h15⟩ := sextet_parts b1
      obtain ⟨⟨-, -, h6⟩, h63, -, -⟩ := sextet_parts b2
      simp only [base64Encode, List.map_cons]
      rw [base64Decode_chars h2 (h3.or h4) (h15.or h6) h63, ih, join_first, join_second, join_third]
      rfl
  | case2 b0 b1 =>
      obtain ⟨⟨h2, -, -⟩, -, h3, -⟩ := sextet_parts b0
      obtain ⟨⟨-, h4, -⟩, -, -, h15⟩ := sextet_parts b1
      obtain ⟨ht0, -, hi0, -⟩ := h2.table
      obtain ⟨ht1, -, hi1, -⟩ := (h3.or h4).table
      obtain ⟨ht2, hp2, hi2, -⟩ := h15.table
      have hsecond := join_second b0 b1 0
      simp only [UInt8.zero_shiftRight, UInt8.or_zero] at hsecond
      simp only [base64Encode, List.map_cons, List.map_nil, base64Decode, ht0, ht1, ht2, hi0, hi1, hi2,
        if_pos hp2, join_first, hsecond]
      rfl
  | case3 b0 =>
      obtain ⟨⟨h2, -, -⟩, -, h3, -⟩ := sextet_parts b0
      obtain ⟨ht0, -, hi0, -⟩ := h2.table
      obtain ⟨ht1, -, hi1, -⟩ := h3.table
      have hfirst := join_first b0 0
      simp only [UInt8.zero_shiftRight, UInt8.or_zero] at hfirst
      simp only [base64Encode, List.map_cons, List.map_nil, base64Decode, ht0, ht1, hi0, hi1, hfirst]
      rfl
  | case4 => rfl

theorem ascii_of_mem_base64Encode {bytes : List UInt8} : ∀ c ∈ base64Encode bytes, c.toNat < 128 := by
  induction bytes using base64Encode.induct with
  | case1 b0 b1 b2 input ih =>
      obtain ⟨⟨h2, -, -⟩, -, h3, -⟩ := sextet_parts b0
      obtain ⟨⟨-, h4, -⟩, -, -, h15⟩ := sextet_parts b1
      obtain ⟨⟨-, -, h6⟩, h63, -, -⟩ := sextet_parts b2
      simp only [base64Encode, List.forall_mem_cons]
      exact ⟨h2.table.2.2.2, (h3.or h4).table.2.2.2, (h15.or h6).table.2.2.2, h63.table.2.2.2, ih⟩
  | case2 b0 b1 =>
      obtain ⟨⟨h2, -, -⟩, -, h3, -⟩ := sextet_parts b0
      obtain ⟨⟨-, h4, -⟩, -, -, h15⟩ := sextet_parts b1
      simp only [base64Encode, List.forall_mem_cons]
      exact ⟨h2.table.2.2.2, (h3.or h4).table.2.2.2, h15.table.2.2.2, by decide, List.forall_mem_nil _⟩
  | case3 b0 =>
      obtain ⟨⟨h2, -, -⟩, -, h3, -⟩ := sextet_parts b0
      simp only [base64Encode, List.forall_mem_cons]
      exact ⟨h2.table.2.2.2, h3.table.2.2.2, by decide, by decide, List.forall_mem_nil _⟩
  | case4 => exact List.forall_mem_nil _

/-- `str::as_bytes`. -/
def asBytes (s : String) : List UInt8 := s.toUTF8.data.toList

/-- The bytes of an ASCII text. -/
theorem asBytes_ofList {l : List Char} (h : ∀ c ∈ l, c.toNat < 128) :
    asBytes (String.ofList l) = l.map asciiByte := by
  have hchars : l.flatMap String.utf8EncodeChar = l.map asciiByte := by
    induction l with
    | nil => rfl
    | cons c l ih =>
        obtain ⟨hc, hl⟩ := List.forall_mem_cons.mp h
        have hsize : c.utf8Size = 1 := Char.utf8Size_eq_one_iff.mpr (by
          rw [UInt32.le_iff_toNat_le]
          exact Nat.le_of_lt_succ hc)
        rw [List.flatMap_cons, String.utf8EncodeChar_eq_singleton hsize, List.map_cons, ih hl]
        rfl
  unfold asBytes
  rw [String.toUTF8, String.toByteArray_ofList, List.utf8Encode, List.toList_data_toByteArray, hchars]

/-! ## Cursors -/

/-- The JSON library, as far as the cursors use it: `serde_json::to_vec` of an array, and
`serde_json::from_slice` with the text of its error. -/
structure Json (V : Type) where
  array : List V → V
  toVec : List V → Option (List UInt8)
  fromSlice : List UInt8 → Except String V

/-- An array that was written is read again, and an empty text is no value. -/
structure Json.Lawful {V : Type} (json : Json V) : Prop where
  fromSlice_toVec : ∀ sort, ∃ bytes, json.toVec sort = some bytes ∧
    json.fromSlice bytes = .ok (json.array sort)
  fromSlice_nil : ∀ v, json.fromSlice [] ≠ .ok v

variable {V : Type} (json : Json V)

/-- Turn a hit's sort key into a base64-encoded JSON cursor. -/
def encodeCursor (sort : List V) : String :=
  String.ofList (base64Encode ((json.toVec sort).getD []))

/-- Decode a cursor created by `encodeCursor`. -/
def decodeCursor (cursor : String) : Except String V := do
  let bytes ← base64Decode 0 (asBytes cursor)
  json.fromSlice bytes

variable {json}

/-- **A cursor stands for the sort key that it was made from.** -/
theorem decodeCursor_encode (h : json.Lawful) (sort : List V) :
    decodeCursor json (encodeCursor json sort) = .ok (json.array sort) := by
  obtain ⟨bytes, hwritten, hread⟩ := h.fromSlice_toVec sort
  unfold decodeCursor encodeCursor
  rw [asBytes_ofList ascii_of_mem_base64Encode, base64Decode_encode, hwritten]
  exact hread

theorem encodeCursor_ne (h : json.Lawful) (sort : List V) : encodeCursor json sort ≠ "" := by
  intro hnil
  have hdecode := decodeCursor_encode h sort
  rw [hnil] at hdecode
  exact h.fromSlice_nil _ hdecode

/-- JSON values as their texts. -/
def jsonText : Json (List UInt8) where
  array sort := 91 :: (sort.intersperse [44]).flatten ++ [93]
  toVec sort := some (91 :: (sort.intersperse [44]).flatten ++ [93])
  fromSlice bytes := if bytes = [] then .error "EOF while parsing a value at line 1 column 0" else .ok bytes

theorem jsonText_lawful : jsonText.Lawful where
  fromSlice_toVec _ := ⟨_, rfl, rfl⟩
  fromSlice_nil _ := nofun

end Kanban.Services
