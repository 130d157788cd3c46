import Kanban.Services.SearchCursor

/-!
# The loops of the base64 codec

The encoder and the decoder run over the indices of their input and look each byte up in a table.  An
index out of range would panic.  None is, and the loops do what the recursions of
`Services.SearchCursor` do.

## Main definitions

* `encodeLoop`, `decodeLoop` — the loops; `none` is a panic.
-/

namespace Kanban.Services

/-! ## The encoder -/

/-- `CHARS[i]`. -/
def charAt (i : ℕ) : Option Char := base64Chars[i]?

/-- `base64_encode` from the index `i` on. -/
def encodeLoop (input : List UInt8) (i : ℕ) (out : List Char) : Option (List Char) :=
  if i + 2 < input.length then do
    let b0 := (← input[i]?).toNat
    let b1 := (← input[i + 1]?).toNat
    let b2 := (← input[i + 2]?).toNat
    let c0 ← charAt (b0 >>> 2)
    let c1 ← charAt (((b0 &&& 3) <<< 4) ||| (b1 >>> 4))
    let c2 ← charAt (((b1 &&& 0xf) <<< 2) ||| (b2 >>> 6))
    let c3 ← charAt (b2 &&& 0x3f)
    encodeLoop input (i + 3) (out ++ [c0, c1, c2, c3])
  else if input.length < i then none
  else if input.length - i = 1 then do
    let b0 := (← input[i]?).toNat
    let c0 ← charAt (b0 >>> 2)
    let c1 ← charAt ((b0 &&& 3) <<< 4)
    some (out ++ [c0, c1, '=', '='])
  else if input.length - i = 2 then do
    let b0 := (← input[i]?).toNat
    let b1 := (← input[i + 1]?).toNat
    let c0 ← charAt (b0 >>> 2)
    let c1 ← charAt (((b0 &&& 3) <<< 4) ||| (b1 >>> 4))
    let c2 ← charAt ((b1 &&& 0xf) <<< 2)
    some (out ++ [c0, c1, c2, '='])
  else some out
termination_by input.length - i

/-- A six-bit value is the index of a character. -/
theorem Sextet.charAt {v : UInt8} (h : Sextet v) : charAt v.toNat = some (base64Char v) := by
  have hlength : base64Chars.length = 64 := by decide
  have hv : v.toNat < base64Chars.length := hlength ▸ h
  rw [Services.charAt, List.getElem?_eq_getElem hv, base64Char, List.getD_eq_getElem?_getD,
    List.getElem?_eq_getElem hv, Option.getD_some]

/-- The parts of a byte that the encoder takes are the same for bytes and for indices. -/
theorem toNat_parts (b : UInt8) : ((b >>> 2).toNat = b.toNat >>> 2 ∧ (b >>> 4).toNat = b.toNat >>> 4 ∧
    (b >>> 6).toNat = b.toNat >>> 6) ∧ (b &&& 0x3f).toNat = b.toNat &&& 0x3f ∧
    ((b &&& 3) <<< 4).toNat = (b.toNat &&& 3) <<< 4 ∧
    ((b &&& 0xf) <<< 2).toNat = (b.toNat &&& 0xf) <<< 2 := by
  have hb : b.toNat < 256 := b.toNat_lt
  have h3 : b.toNat &&& 3 = b.toNat % 4 := Nat.and_two_pow_sub_one_eq_mod _ 2
  have h15 : b.toNat &&& 15 = b.toNat % 16 := Nat.and_two_pow_sub_one_eq_mod _ 4
  simp only [UInt8.toNat_shiftRight, UInt8.toNat_shiftLeft, UInt8.toNat_and,
    Nat.shiftRight_eq_div_pow, Nat.shiftLeft_eq]
  simp [h3, h15]
  omega

section Encoder

variable {b0 b1 b2 : UInt8}

theorem charAt_first : charAt (b0.toNat >>> 2) = some (base64Char (b0 >>> 2)) := by
  rw [← (toNat_parts b0).1.1]
  exact (sextet_parts b0).1.1.charAt

theorem charAt_second : charAt (((b0.toNat &&& 3) <<< 4) ||| (b1.toNat >>> 4)) =
    some (base64Char (((b0 &&& 3) <<< 4) ||| (b1 >>> 4))) := by
  rw [← (toNat_parts b0).2.2.1, ← (toNat_parts b1).1.2.1, ← UInt8.toNat_or]
  exact ((sextet_parts b0).2.2.1.or (sextet_parts b1).1.2.1).charAt

theorem charAt_third : charAt (((b1.toNat &&& 0xf) <<< 2) ||| (b2.toNat >>> 6)) =
    some (base64Char (((b1 &&& 0xf) <<< 2) ||| (b2 >>> 6))) := by
  rw [← (toNat_parts b1).2.2.2, ← (toNat_parts b2).1.2.2, ← UInt8.toNat_or]
  exact ((sextet_parts b1).2.2.2.or (sextet_parts b2).1.2.2).charAt

theorem charAt_fourth : charAt (b2.toNat &&& 0x3f) = some (base64Char (b2 &&& 0x3f)) := by
  rw [← (toNat_parts b2).2.1]
  exact (sextet_parts b2).2.1.charAt

theorem charAt_second_last : charAt ((b0.toNat &&& 3) <<< 4) = some (base64Char ((b0 &&& 3) <<< 4)) := by
  rw [← (toNat_parts b0).2.2.1]
  exact (sextet_parts b0).2.2.1.charAt

theorem charAt_third_last : charAt ((b1.toNat &&& 0xf) <<< 2) = some (base64Char ((b1 &&& 0xf) <<< 2)) := by
  rw [← (toNat_parts b1).2.2.2]
  exact (sextet_parts b1).2.2.2.charAt

end Encoder

/-- **The loop of the encoder** reads what it has not read yet, and panics nowhere. -/
theorem encodeLoop_eq {input : List UInt8} {i : ℕ} {out : List Char} (hi : i ≤ input.length) :
    encodeLoop input i out = some (out ++ base64Encode (input.drop i)) := by
  obtain ⟨n, hn⟩ : ∃ n, n = input.length - i := ⟨_, rfl⟩
  induction n using Nat.strongRecOn generalizing i out with
  | _ n ih =>
    unfold encodeLoop
    split
    · rename_i hthree
      have h0 := List.drop_eq_getElem_cons (show i < input.length by omega)
      have h1 := List.drop_eq_getElem_cons (show i + 1 < input.length by omega)
      have h2 := List.drop_eq_getElem_cons (show i + 2 < input.length by omega)
      have hrest : ∀ out', encodeLoop input (i + 3) out' =
          some (out' ++ base64Encode (input.drop (i + 3))) := fun out' =>
        ih (input.length - (i + 3)) (by omega) (by omega) rfl
      rw [h0, h1, h2, base64Encode]
      simp only [List.getElem?_eq_getElem (show i < input.length by omega),
        List.getElem?_eq_getElem (show i + 1 < input.length by omega),
        List.getElem?_eq_getElem (show i + 2 < input.length by omega), Option.bind_eq_bind,
        Option.bind_some, charAt_first, charAt_second, charAt_third, charAt_fourth, hrest,
        List.append_assoc, List.cons_append, List.nil_append]
    · rename_i hthree
      rw [if_neg (by omega)]
      split
      · rename_i hone
        have h0 := List.drop_eq_getElem_cons (show i < input.length by omega)
        have hnil : input.drop (i + 1) = [] := List.drop_eq_nil_iff.mpr (by omega)
        rw [h0, hnil, base64Encode]
        simp only [List.getElem?_eq_getElem (show i < input.length by omega), Option.bind_eq_bind,
          Option.bind_some, charAt_first, charAt_second_last]
      · split
        · rename_i htwo
          have h0 := List.drop_eq_getElem_cons (show i < input.length by omega)
          have h1 := List.drop_eq_getElem_cons (show i + 1 < input.length by omega)
          have hnil : input.drop (i + 2) = [] := List.drop_eq_nil_iff.mpr (by omega)
          rw [h0, h1, hnil, base64Encode]
          simp only [List.getElem?_eq_getElem (show i < input.length by omega),
            List.getElem?_eq_getElem (show i + 1 < input.length by omega), Option.bind_eq_bind,
            Option.bind_some, charAt_first, charAt_second, charAt_third_last]
        · have hnil : input.drop i = [] := List.drop_eq_nil_iff.mpr (by omega)
          rw [hnil, base64Encode, List.append_nil]

/-! ## The decoder -/

/-- `table`: an array of 256 entries that is filled in a loop over the characters. -/
def decodeTable : List UInt8 :=
  ((base64Chars.zipIdx.foldl (fun t ci => t.set (asciiByte ci.1).toNat ci.2.toUInt8)
    (List.replicate 256 base64Invalid))).set (asciiByte '=').toNat 0

/-- `table[byte as usize]`. -/
def tableAt (byte : UInt8) : Option UInt8 := decodeTable[byte.toNat]?

/-- Every byte is an index of the table. -/
theorem tableAt_eq (byte : UInt8) : tableAt byte = some (base64Table byte) := by
  have hall : decodeTable = (List.range 256).map fun n => base64Table n.toUInt8 := by decide +kernel
  have hbyte : byte.toNat.toUInt8 = byte := UInt8.ofNat_toNat
  rw [tableAt, hall, List.getElem?_map, List.getElem?_range byte.toNat_lt, Option.map_some, hbyte]

/-- `base64_decode` from the index `i` on. -/
def decodeLoop (bytes : List UInt8) (i : ℕ) (out : List UInt8) : Option (Except String (List UInt8)) :=
  if i + 3 < bytes.length then do
    let x0 ← bytes[i]?
    let x1 ← bytes[i + 1]?
    let x2 ← bytes[i + 2]?
    let x3 ← bytes[i + 3]?
    let a ← tableAt x0
    let b ← tableAt x1
    let c ← tableAt x2
    let d ← tableAt x3
    if a = base64Invalid ∨ b = base64Invalid ∨ c = base64Invalid ∨ d = base64Invalid then
      some (.error s!"invalid base64 character at position {i}")
    else
      decodeLoop bytes (i + 4) (out ++ [(a <<< 2) ||| (b >>> 4)] ++
        (if x2 ≠ asciiByte '=' then [((b &&& 0xf) <<< 4) ||| (c >>> 2)] else []) ++
        (if x3 ≠ asciiByte '=' then [((c &&& 3) <<< 6) ||| d] else []))
  else some (.ok out)
termination_by bytes.length - i

/-- Fewer than four bytes are ignored. -/
theorem base64Decode_few {bytes : List UInt8} (i : ℕ) (h : bytes.length < 4) :
    base64Decode i bytes = .ok [] := by
  match bytes, h with
  | [], _ => rfl
  | [_], _ => rfl
  | [_, _], _ => rfl
  | [_, _, _], _ => rfl

/-- **The loop of the decoder** reads what it has not read yet, and panics nowhere. -/
theorem decodeLoop_eq {bytes out : List UInt8} {i : ℕ} :
    decodeLoop bytes i out = some ((base64Decode i (bytes.drop i)).map (out ++ ·)) := by
  obtain ⟨n, hn⟩ : ∃ n, n = bytes.length - i := ⟨_, rfl⟩
  induction n using Nat.strongRecOn generalizing i out with
  | _ n ih =>
    unfold decodeLoop
    split
    · rename_i hfour
      have h0 := List.drop_eq_getElem_cons (show i < bytes.length by omega)
      have h1 := List.drop_eq_getElem_cons (show i + 1 < bytes.length by omega)
      have h2 := List.drop_eq_getElem_cons (show i + 2 < bytes.length by omega)
      have h3 := List.drop_eq_getElem_cons (show i + 3 < bytes.length by omega)
      have hrest : ∀ out', decodeLoop bytes (i + 4) out' =
          some ((base64Decode (i + 4) (bytes.drop (i + 4))).map (out' ++ ·)) := fun out' =>
        ih (bytes.length - (i + 4)) (by omega) rfl
      rw [h0, h1, h2, h3, base64Decode]
      simp only [List.getElem?_eq_getElem (show i < bytes.length by omega),
        List.getElem?_eq_getElem (show i + 1 < bytes.length by omega),
        List.getElem?_eq_getElem (show i + 2 < bytes.length by omega),
        List.getElem?_eq_getElem (show i + 3 < bytes.length by omega), Option.bind_eq_bind,
        Option.bind_some, tableAt_eq, hrest]
      split
      · rfl
      · cases base64Decode (i + 4) (bytes.drop (i + 4)) with
        | error e => rfl
        | ok rest => simp [Except.map, bind, Except.bind]
    · rename_i hfew
      rw [base64Decode_few i (by rw [List.length_drop]; omega)]
      simp [Except.map]

/-! ## The round trip -/

/-- **The cursor codec.**  Whatever bytes are encoded, both loops go through without a panic and the
bytes are decoded again; so a cursor stands for the sort key that it was made from, if the JSON
library reads what it has written for that key. -/
theorem cursor_codec :
    (∀ bytes : List UInt8, ∃ text, encodeLoop bytes 0 [] = some text ∧
      decodeLoop (asBytes (String.ofList text)) 0 [] = some (.ok bytes)) ∧
    ∀ (V : Type) (json : Json V) (sort : List V) (bytes : List UInt8), json.toVec sort = some bytes →
      json.fromSlice bytes = .ok (json.array sort) →
      decodeCursor json (encodeCursor json sort) = .ok (json.array sort) := by
  refine ⟨fun bytes => ⟨base64Encode bytes, ?_, ?_⟩, fun V json sort bytes hwritten hread => ?_⟩
  · rw [encodeLoop_eq (Nat.zero_le _), List.drop_zero, List.nil_append]
  · rw [decodeLoop_eq, asBytes_ofList ascii_of_mem_base64Encode, List.drop_zero, base64Decode_encode]
    rfl
  · unfold decodeCursor encodeCursor
    rw [asBytes_ofList ascii_of_mem_base64Encode, base64Decode_encode, hwritten]
    exact hread

/-- The cursor of a hit with the score `1.0` and the id `c`. -/
theorem cursor_codec_scored :
    decodeCursor jsonText (encodeCursor jsonText [asBytes "1.0", asBytes "\"c\""]) =
      .ok (asBytes "[1.0,\"c\"]") :=
  cursor_codec.2 (List UInt8) jsonText _ (asBytes "[1.0,\"c\"]") (by decide) (by decide)

end Kanban.Services
