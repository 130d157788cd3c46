import Mathlib.Data.List.TakeWhile

/-!
# Percent-encoding and URLs

A text is percent-encoded byte by byte: a byte that is a character to be kept stands for itself, and
any other is written as `%` and two hexadecimal digits.  A URL is taken apart at the first `://`, at
the next `/`, `?` or `#`, and at the first `?` or `#` after that.

## Main definitions

* `bytes`, `encode`, `decode` — the bytes of a text, and percent-encoding.
* `encode_eq_self_iff` — the texts that are encoded as they are.
* `urlPath`, `urlQuery`, `queryPairs` — the parts of a URL.
-/

namespace Percent

/-! ## Bytes -/

/-- The UTF-8 bytes of a text. -/
def bytes (s : List Char) : List UInt8 := s.flatMap String.utf8EncodeChar

def hexDigit (n : ℕ) : Char := "0123456789ABCDEF".toList.getD n '0'

/-- The value of a digit of either case. -/
def hexValue (c : Char) : Option ℕ := "0123456789ABCDEF".toList.idxOf? c.toUpper

/-- A byte, as it is if it is a character to be kept. -/
def encodeByte (keep : Char → Bool) (b : UInt8) : List Char :=
  if keep (Char.ofNat b.toNat) then [Char.ofNat b.toNat]
  else ['%', hexDigit (b.toNat / 16), hexDigit (b.toNat % 16)]

def encode (keep : Char → Bool) (s : List Char) : List Char := (bytes s).flatMap (encodeByte keep)

/-- The bytes that a text stands for. -/
def decode : List Char → List UInt8
  | '%' :: a :: b :: rest =>
      match hexValue a, hexValue b with
      | some x, some y => UInt8.ofNat (16 * x + y) :: decode rest
      | _, _ => 0x25 :: decode (a :: b :: rest)
  | c :: rest => String.utf8EncodeChar c ++ decode rest
  | [] => []

/-- The characters that are kept are ASCII, and `%` is none of them. -/
structure Plain (keep : Char → Bool) : Prop where
  ascii : ∀ c, keep c → c.toNat < 128
  percent : keep '%' = false

section Bytes

variable {keep : Char → Bool} {s t : List Char} {c : Char} {b : UInt8}

@[simp] theorem bytes_nil : bytes [] = [] := rfl

@[simp] theorem bytes_cons : bytes (c :: s) = String.utf8EncodeChar c ++ bytes s := List.flatMap_cons

@[simp] theorem bytes_append : bytes (s ++ t) = bytes s ++ bytes t := List.flatMap_append

@[simp] theorem encode_nil : encode keep [] = [] := rfl

theorem encode_append : encode keep (s ++ t) = encode keep s ++ encode keep t := by
  rw [encode, bytes_append, List.flatMap_append, encode, encode]

theorem encode_cons : encode keep (c :: s) = encode keep [c] ++ encode keep s :=
  encode_append (s := [c])

/-- An ASCII character is one byte. -/
theorem utf8EncodeChar_of_ascii (hc : c.toNat < 128) :
    String.utf8EncodeChar c = [UInt8.ofNat c.toNat] ∧ Char.ofNat (UInt8.ofNat c.toNat).toNat = c := by
  have hsize : c.utf8Size = 1 := Char.utf8Size_eq_one_iff.mpr (UInt32.le_iff_toNat_le.mpr
    (Nat.le_of_lt_succ hc))
  constructor
  · rw [String.utf8EncodeChar_eq_singleton hsize]
    rfl
  · rw [UInt8.toNat_ofNat', Nat.mod_eq_of_lt (Nat.lt_trans hc (by decide)), Char.ofNat_toNat]

theorem encode_of_keep (hkeep : Plain keep) (hc : keep c) : encode keep [c] = [c] := by
  obtain ⟨hbytes, hback⟩ := utf8EncodeChar_of_ascii (hkeep.ascii c hc)
  rw [encode, bytes_cons, hbytes, bytes_nil, List.append_nil, List.flatMap_singleton, encodeByte, hback,
    if_pos hc]

theorem one_le_length_encodeByte : 1 ≤ (encodeByte keep b).length := by
  unfold encodeByte
  split
  · exact Nat.le_refl 1
  · exact Nat.succ_le_succ (Nat.zero_le _)

theorem length_le_flatMap (l : List UInt8) : l.length ≤ (l.flatMap (encodeByte keep)).length := by
  induction l with
  | nil => exact Nat.le_refl 0
  | cons b l ih =>
      rw [List.flatMap_cons, List.length_append, List.length_cons]
      have : 1 ≤ (encodeByte keep b).length := one_le_length_encodeByte
      omega

/-- Any other character is longer when it is encoded. -/
theorem two_le_length_encode (hc : keep c = false) : 2 ≤ (encode keep [c]).length := by
  rw [encode, bytes_cons, bytes_nil, List.append_nil]
  by_cases hascii : c.toNat < 128
  · obtain ⟨hbytes, hback⟩ := utf8EncodeChar_of_ascii hascii
    rw [hbytes, List.flatMap_singleton, encodeByte, hback, hc]
    exact Nat.succ_le_succ (Nat.succ_le_succ (Nat.zero_le _))
  · refine Nat.le_trans ?_ (length_le_flatMap _)
    rw [String.length_utf8EncodeChar]
    have hone : c.utf8Size ≠ 1 := fun h => hascii
      (Nat.lt_succ_of_le (UInt32.le_iff_toNat_le.mp (Char.utf8Size_eq_one_iff.mp h)))
    have hpos := c.utf8Size_pos
    omega

theorem length_le_encode (hkeep : Plain keep) : s.length ≤ (encode keep s).length := by
  induction s with
  | nil => exact Nat.le_refl 0
  | cons c s ih =>
      rw [encode_cons, List.length_append, List.length_cons]
      by_cases hc : keep c
      · rw [encode_of_keep hkeep hc, List.length_singleton]
        omega
      · have := two_le_length_encode (Bool.eq_false_iff.mpr hc)
        omega

/-- **The texts that are encoded as they are** are those of characters that are kept. -/
theorem encode_eq_self_iff (hkeep : Plain keep) : encode keep s = s ↔ ∀ c ∈ s, keep c := by
  constructor
  · intro h
    have hlength : (encode keep s).length = s.length := congrArg List.length h
    clear h
    induction s with
    | nil => exact List.forall_mem_nil _
    | cons c s ih =>
        rw [encode_cons, List.length_append, List.length_cons] at hlength
        have hle := length_le_encode (s := s) hkeep
        by_cases hc : keep c
        · rw [encode_of_keep hkeep hc, List.length_singleton] at hlength
          exact List.forall_mem_cons.mpr ⟨hc, ih (by omega)⟩
        · have := two_le_length_encode (Bool.eq_false_iff.mpr hc)
          omega
  · intro h
    induction s with
    | nil => rfl
    | cons c s ih =>
        obtain ⟨hc, hs⟩ := List.forall_mem_cons.mp h
        rw [encode_cons, encode_of_keep hkeep hc, ih hs]
        rfl

theorem hexDigit_spec {n : ℕ} (hn : n < 16) :
    hexValue (hexDigit n) = some n ∧ hexDigit n ∈ "0123456789ABCDEF".toList := by
  have hall : ∀ n < 16, hexValue (hexDigit n) = some n ∧ hexDigit n ∈ "0123456789ABCDEF".toList := by
    decide
  exact hall n hn

theorem mem_encode (hhex : ∀ d ∈ "0123456789ABCDEF".toList, keep d) (hc : c ∈ encode keep s) :
    keep c ∨ c = '%' := by
  obtain ⟨b, -, hc⟩ := List.mem_flatMap.mp hc
  have hb : b.toNat < 256 := b.toNat_lt
  unfold encodeByte at hc
  split at hc
  · rename_i hkeep
    rw [List.mem_singleton.mp hc]
    exact .inl hkeep
  · rcases List.mem_cons.mp hc with rfl | hc
    · exact .inr rfl
    · rcases List.mem_cons.mp hc with rfl | hc
      · exact .inl (hhex _ (hexDigit_spec (by omega)).2)
      · rw [List.mem_singleton.mp hc]
        exact .inl (hhex _ (hexDigit_spec (by omega)).2)

theorem decode_cons_of_ne (hc : c ≠ '%') : decode (c :: s) = String.utf8EncodeChar c ++ decode s := by
  rw [decode]
  exact fun a b rest heq _ => hc heq

/-- A text without `%` stands for itself. -/
theorem decode_of_not_mem (hs : '%' ∉ s) : decode s = bytes s := by
  induction s with
  | nil => rfl
  | cons c s ih =>
      rw [List.mem_cons, not_or] at hs
      rw [decode_cons_of_ne (Ne.symm hs.1), ih hs.2, bytes_cons]

theorem decode_encodeByte (hkeep : Plain keep) :
    decode (encodeByte keep b ++ s) = b :: decode s := by
  have hb : b.toNat < 256 := b.toNat_lt
  unfold encodeByte
  split
  · rename_i hc
    have hne : Char.ofNat b.toNat ≠ '%' := fun h => by
      rw [h, hkeep.percent] at hc
      cases hc
    have hall : ∀ n < 256, (Char.ofNat n).toNat = n := by decide +kernel
    have hnat := hall b.toNat hb
    obtain ⟨hbytes, -⟩ := utf8EncodeChar_of_ascii (hkeep.ascii _ hc)
    rw [List.singleton_append, decode_cons_of_ne hne, hbytes, hnat, UInt8.ofNat_toNat]
    rfl
  · have hsum : 16 * (b.toNat / 16) + b.toNat % 16 = b.toNat := by omega
    simp only [List.cons_append, List.nil_append, decode,
      (hexDigit_spec (show b.toNat / 16 < 16 by omega)).1,
      (hexDigit_spec (show b.toNat % 16 < 16 by omega)).1, hsum, UInt8.ofNat_toNat]

/-- **What is encoded is decoded again.** -/
theorem decode_encode (hkeep : Plain keep) : decode (encode keep s) = bytes s := by
  unfold encode
  induction bytes s with
  | nil => rfl
  | cons b l ih => rw [List.flatMap_cons, decode_encodeByte hkeep, ih]

end Bytes

/-! ## URLs -/

/-- What follows the first `://`. -/
def afterScheme : List Char → List Char
  | ':' :: '/' :: '/' :: rest => rest
  | _ :: rest => afterScheme rest
  | [] => []

/-- What follows the authority. -/
def afterAuthority (url : List Char) : List Char :=
  (afterScheme url).dropWhile fun c => c ∉ ['/', '?', '#']

/-- The path, up to the first `?` or `#`. -/
def urlPath (url : List Char) : List Char := (afterAuthority url).takeWhile fun c => c ∉ ['?', '#']

/-- The query, between the first `?` and the first `#`. -/
def urlQuery (url : List Char) : List Char :=
  match (afterAuthority url).dropWhile fun c => c ∉ ['?', '#'] with
  | '?' :: q => q.takeWhile (· ≠ '#')
  | _ => []

/-- The parameters of a query. -/
def queryPairs (q : List Char) : List (List UInt8 × List UInt8) :=
  (q.splitOn '&').map fun kv =>
    (decode (kv.takeWhile (· ≠ '=')), decode ((kv.dropWhile (· ≠ '=')).drop 1))

/-- A scheme and an authority. -/
def Origin (o : List Char) : Prop :=
  ∃ scheme authority, o = scheme ++ "://".toList ++ authority ∧ ':' ∉ scheme ∧
    ∀ c ∈ authority, c ∉ ['/', '?', '#']

section Urls

variable {keep : Char → Bool} {o p q s rest : List Char}

theorem afterScheme_append (hs : ':' ∉ s) : afterScheme (s ++ "://".toList ++ rest) = rest := by
  induction s with
  | nil => rfl
  | cons c s ih =>
      rw [List.mem_cons, not_or] at hs
      rw [List.cons_append, List.cons_append, afterScheme, ih hs.2]
      exact fun _ heq _ => hs.1 heq.symm

/-- The parts of a URL that is put together of them. -/
theorem parts_append (ho : Origin o) (hp : ∀ c ∈ p, c ∉ ['?', '#']) (hhead : p.head? = some '/')
    (hq : '#' ∉ q) : urlPath (o ++ p ++ '?' :: q) = p ∧ urlQuery (o ++ p ++ '?' :: q) = q := by
  obtain ⟨scheme, authority, rfl, hscheme, hauthority⟩ := ho
  have hafter : afterAuthority (scheme ++ "://".toList ++ authority ++ p ++ '?' :: q) =
      p ++ '?' :: q := by
    obtain ⟨p, rfl⟩ := List.head?_eq_some_iff.mp hhead
    rw [afterAuthority, List.append_assoc (scheme ++ _), List.append_assoc (scheme ++ _),
      afterScheme_append hscheme, List.append_assoc,
      List.dropWhile_append_of_pos fun c hc => decide_eq_true (hauthority c hc)]
    rfl
  have hall : ∀ c ∈ p, decide (c ∉ ['?', '#']) = true := fun c hc => decide_eq_true (hp c hc)
  constructor
  · rw [urlPath, hafter, List.takeWhile_append_of_pos hall]
    simp
  · rw [urlQuery, hafter, List.dropWhile_append_of_pos hall]
    refine List.takeWhile_eq_self_iff.mpr fun c hc => decide_eq_true ?_
    rintro rfl
    exact hq hc

theorem mem_intercalate {α : Type*} {a : α} {sep : List α} {ls : List (List α)}
    (h : a ∈ sep.intercalate ls) : a ∈ sep ∨ ∃ l ∈ ls, a ∈ l := by
  induction ls with
  | nil => cases h
  | cons l ls ih =>
      cases ls with
      | nil =>
          rw [List.intercalate_singleton] at h
          exact .inr ⟨l, List.mem_singleton_self _, h⟩
      | cons l' ls =>
          rw [List.intercalate_cons_cons, List.mem_append, List.mem_append] at h
          rcases h with (h | h) | h
          · exact .inr ⟨l, List.mem_cons_self, h⟩
          · exact .inl h
          · exact (ih h).imp id fun ⟨l, hl, ha⟩ => ⟨l, List.mem_cons_of_mem _ hl, ha⟩

/-- The parameters that were put together. -/
theorem queryPairs_join (hkeep : Plain keep) (hhex : ∀ d ∈ "0123456789ABCDEF".toList, keep d)
    (hsep : keep '&' = false ∧ keep '=' = false) {params : List (List Char × List Char)}
    (hne : params ≠ []) :
    queryPairs (['&'].intercalate (params.map fun kv => encode keep kv.1 ++ '=' :: encode keep kv.2)) =
      params.map fun kv => (bytes kv.1, bytes kv.2) := by
  have hnot : ∀ (c : Char) t, keep c = false → c ≠ '%' → c ∉ encode keep t := by
    intro c t hc hne hmem
    rcases mem_encode hhex hmem with h | h
    · rw [hc] at h
      cases h
    · exact hne h
  have hamp : ∀ kv ∈ params.map fun kv => encode keep kv.1 ++ '=' :: encode keep kv.2, '&' ∉ kv := by
    intro kv hkv hmem
    obtain ⟨kv, -, rfl⟩ := List.mem_map.mp hkv
    rcases List.mem_append.mp hmem with h | h
    · exact hnot _ _ hsep.1 (by decide) h
    · rcases List.mem_cons.mp h with h | h
      · exact absurd h (by decide)
      · exact hnot _ _ hsep.1 (by decide) h
  rw [queryPairs, List.splitOn_intercalate '&' hamp (by simpa using hne), List.map_map]
  refine List.map_congr_left fun kv _ => ?_
  have hall : ∀ c ∈ encode keep kv.1, decide (c ≠ '=') = true := fun c hc => decide_eq_true fun h =>
    hnot '=' _ hsep.2 (by decide) (h ▸ hc)
  dsimp only [Function.comp_apply]
  rw [List.takeWhile_append_of_pos hall, List.dropWhile_append_of_pos hall]
  have htake : ('=' :: encode keep kv.2).takeWhile (· ≠ '=') = [] := by simp
  have hdrop : ('=' :: encode keep kv.2).dropWhile (· ≠ '=') = '=' :: encode keep kv.2 := by simp
  rw [htake, hdrop, List.append_nil, List.drop_one, List.tail_cons, decode_encode hkeep,
    decode_encode hkeep]

end Urls

end Percent
