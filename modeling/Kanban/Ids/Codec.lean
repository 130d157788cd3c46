import Kanban.Ids.Id
import Mathlib.Data.List.GetD

/-!
# Identifiers are read as they are written

An identifier that is written is read again, of its own kind.  Other texts stand for it too: digits
of either case, a ULID of which the highest digit overflows, a UUID without dashes.  Exactly the
canonical ones are written back as they were read.

## Main definitions

* `CanonicalUlid`, `CanonicalUuid` — the canonical spellings.
* `idCodec` — the codec of identifiers.
-/

namespace Kanban.Ids

open Numeral Kanban.Services

variable {U : UlidCrate} {s : String} {v : BitVec 128} {x : Id}

/-! ## Symbols -/

theorem proper_crockford {c : Char} : crockford.Proper c ↔ c ∈ crockfordSymbols := by
  constructor
  · rintro ⟨d, hd, rfl⟩
    have hall : ∀ d < 32, crockfordSymbols.getD d '0' ∈ crockfordSymbols := by decide
    exact hall d hd
  · intro hc
    obtain ⟨d, hd, rfl⟩ := List.getElem_of_mem hc
    exact ⟨d, hd, List.getD_eq_getElem _ _ hd⟩

theorem proper_hex {c : Char} : hex.Proper c ↔ c ∈ hexSymbols := by
  constructor
  · rintro ⟨d, hd, rfl⟩
    have hall : ∀ d < 16, hexSymbols.getD d '0' ∈ hexSymbols := by decide
    exact hall d hd
  · intro hc
    obtain ⟨d, hd, rfl⟩ := List.getElem_of_mem hc
    exact ⟨d, hd, List.getD_eq_getElem _ _ hd⟩

theorem byteLen_of_crockford {s : List Char} (h : ∀ c ∈ s, c ∈ crockfordSymbols) :
    byteLen s = s.length :=
  byteLen_eq_length (forall_utf8Size (fun _ _ => utf8Size_of_crockford) fun c hc =>
    proper_crockford.mpr (h c hc))

theorem byteLen_of_hex {s : List Char} (h : ∀ c ∈ s, c ∈ hexSymbols) : byteLen s = s.length :=
  byteLen_eq_length (forall_utf8Size (fun _ _ => utf8Size_of_hex) fun c hc =>
    proper_hex.mpr (h c hc))

/-! ## ULIDs -/

/-- Twenty-six digits in upper case that do not overflow. -/
def CanonicalUlid (s : String) : Prop :=
  s.toList.length = 26 ∧ (∀ c ∈ s.toList, c ∈ crockfordSymbols) ∧
    ∀ c ∈ s.toList.head?, c ∈ "01234567".toList

instance : Decidable (CanonicalUlid s) := inferInstanceAs (Decidable (_ ∧ _ ∧ _))

/-- A number of 26 digits has 128 bits exactly if its highest digit is below eight. -/
theorem lt_two_pow_iff {c : Char} {l : List Char} {n : ℕ} (hlength : (c :: l).length = 26)
    (hc : c ∈ crockfordSymbols) (h : crockford.read (c :: l) = some n) :
    n < 2 ^ 128 ↔ c ∈ "01234567".toList := by
  obtain ⟨d, w, hd, hw, rfl⟩ := Alphabet.read_cons h
  have hl : l.length = 25 := by simpa using hlength
  have hbound : w < 32 ^ 25 := hl ▸ Alphabet.read_lt (by decide) hw
  have hfirst : d < 8 ↔ c ∈ "01234567".toList := by
    have hall : ∀ c' ∈ crockfordSymbols, ∀ d' ∈ crockford.digit c', d' < 8 ↔ c' ∈ "01234567".toList := by
      decide
    exact hall c hc d hd
  rw [hl, ← hfirst]
  omega

theorem canonical_toText (hU : U.Documented) (v : BitVec 128) : CanonicalUlid (U.toText v) := by
  have hv : v.toNat < 2 ^ 128 := v.isLt
  have hv' : v.toNat < 32 ^ 26 := by omega
  have hmem : ∀ c ∈ crockford.write 26 v.toNat, c ∈ crockfordSymbols := fun c hc =>
    proper_crockford.mp (Alphabet.proper_of_mem_write (by decide) c hc)
  have hlength := Alphabet.length_write (A := crockford) (by decide) hv'
  have hread := Alphabet.read_write (A := crockford) (by decide) hv'
  rw [CanonicalUlid, hU.toText_eq, String.toList_ofList]
  refine ⟨hlength, hmem, fun c hc => ?_⟩
  cases hs : crockford.write 26 v.toNat with
  | nil =>
      rw [hs] at hc
      cases hc
  | cons c' l =>
      rw [hs] at hc hmem hlength hread
      obtain rfl : c' = c := by simpa using hc
      exact (lt_two_pow_iff hlength (hmem c' List.mem_cons_self) hread).mp hv

/-- A canonical text is read as the number that it is written for. -/
theorem parseUlid_of_canonical (hU : U.Documented) (hs : CanonicalUlid s) :
    ∃ v, parseUlid U s = some v ∧ U.toText v = s := by
  obtain ⟨hlength, hmem, hhead⟩ := hs
  obtain ⟨n, hn⟩ := Alphabet.read_isSome fun c hc => proper_crockford.mpr (hmem c hc)
  refine ⟨BitVec.ofNat 128 n, ?_, ?_⟩
  · rw [parseUlid, if_neg (not_not.mpr ((byteLen_of_crockford hmem).trans hlength)), hU.fromText_eq,
      if_pos hlength, hn, Option.map_some]
  · have hsmall : n < 2 ^ 128 := by
      cases hs : s.toList with
      | nil =>
          rw [hs] at hlength
          cases hlength
      | cons c l =>
          rw [hs] at hlength hmem hhead hn
          exact (lt_two_pow_iff hlength (hmem c List.mem_cons_self) hn).mpr (hhead c rfl)
    have hwrite := Alphabet.write_read (by decide) (fun c hc => proper_crockford.mpr (hmem c hc)) hn
    rw [hlength] at hwrite
    rw [hU.toText_eq, BitVec.toNat_ofNat, Nat.mod_eq_of_lt hsmall, hwrite, String.ofList_toList]

theorem parseUlid_toText (hU : U.Documented) (v : BitVec 128) : parseUlid U (U.toText v) = some v := by
  have hv : v.toNat < 32 ^ 26 := by
    have := v.isLt
    omega
  obtain ⟨hlength, hmem, -⟩ := canonical_toText hU v
  rw [parseUlid, if_neg (not_not.mpr ((byteLen_of_crockford hmem).trans hlength)), hU.fromText_eq,
    if_pos hlength, hU.toText_eq, String.toList_ofList, Alphabet.read_write (by decide) hv,
    Option.map_some, BitVec.ofNat_toNat, BitVec.setWidth_eq]

/-! ## UUIDs -/

/-- Five groups of digits in lower case, with dashes between them. -/
def CanonicalUuid (s : String) : Prop :=
  ∃ groups : List (List Char), groups.map List.length = uuidGroups ∧
    (∀ c ∈ groups.flatten, c ∈ hexSymbols) ∧ s.toList = ['-'].intercalate groups

theorem isAsciiHexdigit_of_mem {c : Char} (h : c ∈ hexSymbols) : isAsciiHexdigit c = true := by
  have hall : ∀ c' ∈ hexSymbols, isAsciiHexdigit c' = true := by decide
  exact hall c h

/-- Five groups of the lengths of a UUID. -/
theorem exists_groups {groups : List (List Char)} (h : groups.map List.length = uuidGroups) :
    ∃ p0 p1 p2 p3 p4, groups = [p0, p1, p2, p3, p4] ∧ p0.length = 8 ∧ p1.length = 4 ∧
      p2.length = 4 ∧ p3.length = 4 ∧ p4.length = 12 := by
  obtain ⟨p0, l0, rfl, h0, h⟩ := List.map_eq_cons_iff.mp h
  obtain ⟨p1, l1, rfl, h1, h⟩ := List.map_eq_cons_iff.mp h
  obtain ⟨p2, l2, rfl, h2, h⟩ := List.map_eq_cons_iff.mp h
  obtain ⟨p3, l3, rfl, h3, h⟩ := List.map_eq_cons_iff.mp h
  obtain ⟨p4, l4, rfl, h4, h⟩ := List.map_eq_cons_iff.mp h
  obtain rfl := List.map_eq_nil_iff.mp h
  exact ⟨p0, p1, p2, p3, p4, rfl, h0, h1, h2, h3, h4⟩

/-- The digits of a canonical text. -/
theorem uuidDigits_of_groups {groups : List (List Char)} (hlength : groups.map List.length = uuidGroups)
    (hmem : ∀ c ∈ groups.flatten, c ∈ hexSymbols) :
    byteLen (['-'].intercalate groups) = 36 ∧
      uuidDigits (['-'].intercalate groups) = some groups.flatten := by
  have hgroup : ∀ g ∈ groups, byteLen g = g.length := fun g hg =>
    byteLen_of_hex fun c hc => hmem c (List.mem_flatten_of_mem hg hc)
  have hdash : ∀ g ∈ groups, '-' ∉ g := fun g hg hc =>
    absurd (hmem _ (List.mem_flatten_of_mem hg hc)) (by decide)
  have hsplit := List.splitOn_intercalate '-' hdash (by rintro rfl; cases hlength)
  obtain ⟨p0, p1, p2, p3, p4, rfl, h0, h1, h2, h3, h4⟩ := exists_groups hlength
  simp only [List.forall_mem_cons] at hgroup
  obtain ⟨g0, g1, g2, g3, g4, -⟩ := hgroup
  have hbytes : byteLen (['-'].intercalate [p0, p1, p2, p3, p4]) = 36 := by
    have hone : Char.utf8Size '-' = 1 := by decide
    simp [List.intercalate, g0, g1, g2, g3, g4, h0, h1, h2, h3, h4, hone]
  refine ⟨hbytes, ?_⟩
  rw [uuidDigits, if_pos hbytes, hsplit]
  simp [g0, g1, g2, g3, g4, h0, h1, h2, h3, h4]

/-- The groups of the digits that are written. -/
def groupsOf (v : BitVec 128) : List (List Char) := uuidGroups.splitLengths (hex.write 32 v.toNat)

theorem groupsOf_spec (v : BitVec 128) : (groupsOf v).map List.length = uuidGroups ∧
    (∀ c ∈ (groupsOf v).flatten, c ∈ hexSymbols) ∧ (groupsOf v).flatten = hex.write 32 v.toNat := by
  have hv : v.toNat < 16 ^ 32 := by
    have := v.isLt
    omega
  have hlength := Alphabet.length_write (A := hex) (by decide) hv
  have hflatten : (groupsOf v).flatten = hex.write 32 v.toNat :=
    List.flatten_splitLengths _ _ (hlength.trans_le (by decide))
  have hsum : uuidGroups.sum ≤ (hex.write 32 v.toNat).length := by
    rw [hlength]
    decide
  refine ⟨List.map_splitLengths_length _ _ hsum, ?_, hflatten⟩
  rw [hflatten]
  exact fun c hc => proper_hex.mp (Alphabet.proper_of_mem_write (by decide) c hc)

theorem toList_formatUuid (v : BitVec 128) :
    (formatUuid v).toList = ['-'].intercalate (groupsOf v) := String.toList_ofList

theorem canonical_formatUuid (v : BitVec 128) : CanonicalUuid (formatUuid v) := by
  obtain ⟨hlength, hmem, -⟩ := groupsOf_spec v
  exact ⟨groupsOf v, hlength, hmem, toList_formatUuid v⟩

/-- A UUID with dashes is no ULID. -/
theorem parseUlid_of_canonicalUuid (hs : CanonicalUuid s) : parseUlid U s = none := by
  obtain ⟨groups, hlength, hmem, hs⟩ := hs
  rw [parseUlid, if_pos]
  rw [hs, (uuidDigits_of_groups hlength hmem).1]
  decide

theorem parseUuid_of_digits {digits : List Char} {n : ℕ} (hdigits : uuidDigits s.toList = some digits)
    (hmem : ∀ c ∈ digits, c ∈ hexSymbols) (hread : hex.read digits = some n) (hn : n < 2 ^ 128) :
    parseUuid s = some (BitVec.ofNat 128 n) := by
  have hall : digits.all isAsciiHexdigit = true :=
    List.all_eq_true.mpr fun c hc => isAsciiHexdigit_of_mem (hmem c hc)
  rw [parseUuid, hdigits, Option.bind_some, if_neg (not_not.mpr hall), fromStrRadix, hread,
    Option.bind_some, if_pos hn]

theorem parseUuid_formatUuid (v : BitVec 128) : parseUuid (formatUuid v) = some v := by
  have hv : v.toNat < 16 ^ 32 := by
    have := v.isLt
    omega
  obtain ⟨hlength, hmem, hflatten⟩ := groupsOf_spec v
  have hdigits : uuidDigits (formatUuid v).toList = some (groupsOf v).flatten := by
    rw [toList_formatUuid, (uuidDigits_of_groups hlength hmem).2]
  have hread := Alphabet.read_write (A := hex) (by decide) hv
  rw [← hflatten] at hread
  rw [parseUuid_of_digits hdigits hmem hread v.isLt, BitVec.ofNat_toNat, BitVec.setWidth_eq]

theorem splitLengths_flatten (groups : List (List Char)) :
    (groups.map List.length).splitLengths groups.flatten = groups := by
  induction groups with
  | nil => rfl
  | cons g groups ih =>
      rw [List.map_cons, List.splitLengths_cons, List.flatten_cons, List.take_left, List.drop_left, ih]

/-- A canonical text is read as the number that it is written for. -/
theorem parseUuid_of_canonical (hs : CanonicalUuid s) : ∃ v, parseUuid s = some v ∧ formatUuid v = s := by
  obtain ⟨groups, hlength, hmem, hs⟩ := hs
  have hsum : groups.flatten.length = 32 := by
    rw [List.length_flatten, hlength]
    decide
  obtain ⟨n, hn⟩ := Alphabet.read_isSome fun c hc => proper_hex.mpr (hmem c hc)
  have hsmall : n < 2 ^ 128 := by
    have := Alphabet.read_lt (by decide) hn
    rw [hsum] at this
    omega
  refine ⟨BitVec.ofNat 128 n, parseUuid_of_digits (by rw [hs, (uuidDigits_of_groups hlength hmem).2])
    hmem hn hsmall, ?_⟩
  have hwrite := Alphabet.write_read (by decide) (fun c hc => proper_hex.mpr (hmem c hc)) hn
  rw [hsum] at hwrite
  have hgroups : uuidGroups.splitLengths groups.flatten = groups := by
    rw [← hlength, splitLengths_flatten]
  rw [formatUuid, BitVec.toNat_ofNat, Nat.mod_eq_of_lt hsmall, hwrite, hgroups, ← hs,
    String.ofList_toList]

/-! ## Identifiers -/

/-- **No text is both.** -/
theorem not_parseUlid_of_parseUuid (h : parseUuid s = some v) : parseUlid U s = none := by
  rw [parseUlid, if_pos]
  intro hlen
  obtain ⟨digits, hdigits, -⟩ := Option.bind_eq_some_iff.mp h
  rw [uuidDigits, if_neg (by omega), if_neg (by omega)] at hdigits
  cases hdigits

theorem fromStr_display (hU : U.Documented) (x : Id) : Id.fromStr U (x.display U) = some x := by
  obtain ⟨v, kind⟩ := x
  cases kind with
  | ulid => simp only [Id.fromStr, Id.display, parseUlid_toText hU]
  | uuid =>
      simp only [Id.fromStr, Id.display, parseUlid_of_canonicalUuid (canonical_formatUuid v),
        parseUuid_formatUuid, Option.map_some]

/-- The codec of identifiers. -/
def idCodec (hU : U.Documented) : IdCodec Id where
  parse := Id.fromStr U
  toString := Id.display U
  parse_toString := fromStr_display hU

/-- The codec with a crate that does what is known of it. -/
def crockfordIds : IdCodec Id := idCodec documented_crockfordCrate

/-- **A text is written back as it was read** exactly if it is canonical. -/
theorem display_eq_iff (hU : U.Documented) (h : Id.fromStr U s = some x) :
    x.display U = s ↔ CanonicalUlid s ∨ CanonicalUuid s := by
  constructor
  · rintro rfl
    obtain ⟨v, kind⟩ := x
    cases kind with
    | ulid => exact .inl (canonical_toText hU v)
    | uuid => exact .inr (canonical_formatUuid v)
  · rintro (hs | hs)
    · obtain ⟨v, hv, rfl⟩ := parseUlid_of_canonical hU hs
      rw [Id.fromStr, hv] at h
      cases h
      rfl
    · obtain ⟨v, hv, rfl⟩ := parseUuid_of_canonical hs
      rw [Id.fromStr, parseUlid_of_canonicalUuid hs, hv] at h
      cases h
      rfl

/-- **The codec of identifiers.**  An identifier that is written is read again, of its own kind, so no
two are written alike; a text that is read is written in a form that is read the same way; and no
text is both a ULID and a UUID. -/
theorem id_codec (hU : U.Documented) :
    (∀ x, Id.fromStr U (x.display U) = some x) ∧ Function.Injective (Id.display U) ∧
      (∀ s x, Id.fromStr U s = some x → Id.fromStr U (x.display U) = some x) ∧
      ∀ s, parseUlid U s = none ∨ parseUuid s = none := by
  refine ⟨fromStr_display hU, (idCodec hU).toString_injective, fun s x _ => fromStr_display hU x,
    fun s => ?_⟩
  cases hs : parseUuid s with
  | none => exact .inr rfl
  | some v => exact .inl (not_parseUlid_of_parseUuid hs)

theorem id_codec_crockford :
    Id.display crockfordCrate ⟨7, .uuid⟩ = "00000000-0000-0000-0000-000000000007" ∧
      Id.fromStr crockfordCrate (Id.display crockfordCrate ⟨7, .uuid⟩) = some ⟨7, .uuid⟩ ∧
      parseUlid crockfordCrate (Id.display crockfordCrate ⟨7, .uuid⟩) = none := by
  have hdisplay : Id.display crockfordCrate ⟨7, .uuid⟩ = "00000000-0000-0000-0000-000000000007" := by
    decide +kernel
  obtain ⟨hparse, -, -, hone⟩ := id_codec documented_crockfordCrate
  refine ⟨hdisplay, hparse _, (hone _).resolve_right fun hnone => ?_⟩
  rw [hdisplay] at hnone
  exact absurd hnone (by decide +kernel)

end Kanban.Ids
