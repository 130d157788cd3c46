import Kanban.Lib.Numeral
import Kanban.Lib.Text
import Kanban.Services.Common
import Mathlib.Data.List.SplitLengths

/-!
# Identifiers

`id.rs`: an identifier is a number of 128 bits that remembers whether it is a ULID or a legacy UUID.
A ULID is written by the `ulid` crate and a UUID by hand; the parser tries the ULID first.

## Main definitions

* `Id` — an identifier.
* `UlidCrate` — what the program uses of the `ulid` crate.
* `parseUlid`, `parseUuid`, `formatUuid` — the two spellings.
* `Id.display`, `Id.fromStr` — `Display` and `FromStr`.
-/

namespace Kanban.Ids

open Numeral

/-- `str::len`: the number of bytes. -/
def byteLen (s : List Char) : ℕ := (s.map Char.utf8Size).sum

@[simp] theorem byteLen_append (s t : List Char) : byteLen (s ++ t) = byteLen s + byteLen t := by
  rw [byteLen, List.map_append, List.sum_append]
  rfl

@[simp] theorem byteLen_cons (c : Char) (s : List Char) :
    byteLen (c :: s) = c.utf8Size + byteLen s := by
  rw [byteLen, List.map_cons, List.sum_cons]
  rfl

inductive IdKind
  | ulid
  | uuid
  deriving DecidableEq, Repr

/-- An identifier. -/
structure Id where
  value : BitVec 128
  kind : IdKind
  deriving DecidableEq, Repr

/-! ## The digits -/

def crockfordSymbols : List Char := "0123456789ABCDEFGHJKMNPQRSTVWXYZ".toList

/-- The digits of a ULID; a reader takes both cases. -/
def crockford : Alphabet 32 where
  symbol d := crockfordSymbols.getD d '0'
  digit c := crockfordSymbols.idxOf? c.toUpper
  digit_lt _ _ h := (List.idxOf?_eq_some_iff.mp h).choose
  digit_symbol := by decide

def hexSymbols : List Char := "0123456789abcdef".toList

/-- The digits of a UUID; a reader takes both cases. -/
def hex : Alphabet 16 where
  symbol d := hexSymbols.getD d '0'
  digit c := hexSymbols.idxOf? c.toLower
  digit_lt _ _ h := (List.idxOf?_eq_some_iff.mp h).choose
  digit_symbol := by decide

theorem utf8Size_of_crockford {c : Char} {d : ℕ} (h : crockford.digit c = some d) : c.utf8Size = 1 := by
  have hmem : c.toUpper ∈ crockfordSymbols := by
    rw [← List.isSome_idxOf?]
    exact Option.isSome_of_eq_some h
  have hsmall : c.toUpper.val ≤ 127 := by
    have hall : ∀ c' ∈ crockfordSymbols, c'.val ≤ 127 := by decide
    exact hall _ hmem
  refine Char.utf8Size_eq_one_iff.mpr ?_
  unfold Char.toUpper at hsmall
  split at hsmall
  · rename_i hlower
    exact UInt32.le_trans hlower.2 (by decide)
  · exact hsmall

theorem utf8Size_of_hex {c : Char} {d : ℕ} (h : hex.digit c = some d) : c.utf8Size = 1 := by
  have hmem : c.toLower ∈ hexSymbols := by
    rw [← List.isSome_idxOf?]
    exact Option.isSome_of_eq_some h
  have hsmall : c.toLower.val ≤ 127 := by
    have hall : ∀ c' ∈ hexSymbols, c'.val ≤ 127 := by decide
    exact hall _ hmem
  refine Char.utf8Size_eq_one_iff.mpr ?_
  by_contra hbig
  have hascii : ¬ c.toNat < 128 := fun hlt => hbig (Nat.le_of_lt_succ hlt)
  rw [Text.toLower_of_not_ascii hascii] at hsmall
  exact hbig hsmall

/-- A text of one-byte characters. -/
theorem byteLen_eq_length {s : List Char} (h : ∀ c ∈ s, c.utf8Size = 1) : byteLen s = s.length := by
  induction s with
  | nil => rfl
  | cons c s ih =>
      obtain ⟨hc, hs⟩ := List.forall_mem_cons.mp h
      rw [byteLen_cons, hc, ih hs, List.length_cons, Nat.add_comm]

/-- The symbols of a numeral take a byte each. -/
theorem forall_utf8Size {base : ℕ} {A : Alphabet base}
    (hA : ∀ c d, A.digit c = some d → c.utf8Size = 1) {s : List Char} (hs : ∀ c ∈ s, A.Proper c) :
    ∀ c ∈ s, c.utf8Size = 1 := by
  intro c hc
  obtain ⟨d, hd, rfl⟩ := hs c hc
  exact hA _ d (A.digit_symbol d hd)

/-! ## ULIDs -/

/-- What the program uses of the `ulid` crate: `Display` and `FromStr` of a `Ulid`. -/
structure UlidCrate where
  toText : BitVec 128 → String
  fromText : String → Option (BitVec 128)

/-- What is known of the crate: 26 digits of base 32, the highest first; the bits that overflow are
lost. -/
structure UlidCrate.Documented (U : UlidCrate) : Prop where
  toText_eq : ∀ v, U.toText v = String.ofList (crockford.write 26 v.toNat)
  fromText_eq : ∀ s, U.fromText s = if s.toList.length = 26
    then (crockford.read s.toList).map (BitVec.ofNat 128) else none

/-- A crate that does what is known of it. -/
def crockfordCrate : UlidCrate where
  toText v := String.ofList (crockford.write 26 v.toNat)
  fromText s := if s.toList.length = 26 then (crockford.read s.toList).map (BitVec.ofNat 128) else none

theorem documented_crockfordCrate : crockfordCrate.Documented := ⟨fun _ => rfl, fun _ => rfl⟩

def parseUlid (U : UlidCrate) (s : String) : Option (BitVec 128) :=
  if byteLen s.toList ≠ 26 then none else U.fromText s

/-! ## UUIDs -/

def isAsciiHexdigit (c : Char) : Bool := c.isDigit || ('a' ≤ c && c ≤ 'f') || ('A' ≤ c && c ≤ 'F')

/-- `u128::from_str_radix(_, 16)` of a text of digits. -/
def fromStrRadix (s : List Char) : Option (BitVec 128) :=
  (hex.read s).bind fun n => if n < 2 ^ 128 then some (BitVec.ofNat 128 n) else none

/-- The digits of a UUID with its dashes, or without them. -/
def uuidDigits (s : List Char) : Option (List Char) :=
  if byteLen s = 36 then
    match s.splitOn '-' with
    | [p0, p1, p2, p3, p4] =>
        if byteLen p0 ≠ 8 ∨ byteLen p1 ≠ 4 ∨ byteLen p2 ≠ 4 ∨ byteLen p3 ≠ 4 ∨ byteLen p4 ≠ 12 then none
        else some (p0 ++ p1 ++ p2 ++ p3 ++ p4)
    | _ => none
  else if byteLen s = 32 then some s
  else none

def parseUuid (s : String) : Option (BitVec 128) :=
  (uuidDigits s.toList).bind fun digits =>
    if ¬ digits.all isAsciiHexdigit then none else fromStrRadix digits

/-- The slices `0..8`, `8..12`, `12..16`, `16..20` and `20..32` of the digits. -/
def uuidGroups : List ℕ := [8, 4, 4, 4, 12]

def formatUuid (value : BitVec 128) : String :=
  String.ofList (['-'].intercalate (uuidGroups.splitLengths (hex.write 32 value.toNat)))

/-! ## Identifiers -/

def Id.display (U : UlidCrate) (x : Id) : String :=
  match x.kind with
  | .ulid => U.toText x.value
  | .uuid => formatUuid x.value

def Id.fromStr (U : UlidCrate) (s : String) : Option Id :=
  match parseUlid U s with
  | some value => some ⟨value, .ulid⟩
  | none => (parseUuid s).map fun value => ⟨value, .uuid⟩

end Kanban.Ids
