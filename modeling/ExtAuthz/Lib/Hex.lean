/-
  Hex — two digits a byte, written in lowercase and read in either case (the
  `hex` crate).

  `decode_encode` and `encode_inj` are what the users of a digest's spelling
  rely on: a digest is read back from its text, and comparing texts is
  comparing digests.  The texts that are written, `Spells`, are one for each
  value (`spelled`).
-/
import Mathlib

namespace Hex

/-- The digit of `n < 16`, in lowercase. -/
def digit (n : ℕ) : Char := Nat.digitChar n

/-- The value of a digit of either case. -/
def value (c : Char) : Option ℕ := (List.range 16).find? fun n => digit n == c.toLower

/-- A byte makes two digits. -/
def encodeChars : List UInt8 → List Char
  | [] => []
  | b :: bs => digit (b.toNat / 16) :: digit (b.toNat % 16) :: encodeChars bs

/-- Two digits make a byte. -/
def decodeChars : List Char → Option (List UInt8)
  | [] => some []
  | [_] => none
  | c :: d :: cs => do
    let hi ← value c
    let lo ← value d
    let bs ← decodeChars cs
    return UInt8.ofNat (hi * 16 + lo) :: bs

/-- The lowercase text of some bytes (`hex::encode`). -/
def encode (bs : List UInt8) : String := String.ofList (encodeChars bs)

/-- The `n` bytes that a text of either case spells (`hex::decode_to_slice`). -/
def decodeToSlice (n : ℕ) (s : String) : Option (Vector UInt8 n) :=
  (decodeChars s.toList).bind fun bs =>
    if h : bs.length = n then some ⟨bs.toArray, by simpa using h⟩ else none

theorem value_digit_all : ∀ n < 16, value (digit n) = some n := by decide

theorem decodeChars_encodeChars (bs : List UInt8) : decodeChars (encodeChars bs) = some bs := by
  induction bs with
  | nil => rfl
  | cons b bs ih =>
    have hb := b.toNat_lt
    have hsum : b.toNat / 16 * 16 + b.toNat % 16 = b.toNat := by omega
    simp only [encodeChars, decodeChars, value_digit_all (b.toNat / 16) (by omega),
      value_digit_all (b.toNat % 16) (by omega), ih, Option.bind_eq_bind, Option.bind_some, hsum,
      UInt8.ofNat_toNat]
    rfl

theorem decode_encode {n : ℕ} (v : Vector UInt8 n) :
    decodeToSlice n (encode v.toList) = some v := by
  obtain ⟨a, ha⟩ := v
  simp [decodeToSlice, encode, decodeChars_encodeChars, ha]

theorem encode_inj {bs bs' : List UInt8} (h : encode bs = encode bs') : bs = bs' := by
  have := congrArg (decodeChars ∘ String.toList) h
  simpa [encode, decodeChars_encodeChars] using this

/-! ## The texts that are written -/

/-- The digits that are written. -/
def digits : List Char :=
  ['0', '1', '2', '3', '4', '5', '6', '7', '8', '9', 'a', 'b', 'c', 'd', 'e', 'f']

/-- The text of `n` bytes: two digits a byte, in lowercase. -/
structure Spells (n : ℕ) (s : String) : Prop where
  length : s.toList.length = 2 * n
  digits : ∀ c ∈ s.toList, c ∈ digits

instance (n : ℕ) (s : String) : Decidable (Spells n s) :=
  decidable_of_iff (s.toList.length = 2 * n ∧ ∀ c ∈ s.toList, c ∈ digits)
    ⟨fun h => ⟨h.1, h.2⟩, fun h => ⟨h.length, h.digits⟩⟩

theorem mem_digits_iff {c : Char} : c ∈ digits ↔ ∃ n < 16, digit n = c := by
  have h : digits = (List.range 16).map digit := by decide
  simp only [h, List.mem_map, List.mem_range]

theorem length_encodeChars (bs : List UInt8) : (encodeChars bs).length = 2 * bs.length := by
  induction bs with
  | nil => rfl
  | cons b bs ih =>
    rw [encodeChars, List.length_cons, List.length_cons, ih, List.length_cons]
    omega

theorem mem_digits_of_mem_encodeChars {bs : List UInt8} {c : Char} (h : c ∈ encodeChars bs) :
    c ∈ digits := by
  induction bs with
  | nil => cases h
  | cons b bs ih =>
    have hb := b.toNat_lt
    rw [encodeChars, List.mem_cons, List.mem_cons] at h
    rcases h with rfl | rfl | h
    · exact mem_digits_iff.2 ⟨_, by omega, rfl⟩
    · exact mem_digits_iff.2 ⟨_, by omega, rfl⟩
    · exact ih h

/-- Digits in pairs are the text of some bytes. -/
theorem exists_encodeChars : ∀ {n : ℕ} {cs : List Char}, cs.length = 2 * n →
    (∀ c ∈ cs, c ∈ digits) → ∃ bs : List UInt8, bs.length = n ∧ encodeChars bs = cs
  | 0, [], _, _ => ⟨[], rfl, rfl⟩
  | n + 1, c :: d :: cs, hl, h => by
    obtain ⟨hi, hhi, rfl⟩ := mem_digits_iff.1 (h c (by simp))
    obtain ⟨lo, hlo, rfl⟩ := mem_digits_iff.1 (h d (by simp))
    have hlen : cs.length = 2 * n := by
      simp only [List.length_cons] at hl
      omega
    obtain ⟨bs, hbs, rfl⟩ := exists_encodeChars hlen fun c hc => h c (by simp [hc])
    have hlt : hi * 16 + lo < 256 := by omega
    have hb : (UInt8.ofNat (hi * 16 + lo)).toNat = hi * 16 + lo := UInt8.toNat_ofNat_of_lt' hlt
    refine ⟨UInt8.ofNat (hi * 16 + lo) :: bs, by rw [List.length_cons, hbs], ?_⟩
    have h₁ : (hi * 16 + lo) / 16 = hi := by omega
    have h₂ : (hi * 16 + lo) % 16 = lo := by omega
    rw [encodeChars, hb, h₁, h₂]

theorem spells_encode {n : ℕ} (v : Vector UInt8 n) : Spells n (encode v.toList) := by
  constructor
  · rw [encode, String.toList_ofList, length_encodeChars, Vector.length_toList]
  · intro c hc
    rw [encode, String.toList_ofList] at hc
    exact mem_digits_of_mem_encodeChars hc

theorem spells_iff {n : ℕ} {s : String} :
    Spells n s ↔ ∃ v : Vector UInt8 n, encode v.toList = s := by
  constructor
  · rintro ⟨hl, hd⟩
    obtain ⟨bs, hbs, he⟩ := exists_encodeChars hl hd
    refine ⟨⟨bs.toArray, by simpa using hbs⟩, ?_⟩
    simp [encode, he]
  · rintro ⟨v, rfl⟩
    exact spells_encode v

/-- The bytes that a text spells. -/
def spelled (n : ℕ) : {s : String // Spells n s} ≃ Vector UInt8 n where
  toFun s := (decodeToSlice n s.1).get (by
    obtain ⟨v, hv⟩ := spells_iff.1 s.2
    rw [← hv, decode_encode]
    rfl)
  invFun v := ⟨encode v.toList, spells_encode v⟩
  left_inv s := by
    obtain ⟨s, hs⟩ := s
    obtain ⟨v, rfl⟩ := spells_iff.1 hs
    simp [decode_encode]
  right_inv v := by simp [decode_encode]

theorem spelled_eq_iff {n : ℕ} {s : {s : String // Spells n s}} {v : Vector UInt8 n} :
    spelled n s = v ↔ encode v.toList = s.1 := by
  rw [← Equiv.eq_symm_apply, Subtype.ext_iff]
  exact eq_comm

@[simp] theorem encode_spelled {n : ℕ} (s : {s : String // Spells n s}) :
    encode (spelled n s).toList = s.1 :=
  spelled_eq_iff.1 rfl

end Hex
