/-
  Base64Url — base64 over the URL-safe alphabet, without padding, and without
  stray bits in the last digit (the `URL_SAFE_NO_PAD` engine of the `base64`
  crate).

  Three bytes are four digits; one byte more is two digits, two bytes more are
  three.  A single digit more encodes nothing.  What can be read is what is
  written (`decode_eq_some`), so that some bytes have one spelling.
-/
import ExtAuthz.Lib.Text

namespace Base64Url

/-- The alphabet of RFC 4648 for URLs. -/
def alphabet : List Char :=
  "ABCDEFGHIJKLMNOPQRSTUVWXYZabcdefghijklmnopqrstuvwxyz0123456789-_".toList

/-- The digit of `n < 64`. -/
def digit (n : ℕ) : Char := alphabet.getD n 'A'

/-- The value of a digit. -/
def value (c : Char) : Option ℕ := (List.range 64).find? fun n => digit n == c

/-- Three bytes make four digits. -/
def encodeChars : List UInt8 → List Char
  | a :: b :: c :: bs =>
    digit (a.toNat / 4) :: digit (a.toNat % 4 * 16 + b.toNat / 16) ::
      digit (b.toNat % 16 * 4 + c.toNat / 64) :: digit (c.toNat % 64) :: encodeChars bs
  | [a, b] =>
    [digit (a.toNat / 4), digit (a.toNat % 4 * 16 + b.toNat / 16), digit (b.toNat % 16 * 4)]
  | [a] => [digit (a.toNat / 4), digit (a.toNat % 4 * 16)]
  | [] => []

/-- Four digits make three bytes. -/
def decodeChars : List Char → Option (List UInt8)
  | c₀ :: c₁ :: c₂ :: c₃ :: cs => do
    let v₀ ← value c₀
    let v₁ ← value c₁
    let v₂ ← value c₂
    let v₃ ← value c₃
    let bs ← decodeChars cs
    return UInt8.ofNat (v₀ * 4 + v₁ / 16) :: UInt8.ofNat (v₁ % 16 * 16 + v₂ / 4) ::
      UInt8.ofNat (v₂ % 4 * 64 + v₃) :: bs
  | [c₀, c₁, c₂] => do
    let v₀ ← value c₀
    let v₁ ← value c₁
    let v₂ ← value c₂
    -- the two low bits of the last digit encode nothing
    if v₂ % 4 = 0 then
      return [UInt8.ofNat (v₀ * 4 + v₁ / 16), UInt8.ofNat (v₁ % 16 * 16 + v₂ / 4)]
    else none
  | [c₀, c₁] => do
    let v₀ ← value c₀
    let v₁ ← value c₁
    -- the four low bits of the last digit encode nothing
    if v₁ % 16 = 0 then return [UInt8.ofNat (v₀ * 4 + v₁ / 16)] else none
  | [_] => none
  | [] => some []

/-- The text of some bytes. -/
def encode (bs : List UInt8) : String := String.ofList (encodeChars bs)

/-- The bytes that a text spells. -/
def decode (s : String) : Option (List UInt8) := decodeChars s.toList

theorem value_digit_all : ∀ n < 64, value (digit n) = some n := by decide +kernel

theorem value_digit {n : ℕ} (h : n < 64) : value (digit n) = some n := value_digit_all n h

theorem digit_ne_dot_all : ∀ n < 64, digit n ≠ '.' := by decide +kernel

theorem utf8Size_digit_all : ∀ n < 64, (digit n).utf8Size = 1 := by decide +kernel

theorem decodeChars_encodeChars : ∀ bs : List UInt8, decodeChars (encodeChars bs) = some bs
  | a :: b :: c :: bs => by
    have ha := a.toNat_lt
    have hb := b.toNat_lt
    have hc := c.toNat_lt
    have h₁ : a.toNat / 4 * 4 + (a.toNat % 4 * 16 + b.toNat / 16) / 16 = a.toNat := by omega
    have h₂ : (a.toNat % 4 * 16 + b.toNat / 16) % 16 * 16 +
        (b.toNat % 16 * 4 + c.toNat / 64) / 4 = b.toNat := by omega
    have h₃ : (b.toNat % 16 * 4 + c.toNat / 64) % 4 * 64 + c.toNat % 64 = c.toNat := by omega
    simp only [encodeChars, decodeChars, value_digit (show a.toNat / 4 < 64 by omega),
      value_digit (show a.toNat % 4 * 16 + b.toNat / 16 < 64 by omega),
      value_digit (show b.toNat % 16 * 4 + c.toNat / 64 < 64 by omega),
      value_digit (show c.toNat % 64 < 64 by omega), decodeChars_encodeChars bs,
      Option.bind_eq_bind, Option.bind_some, h₁, h₂, h₃, UInt8.ofNat_toNat]
    rfl
  | [a, b] => by
    have ha := a.toNat_lt
    have hb := b.toNat_lt
    have h₁ : a.toNat / 4 * 4 + (a.toNat % 4 * 16 + b.toNat / 16) / 16 = a.toNat := by omega
    have h₂ : (a.toNat % 4 * 16 + b.toNat / 16) % 16 * 16 + b.toNat % 16 * 4 / 4 = b.toNat := by
      omega
    have h₀ : b.toNat % 16 * 4 % 4 = 0 := by omega
    simp only [encodeChars, decodeChars, value_digit (show a.toNat / 4 < 64 by omega),
      value_digit (show a.toNat % 4 * 16 + b.toNat / 16 < 64 by omega),
      value_digit (show b.toNat % 16 * 4 < 64 by omega), Option.bind_eq_bind, Option.bind_some,
      h₀, h₁, h₂, UInt8.ofNat_toNat, if_true]
    rfl
  | [a] => by
    have ha := a.toNat_lt
    have h₁ : a.toNat / 4 * 4 + a.toNat % 4 * 16 / 16 = a.toNat := by omega
    have h₀ : a.toNat % 4 * 16 % 16 = 0 := by omega
    simp only [encodeChars, decodeChars, value_digit (show a.toNat / 4 < 64 by omega),
      value_digit (show a.toNat % 4 * 16 < 64 by omega), Option.bind_eq_bind, Option.bind_some,
      h₀, h₁, UInt8.ofNat_toNat, if_true]
    rfl
  | [] => rfl

theorem decode_encode (bs : List UInt8) : decode (encode bs) = some bs := by
  simp [decode, encode, decodeChars_encodeChars]

/-! ## The one spelling of some bytes -/

/-- The digit of a value is the character that has it. -/
theorem value_eq_some {c : Char} {n : ℕ} (h : value c = some n) : n < 64 ∧ digit n = c := by
  have hm := List.mem_of_find?_eq_some h
  have hd := List.find?_some h
  exact ⟨List.mem_range.1 hm, by simpa using hd⟩

/-- A text that can be read is the one that is written. -/
theorem encodeChars_of_decodeChars : ∀ {cs : List Char} {bs : List UInt8},
    decodeChars cs = some bs → encodeChars bs = cs
  | c₀ :: c₁ :: c₂ :: c₃ :: cs, bs, h => by
    simp only [decodeChars, Option.bind_eq_bind, Option.bind_eq_some_iff, Option.pure_def,
      Option.some.injEq] at h
    obtain ⟨v₀, h₀, v₁, h₁, v₂, h₂, v₃, h₃, bs', hbs, rfl⟩ := h
    obtain ⟨hv₀, rfl⟩ := value_eq_some h₀
    obtain ⟨hv₁, rfl⟩ := value_eq_some h₁
    obtain ⟨hv₂, rfl⟩ := value_eq_some h₂
    obtain ⟨hv₃, rfl⟩ := value_eq_some h₃
    have ha : (v₀ * 4 + v₁ / 16) % 256 / 4 = v₀ := by omega
    have hb : (v₀ * 4 + v₁ / 16) % 256 % 4 * 16 + (v₁ % 16 * 16 + v₂ / 4) % 256 / 16 = v₁ := by
      omega
    have hc : (v₁ % 16 * 16 + v₂ / 4) % 256 % 16 * 4 + (v₂ % 4 * 64 + v₃) % 256 / 64 = v₂ := by
      omega
    have hd : (v₂ % 4 * 64 + v₃) % 256 % 64 = v₃ := by omega
    simp only [encodeChars, UInt8.toNat_ofNat', Nat.reducePow, ha, hb, hc, hd,
      encodeChars_of_decodeChars hbs]
  | [c₀, c₁, c₂], bs, h => by
    simp only [decodeChars, Option.bind_eq_bind, Option.bind_eq_some_iff] at h
    obtain ⟨v₀, h₀, v₁, h₁, v₂, h₂, h⟩ := h
    split_ifs at h with hz
    cases h
    obtain ⟨hv₀, rfl⟩ := value_eq_some h₀
    obtain ⟨hv₁, rfl⟩ := value_eq_some h₁
    obtain ⟨hv₂, rfl⟩ := value_eq_some h₂
    have ha : (v₀ * 4 + v₁ / 16) % 256 / 4 = v₀ := by omega
    have hb : (v₀ * 4 + v₁ / 16) % 256 % 4 * 16 + (v₁ % 16 * 16 + v₂ / 4) % 256 / 16 = v₁ := by
      omega
    have hc : (v₁ % 16 * 16 + v₂ / 4) % 256 % 16 * 4 = v₂ := by omega
    simp only [encodeChars, UInt8.toNat_ofNat', Nat.reducePow, ha, hb, hc]
  | [c₀, c₁], bs, h => by
    simp only [decodeChars, Option.bind_eq_bind, Option.bind_eq_some_iff] at h
    obtain ⟨v₀, h₀, v₁, h₁, h⟩ := h
    split_ifs at h with hz
    cases h
    obtain ⟨hv₀, rfl⟩ := value_eq_some h₀
    obtain ⟨hv₁, rfl⟩ := value_eq_some h₁
    have ha : (v₀ * 4 + v₁ / 16) % 256 / 4 = v₀ := by omega
    have hb : (v₀ * 4 + v₁ / 16) % 256 % 4 * 16 = v₁ := by omega
    simp only [encodeChars, UInt8.toNat_ofNat', Nat.reducePow, ha, hb]
  | [_], _, h => by simp [decodeChars] at h
  | [], _, h => by
    cases h
    rfl

/-- Bytes have one spelling. -/
theorem decode_eq_some {s : String} {bs : List UInt8} : decode s = some bs ↔ s = encode bs := by
  constructor
  · intro h
    rw [encode, encodeChars_of_decodeChars h, String.ofList_toList]
  · rintro rfl
    exact decode_encode bs

theorem encode_inj {bs bs' : List UInt8} : encode bs = encode bs' ↔ bs = bs' := by
  constructor
  · intro h
    exact Option.some.inj ((decode_encode bs).symm.trans (decode_eq_some.2 h))
  · rintro rfl
    rfl

/-! ## Digits and length -/

theorem mem_encodeChars : ∀ {bs : List UInt8} {x : Char}, x ∈ encodeChars bs →
    ∃ n < 64, x = digit n
  | a :: b :: c :: bs, x, h => by
    have ha := a.toNat_lt
    have hb := b.toNat_lt
    have hc := c.toNat_lt
    simp only [encodeChars, List.mem_cons] at h
    rcases h with h | h | h | h | h
    · exact ⟨_, by omega, h⟩
    · exact ⟨_, by omega, h⟩
    · exact ⟨_, by omega, h⟩
    · exact ⟨_, by omega, h⟩
    · exact mem_encodeChars h
  | [a, b], x, h => by
    have ha := a.toNat_lt
    have hb := b.toNat_lt
    simp only [encodeChars, List.mem_cons, List.not_mem_nil, or_false] at h
    rcases h with h | h | h <;> exact ⟨_, by omega, h⟩
  | [a], x, h => by
    have ha := a.toNat_lt
    simp only [encodeChars, List.mem_cons, List.not_mem_nil, or_false] at h
    rcases h with h | h <;> exact ⟨_, by omega, h⟩

/-- A dot is not a digit, so that it can separate two texts. -/
theorem dot_notMem_encode (bs : List UInt8) : '.' ∉ (encode bs).toList := by
  intro h
  obtain ⟨n, hn, hd⟩ := mem_encodeChars (by simpa [encode] using h)
  exact digit_ne_dot_all n hn hd.symm

theorem length_encodeChars_le : ∀ bs : List UInt8, (encodeChars bs).length ≤ 2 * bs.length
  | a :: b :: c :: bs => by
    have := length_encodeChars_le bs
    simp only [encodeChars, List.length_cons]
    omega
  | [a, b] | [a] | [] => by simp [encodeChars]

/-- The text is at most twice as long as the bytes. -/
theorem size_encode_le (bs : List UInt8) : (encode bs).utf8ByteSize ≤ 2 * bs.length := by
  have h : (encodeChars bs).map Char.utf8Size = List.replicate (encodeChars bs).length 1 := by
    rw [List.eq_replicate_iff]
    refine ⟨List.length_map _, ?_⟩
    intro x hx
    obtain ⟨c, hc, rfl⟩ := List.mem_map.1 hx
    obtain ⟨n, hn, rfl⟩ := mem_encodeChars hc
    exact utf8Size_digit_all n hn
  rw [encode, Text.size_ofList, h, List.sum_replicate, smul_eq_mul, mul_one]
  exact length_encodeChars_le bs

end Base64Url
