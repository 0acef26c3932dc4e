/-
  LengthPrefix — fields of bytes, each preceded by its length as a big-endian
  `u32`.

  `encode_append_inj` is the whole of unique decodability: if two field lists
  of the same number of fields, each below 4 GiB, encode to the front of one
  byte string, then they are equal and so is what follows them.  With nothing
  behind, `encode` is injective (`encode_inj`), and no encoding is a proper
  prefix of another (`encode_of_isPrefix`).
-/
import Mathlib

namespace LengthPrefix

/-- The low 32 bits of `n`, big-endian (`(n as u32).to_be_bytes()`). -/
def u32be (n : ℕ) : List UInt8 :=
  let w := UInt32.ofNat n
  [(w >>> 24).toUInt8, (w >>> 16).toUInt8, (w >>> 8).toUInt8, w.toUInt8]

@[simp] theorem length_u32be (n : ℕ) : (u32be n).length = 4 := rfl

/-- The number whose big-endian digits are the bytes. -/
def ofBE (bs : List UInt8) : ℕ := bs.foldl (fun n b => n * 256 + b.toNat) 0

theorem ofBE_u32be (n : ℕ) : ofBE (u32be n) = n % 2 ^ 32 := by
  simp only [ofBE, u32be, List.foldl_cons, List.foldl_nil, UInt32.toNat_toUInt8,
    UInt32.toNat_shiftRight, UInt32.toNat_ofNat', Nat.shiftRight_eq_div_pow, UInt32.reduceToNat,
    Nat.reduceMod, Nat.reducePow]
  omega

theorem u32be_inj {m n : ℕ} (hm : m < 2 ^ 32) (hn : n < 2 ^ 32) (h : u32be m = u32be n) :
    m = n := by
  have := congrArg ofBE h
  rwa [ofBE_u32be, ofBE_u32be, Nat.mod_eq_of_lt hm, Nat.mod_eq_of_lt hn] at this

/-- One field behind its length. -/
def field (bs : List UInt8) : List UInt8 := u32be bs.length ++ bs

/-- The fields in order, each behind its length. -/
def encode (fs : List (List UInt8)) : List UInt8 := fs.flatMap field

@[simp] theorem encode_nil : encode [] = [] := rfl

@[simp] theorem encode_cons (f : List UInt8) (fs : List (List UInt8)) :
    encode (f :: fs) = field f ++ encode fs := rfl

/-- A field that fits its length is read off the front of a byte string in one way. -/
theorem field_append_inj {f g r r' : List UInt8} (hf : f.length < 2 ^ 32)
    (hg : g.length < 2 ^ 32) (h : field f ++ r = field g ++ r') : f = g ∧ r = r' := by
  simp only [field, List.append_assoc] at h
  obtain ⟨hlen, h⟩ := List.append_inj h (by simp)
  exact List.append_inj h (u32be_inj hf hg hlen)

/-- Unique decodability, with any bytes behind the fields. -/
theorem encode_append_inj {fs gs : List (List UInt8)} (hl : fs.length = gs.length)
    (hf : ∀ f ∈ fs, f.length < 2 ^ 32) (hg : ∀ g ∈ gs, g.length < 2 ^ 32)
    {r r' : List UInt8} (h : encode fs ++ r = encode gs ++ r') : fs = gs ∧ r = r' := by
  induction fs generalizing gs with
  | nil =>
    cases gs with
    | nil => exact ⟨rfl, h⟩
    | cons => simp at hl
  | cons f fs ih =>
    cases gs with
    | nil => simp at hl
    | cons g gs =>
      simp only [List.forall_mem_cons] at hf hg
      simp only [encode_cons, List.append_assoc] at h
      obtain ⟨rfl, hrest⟩ := field_append_inj hf.1 hg.1 h
      obtain ⟨rfl, rfl⟩ := ih (by simpa using hl) hf.2 hg.2 hrest
      exact ⟨rfl, rfl⟩

/-- The encodings of field lists of one length form a prefix code. -/
theorem encode_of_isPrefix {fs gs : List (List UInt8)} (hl : fs.length = gs.length)
    (hf : ∀ f ∈ fs, f.length < 2 ^ 32) (hg : ∀ g ∈ gs, g.length < 2 ^ 32)
    (h : encode fs <+: encode gs) : fs = gs := by
  obtain ⟨r, hr⟩ := h
  have hr' : encode fs ++ r = encode gs ++ [] := by rw [hr, List.append_nil]
  exact (encode_append_inj hl hf hg hr').1

end LengthPrefix
