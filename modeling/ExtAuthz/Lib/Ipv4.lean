/-
  Ipv4 — dotted-decimal addresses, as `std::net::Ipv4Addr` reads them: four
  octets of one to three digits, without leading zeros.
-/
import Mathlib

/-- An IPv4 address (`std::net::Ipv4Addr`). -/
structure Ipv4Addr where
  octets : Fin 4 → UInt8

namespace Ipv4Addr

/-- The number of an octet. -/
def readOctet (cs : List Char) : Option UInt8 :=
  if cs ≠ [] ∧ cs.length ≤ 3 ∧ cs.all Char.isDigit ∧ (cs.head? = some '0' → cs.length = 1) ∧
      Nat.ofDigitChars 10 cs 0 ≤ 255 then
    some (UInt8.ofNat (Nat.ofDigitChars 10 cs 0))
  else none

/-- The address that a text spells (`str::parse`). -/
def parse (s : String) : Option Ipv4Addr :=
  match s.toList.splitOn '.' with
  | [a, b, c, d] => do
    let a ← readOctet a
    let b ← readOctet b
    let c ← readOctet c
    let d ← readOctet d
    return ⟨![a, b, c, d]⟩
  | _ => none

/-- The address is in `127.0.0.0/8` (`is_loopback`). -/
def isLoopback (ip : Ipv4Addr) : Bool := ip.octets 0 == 127

theorem readOctet_isDigit {cs : List Char} {n : UInt8} (h : readOctet cs = some n) :
    ∀ c ∈ cs, c.isDigit = true := by
  unfold readOctet at h
  split at h
  · rename_i hc
    exact List.all_eq_true.1 hc.2.2.1
  · cases h

/-- An address is spelled with digits and dots. -/
theorem isDigit_or_dot_of_parse {s : String} {ip : Ipv4Addr} (h : parse s = some ip) :
    ∀ c ∈ s.toList, c.isDigit = true ∨ c = '.' := by
  unfold parse at h
  split at h
  · rename_i a b c d hs
    simp only [Option.bind_eq_bind, Option.bind_eq_some_iff] at h
    obtain ⟨_, ha, _, hb, _, hc, _, hd, -⟩ := h
    have ht : ['.'].intercalate (s.toList.splitOn '.') = s.toList := List.intercalate_splitOn '.'
    rw [hs] at ht
    intro x hx
    rw [← ht] at hx
    simp only [List.intercalate_cons_cons, List.intercalate_singleton, List.mem_append,
      List.mem_singleton] at hx
    have := readOctet_isDigit ha x
    have := readOctet_isDigit hb x
    have := readOctet_isDigit hc x
    have := readOctet_isDigit hd x
    tauto
  · cases h

end Ipv4Addr
