/-
  JsonText — a reader for the JSON text of documents without floats.

  The reader takes bytes in UTF-8 with whitespace between the tokens, every
  escape of a string, at most 127 nested arrays and objects, and the integers of
  64 bits.

  `parse_render`: the reader gets back every document within these limits from
  its compact text.
-/
import ExtAuthz.Lib.Json

namespace Json

/-! ## The reader -/

/-- The whitespace of JSON. -/
def isWhitespace (c : Char) : Bool := c = ' ' || c = '\n' || c = '\t' || c = '\r'

/-- The text after its whitespace. -/
def skipWhitespace (cs : List Char) : List Char := cs.dropWhile isWhitespace

/-- The value of a hex digit, in either case. -/
def hexValue (c : Char) : Option ℕ :=
  if c.isDigit then some (c.toNat - 48)
  else if 'a' ≤ c ∧ c ≤ 'f' then some (c.toNat - 87)
  else if 'A' ≤ c ∧ c ≤ 'F' then some (c.toNat - 55)
  else none

/-- Four hexadecimal digits. -/
def hex4 : List Char → Option (ℕ × List Char)
  | a :: b :: c :: d :: r => do
    let a ← hexValue a
    let b ← hexValue b
    let c ← hexValue c
    let d ← hexValue d
    return (a * 4096 + b * 256 + c * 16 + d, r)
  | _ => none

/-- After `\u`: a code unit, or the first of a surrogate pair. -/
def unicodeEscape (cs : List Char) : Option (Char × List Char) := do
  let (n, r) ← hex4 cs
  if 0xdc00 ≤ n ∧ n ≤ 0xdfff then none
  else if 0xd800 ≤ n ∧ n ≤ 0xdbff then
    match r with
    | '\x5c' :: 'u' :: r => do
      let (m, r) ← hex4 r
      if 0xdc00 ≤ m ∧ m ≤ 0xdfff then
        return (Char.ofNat (0x10000 + (n - 0xd800) * 0x400 + (m - 0xdc00)), r)
      else none
    | _ => none
  else return (Char.ofNat n, r)

/-- After a backslash. -/
def escape : List Char → Option (Char × List Char)
  | '\x22' :: r => some ('\x22', r)
  | '\x5c' :: r => some ('\x5c', r)
  | '/' :: r => some ('/', r)
  | 'b' :: r => some ('\x08', r)
  | 'f' :: r => some ('\x0c', r)
  | 'n' :: r => some ('\n', r)
  | 'r' :: r => some ('\r', r)
  | 't' :: r => some ('\t', r)
  | 'u' :: r => unicodeEscape r
  | _ => none

/-- One character of a string literal. -/
def character : List Char → Option (Char × List Char)
  | [] => none
  | c :: r => if c = '\x5c' then escape r else if c.toNat < 0x20 then none else some (c, r)

/-- A string literal after its opening quote. -/
def literal : ℕ → List Char → Option (List Char × List Char)
  | 0, _ => none
  | fuel + 1, cs =>
    if cs.head? = some '\x22' then some ([], cs.tail)
    else do
      let (c, r) ← character cs
      let (s, r) ← literal fuel r
      return (c :: s, r)

/-- Digits without a leading zero, and not the first part of a float. -/
def natural (cs : List Char) : Option (ℕ × List Char) :=
  let ds := cs.takeWhile Char.isDigit
  let r := cs.dropWhile Char.isDigit
  if ds = [] ∨ (ds.head? = some '0' ∧ ds ≠ ['0']) ∨
      r.head? = some '.' ∨ r.head? = some 'e' ∨ r.head? = some 'E' then none
  else some (Nat.ofDigitChars 10 ds 0, r)

/-- An integer of 64 bits, signed or not. -/
def number (cs : List Char) : Option (Json × List Char) :=
  if cs.head? = some '-' then do
    let (n, r) ← natural cs.tail
    if n = 0 ∨ 9223372036854775808 < n then none else return (.num (-n), r)
  else do
    let (n, r) ← natural cs
    if 18446744073709551615 < n then none else return (.num n, r)

mutual

/-- A document, inside of fewer than `depth` arrays and objects. -/
def value : ℕ → ℕ → List Char → Option (Json × List Char)
  | 0, _, _ => none
  | fuel + 1, depth, cs =>
    match skipWhitespace cs with
    | [] => none
    | c :: r =>
      if c = 'n' then (r.dropPrefix? ['u', 'l', 'l']).map (.null, ·)
      else if c = 't' then (r.dropPrefix? ['r', 'u', 'e']).map (.bool true, ·)
      else if c = 'f' then (r.dropPrefix? ['a', 'l', 's', 'e']).map (.bool false, ·)
      else if c = '\x22' then (literal fuel r).map fun p => (.str (String.ofList p.1), p.2)
      else if c = '[' then
        if depth ≤ 1 then none
        else if (skipWhitespace r).head? = some ']' then some (.arr [], (skipWhitespace r).tail)
        else (elements fuel (depth - 1) r).map fun p => (.arr p.1, p.2)
      else if c = '\x7b' then
        if depth ≤ 1 then none
        else if (skipWhitespace r).head? = some '\x7d' then some (.obj [], (skipWhitespace r).tail)
        else (members fuel (depth - 1) r).map fun p => (.obj p.1, p.2)
      else number (c :: r)

/-- The elements of an array that is not empty, and its bracket. -/
def elements : ℕ → ℕ → List Char → Option (List Json × List Char)
  | 0, _, _ => none
  | fuel + 1, depth, cs => do
    let (v, r) ← value fuel depth cs
    match skipWhitespace r with
    | [] => none
    | c :: r =>
      if c = ',' then (elements fuel depth r).map fun p => (v :: p.1, p.2)
      else if c = ']' then some ([v], r)
      else none

/-- The members of an object that is not empty, and its brace. -/
def members : ℕ → ℕ → List Char → Option (List (String × Json) × List Char)
  | 0, _, _ => none
  | fuel + 1, depth, cs =>
    if (skipWhitespace cs).head? ≠ some '\x22' then none
    else do
      let (k, r) ← literal fuel (skipWhitespace cs).tail
      if (skipWhitespace r).head? ≠ some ':' then none
      else do
        let (v, r) ← value fuel depth (skipWhitespace r).tail
        match skipWhitespace r with
        | [] => none
        | c :: r =>
          if c = ',' then (members fuel depth r).map fun p => ((String.ofList k, v) :: p.1, p.2)
          else if c = '\x7d' then some ([(String.ofList k, v)], r)
          else none

end

/-- The document that a text spells. -/
def parseText (s : String) : Option Json :=
  match value (s.toList.length + 1) 128 s.toList with
  | some (j, r) => if skipWhitespace r = [] then some j else none
  | none => none

/-- The document that bytes spell. -/
def parse (bs : List UInt8) : Option Json := (String.fromUTF8? ⟨⟨bs⟩⟩).bind parseText

example : (parseText "[-17, \"\\ud83d\\ude00\", \x7b\"a\" : null\x7d]").map render =
    some "[-17,\"😀\",\x7b\"a\":null\x7d]" := by decide +kernel

/-! ## Strings -/

theorem hexValue_digitChar : ∀ n < 16, hexValue (Nat.digitChar n) = some n := by decide

/-- A written character is read back. -/
theorem character_escapeChar (c : Char) (r : List Char) :
    character ((escapeChar c).toList ++ r) = some (c, r) := by
  unfold escapeChar
  split_ifs with h₁ h₂ h₃ h₄ h₅ h₆ h₇ h₈
  all_goals first | (subst c; rfl) | skip
  · have hlo := hexValue_digitChar (c.toNat / 16) (by omega)
    have hhi := hexValue_digitChar (c.toNat % 16) (by omega)
    have hz : hexValue '0' = some 0 := rfl
    have hn : 0 * 4096 + 0 * 256 + c.toNat / 16 * 16 + c.toNat % 16 = c.toNat := by omega
    have hx : hex4 ('0' :: '0' :: (c.toNat / 16).digitChar :: (c.toNat % 16).digitChar :: r) =
        some (c.toNat, r) := by
      simp only [hex4, hlo, hhi, hz, Option.bind_eq_bind, Option.bind_some, hn, pure]
    have hl : ("\\u00" ++ String.ofList [(c.toNat / 16).digitChar, (c.toNat % 16).digitChar]).toList
        ++ r = '\x5c' :: 'u' :: '0' :: '0' :: (c.toNat / 16).digitChar ::
          (c.toNat % 16).digitChar :: r := by
      simp
    rw [hl, character, if_pos rfl, escape, unicodeEscape, hx]
    simp only [Option.bind_eq_bind, Option.bind_some]
    rw [if_neg (by omega), if_neg (by omega), Char.ofNat_toNat]
    rfl
  · simp [character, h₂, h₈]

/-- No written character starts with a quote. -/
theorem head?_escapeChar (c : Char) :
    ∃ d l, (escapeChar c).toList = d :: l ∧ d ≠ '\x22' := by
  unfold escapeChar
  split_ifs with h₁ h₂ h₃ h₄ h₅ h₆ h₇ h₈
  all_goals first | exact ⟨'\x5c', _, rfl, by decide⟩ | skip
  · exact ⟨'\x5c', _, by simp; rfl, by decide⟩
  · exact ⟨c, [], by simp, h₁⟩

theorem literal_escape {fuel : ℕ} {cs : List Char} (hf : cs.length < fuel) (r : List Char) :
    literal fuel (cs.flatMap (fun c => (escapeChar c).toList) ++ '\x22' :: r) = some (cs, r) := by
  induction cs generalizing fuel with
  | nil =>
    obtain ⟨fuel, rfl⟩ := Nat.exists_eq_succ_of_ne_zero (by omega : fuel ≠ 0)
    simp [literal]
  | cons c cs ih =>
    obtain ⟨fuel, rfl⟩ := Nat.exists_eq_succ_of_ne_zero (by omega : fuel ≠ 0)
    rw [List.length_cons] at hf
    obtain ⟨d, l, hd, hne⟩ := head?_escapeChar c
    have hh : ((c :: cs).flatMap (fun c => (escapeChar c).toList) ++ '\x22' :: r).head? ≠
        some '\x22' := by
      simp [hd, hne]
    rw [literal, if_neg hh, List.flatMap_cons, List.append_assoc, character_escapeChar]
    simp only [Option.bind_eq_bind, Option.bind_some]
    rw [ih (by omega)]
    rfl

/-! ## Numbers -/

/-- What may follow a number. -/
def Stops (r : List Char) : Prop :=
  ∀ c, r.head? = some c → c.isDigit = false ∧ c ≠ '.' ∧ c ≠ 'e' ∧ c ≠ 'E'

theorem stops_cons {c : Char} (h : c = ',' ∨ c = ']' ∨ c = '\x7d') (r : List Char) :
    Stops (c :: r) := by
  rintro d hd
  cases hd
  rcases h with rfl | rfl | rfl <;> decide

theorem stops_nil : Stops [] := by simp [Stops]

/-- Only zero is written with a leading zero. -/
theorem head?_toDigits {n : ℕ} (hn : n ≠ 0) : (Nat.toDigits 10 n).head? ≠ some '0' := by
  have hd : ∀ n < 10, n ≠ 0 → n.digitChar ≠ '0' := by decide
  induction n using Nat.strong_induction_on with
  | _ n ih =>
    by_cases h : n < 10
    · rw [Nat.toDigits_of_lt_base h, List.head?_cons, ne_eq, Option.some.injEq]
      exact hd n h hn
    · rw [Nat.toDigits_of_base_le (by decide) (by omega), List.head?_append_of_ne_nil _
        Nat.toDigits_ne_nil]
      exact ih (n / 10) (by omega) (by omega)

theorem span_toDigits (n : ℕ) {r : List Char} (hr : Stops r) :
    (Nat.toDigits 10 n ++ r).takeWhile Char.isDigit = Nat.toDigits 10 n ∧
      (Nat.toDigits 10 n ++ r).dropWhile Char.isDigit = r := by
  have hall : ∀ c ∈ Nat.toDigits 10 n, c.isDigit = true := fun c hc =>
    Nat.isDigit_of_mem_toDigits (by decide) (by decide) hc
  rw [List.takeWhile_append_of_pos hall, List.dropWhile_append_of_pos hall]
  cases r with
  | nil => simp
  | cons c r => simp [(hr c rfl).1]

theorem natural_toDigits (n : ℕ) {r : List Char} (hr : Stops r) :
    natural (Nat.toDigits 10 n ++ r) = some (n, r) := by
  obtain ⟨ht, hd⟩ := span_toDigits n hr
  have hfloat : ¬ (r.head? = some '.' ∨ r.head? = some 'e' ∨ r.head? = some 'E') := by
    rintro (h | h | h)
    · exact (hr _ h).2.1 rfl
    · exact (hr _ h).2.2.1 rfl
    · exact (hr _ h).2.2.2 rfl
  have hzero : ¬ ((Nat.toDigits 10 n).head? = some '0' ∧ Nat.toDigits 10 n ≠ ['0']) := by
    rintro ⟨h, hne⟩
    by_cases hn : n = 0
    · exact hne (hn ▸ Nat.toDigits_zero 10)
    · exact head?_toDigits hn h
  simp only [natural, ht, hd]
  rw [if_neg (by simp only [Nat.toDigits_ne_nil, false_or]; tauto), Nat.ofDigitChars_ten_toDigits]

theorem head_toDigits (n : ℕ) : ∃ c l, Nat.toDigits 10 n = c :: l ∧ c.isDigit = true := by
  obtain ⟨c, l, h⟩ := List.exists_cons_of_ne_nil (Nat.toDigits_ne_nil (n := n) (b := 10))
  have hc : c ∈ Nat.toDigits 10 n := h ▸ List.mem_cons_self
  exact ⟨c, l, h, Nat.isDigit_of_mem_toDigits (by decide) (by decide) hc⟩

/-- The first character of a number. -/
theorem head_toString (n : ℤ) :
    ∃ c l, (toString n).toList = c :: l ∧ (c = '-' ∨ c.isDigit = true) := by
  rw [Int.toString_eq_repr, Int.repr_eq_if]
  split
  · obtain ⟨c, l, hc, hd⟩ := head_toDigits n.toNat
    exact ⟨c, l, by rw [Nat.toList_repr, hc], .inr hd⟩
  · exact ⟨'-', _, by simp; rfl, .inl rfl⟩

theorem isWhitespace_of_isDigit {c : Char} (h : c.isDigit = true) : isWhitespace c = false := by
  by_contra hw
  simp only [isWhitespace, Bool.not_eq_false, Bool.or_eq_true, decide_eq_true_eq] at hw
  rcases hw with ((rfl | rfl) | rfl) | rfl <;> cases h

theorem number_toString {n : ℤ} (hn : InRange n) {r : List Char} (hr : Stops r) :
    number ((toString n).toList ++ r) = some (.num n, r) := by
  obtain ⟨hlo, hhi⟩ := hn
  rw [Int.toString_eq_repr, Int.repr_eq_if]
  by_cases h : 0 ≤ n
  · obtain ⟨c, l, hc, hd⟩ := head_toDigits n.toNat
    have hne : (n.toNat.repr.toList ++ r).head? ≠ some '-' := by
      rw [Nat.toList_repr, hc, List.cons_append, List.head?_cons]
      rintro ⟨⟩
      cases hd
    rw [if_pos h, number, if_neg hne, Nat.toList_repr, natural_toDigits _ hr]
    simp only [Option.bind_eq_bind, Option.bind_some]
    rw [if_neg (by omega), Int.toNat_of_nonneg h]
    rfl
  · have hl : ("-" ++ (-n).toNat.repr).toList ++ r = '-' :: (Nat.toDigits 10 (-n).toNat ++ r) := by
      simp
    rw [if_neg h, hl, number, List.head?_cons, if_pos rfl, List.tail_cons, natural_toDigits _ hr]
    simp only [Option.bind_eq_bind, Option.bind_some]
    rw [if_neg (by omega), Int.toNat_of_nonneg (by omega), neg_neg]
    rfl

/-! ## Documents -/

mutual

/-- A document within the limits of the reader: fewer than `depth` nested arrays
    and objects, and integers of 64 bits. -/
def Plain : ℕ → Json → Prop
  | _, .null | _, .bool _ | _, .str _ => True
  | _, .num n => InRange n
  | _, .float _ => False
  | depth, .arr xs => 1 < depth ∧ PlainList (depth - 1) xs
  | depth, .obj fs => 1 < depth ∧ PlainFields (depth - 1) fs

/-- `Plain` of the elements of an array. -/
def PlainList : ℕ → List Json → Prop
  | _, [] => True
  | depth, x :: xs => x.Plain depth ∧ PlainList depth xs

/-- `Plain` of the members of an object. -/
def PlainFields : ℕ → List (String × Json) → Prop
  | _, [] => True
  | depth, (_, v) :: fs => v.Plain depth ∧ PlainFields depth fs

end

theorem plainFields_present {depth : ℕ} : ∀ {fs : List (String × Option Json)},
    (∀ f ∈ fs, ∀ v ∈ f.2, v.Plain depth) → PlainFields depth (present fs)
  | [], _ => trivial
  | (_, some _) :: _, h => by
    rw [List.forall_mem_cons] at h
    exact ⟨h.1 _ rfl, plainFields_present h.2⟩
  | (_, none) :: _, h => by
    rw [List.forall_mem_cons] at h
    rw [present]
    exact plainFields_present h.2

/-- The fields of a struct may be nested one level less. -/
theorem plain_ofFields {depth : ℕ} {fs : List (String × Option Json)}
    (h : ∀ f ∈ fs, ∀ v ∈ f.2, v.Plain (depth + 1)) : (ofFields fs).Plain (depth + 2) :=
  ⟨by omega, plainFields_present h⟩

theorem toList_quote (s : String) :
    (quote s).toList =
      '\x22' :: (s.toList.flatMap (fun c => (escapeChar c).toList) ++ ['\x22']) := by
  simp [quote]

/-- A text starts with something else than whitespace, and it does not close an
    array or an object. -/
theorem head_render {depth : ℕ} {j : Json} (h : j.Plain depth) : ∃ c l,
    j.render.toList = c :: l ∧ isWhitespace c = false ∧ c ≠ ']' ∧ c ≠ '\x7d' := by
  cases j with
  | null => exact ⟨'n', _, rfl, by decide⟩
  | bool b => cases b <;> exact ⟨_, _, rfl, by decide⟩
  | num n =>
    obtain ⟨c, l, hl, rfl | hd⟩ := head_toString n
    · exact ⟨'-', l, hl, by decide⟩
    · refine ⟨c, l, hl, isWhitespace_of_isDigit hd, ?_, ?_⟩
      · rintro rfl; cases hd
      · rintro rfl; cases hd
  | float t => exact h.elim
  | str s => exact ⟨'\x22', _, toList_quote s, by decide⟩
  | arr xs => exact ⟨'[', _, by simp [render]; rfl, by decide⟩
  | obj fs => exact ⟨'\x7b', _, by simp [render]; rfl, by decide⟩

theorem skipWhitespace_cons {c : Char} (h : isWhitespace c = false) (l : List Char) :
    skipWhitespace (c :: l) = c :: l := by
  simp [skipWhitespace, h]

theorem dropPrefix?_append (p r : List Char) : (p ++ r).dropPrefix? p = some r := by
  rw [List.dropPrefix?_eq_some_iff]
  exact ⟨p, rfl, by simp⟩

section
variable {fuel depth : ℕ} {r : List Char}

theorem value_null : value (fuel + 1) depth (Json.null.render.toList ++ r) = some (.null, r) := by
  have hl : Json.null.render.toList ++ r = 'n' :: (['u', 'l', 'l'] ++ r) := by simp [render]
  rw [hl, value, skipWhitespace_cons (by decide)]
  simp only [if_true, dropPrefix?_append, Option.map_some]

theorem value_bool (b : Bool) :
    value (fuel + 1) depth ((Json.bool b).render.toList ++ r) = some (.bool b, r) := by
  cases b with
  | true =>
    have hl : (Json.bool true).render.toList ++ r = 't' :: (['r', 'u', 'e'] ++ r) := by
      simp [render]
    rw [hl, value, skipWhitespace_cons (by decide)]
    simpa using dropPrefix?_append ['r', 'u', 'e'] r
  | false =>
    have hl : (Json.bool false).render.toList ++ r = 'f' :: (['a', 'l', 's', 'e'] ++ r) := by
      simp [render]
    rw [hl, value, skipWhitespace_cons (by decide)]
    simpa using dropPrefix?_append ['a', 'l', 's', 'e'] r

theorem value_num {n : ℤ} (hn : InRange n) (hr : Stops r) :
    value (fuel + 1) depth ((Json.num n).render.toList ++ r) = some (.num n, r) := by
  have hnum := number_toString hn hr
  obtain ⟨c, l, hl, hc⟩ := head_toString n
  have hw : isWhitespace c = false := by
    rcases hc with rfl | hd
    · rfl
    · exact isWhitespace_of_isDigit hd
  have hne (d : Char) (h : d ≠ '-' ∧ d.isDigit = false) : c ≠ d := by
    rintro rfl
    rcases hc with rfl | hd
    · exact h.1 rfl
    · rw [h.2] at hd
      cases hd
  rw [render, hl, List.cons_append, value, skipWhitespace_cons hw]
  simp only [hne 'n' (by decide), hne 't' (by decide), hne 'f' (by decide),
    hne '\x22' (by decide), hne '[' (by decide), hne '\x7b' (by decide), if_false]
  rw [← List.cons_append, ← hl, hnum]

theorem length_quote (s : String) : s.toList.length + 2 ≤ (quote s).toList.length := by
  have h (l : List Char) : l.length ≤ (l.flatMap fun c => (escapeChar c).toList).length := by
    induction l with
    | nil => simp
    | cons c l ih =>
      obtain ⟨d, l', hd, -⟩ := head?_escapeChar c
      simp only [List.flatMap_cons, List.length_append, List.length_cons, hd]
      omega
  rw [toList_quote]
  simpa using h s.toList

theorem literal_quote {s : String} (hf : (quote s).toList.length ≤ fuel + 1) :
    literal fuel (((quote s).toList ++ r).tail) = some (s.toList, r) := by
  have := length_quote s
  rw [toList_quote, List.cons_append, List.tail_cons, List.append_assoc, List.singleton_append]
  exact literal_escape (by omega) r

theorem value_str {s : String} (hf : (quote s).toList.length ≤ fuel + 1) :
    value (fuel + 1) depth ((Json.str s).render.toList ++ r) = some (.str s, r) := by
  have hlit := literal_quote (r := r) hf
  rw [toList_quote, List.cons_append, List.tail_cons] at hlit
  rw [render, toList_quote, List.cons_append, value, skipWhitespace_cons (by decide)]
  simp only [hlit, Option.map_some, String.ofList_toList]
  simp

theorem value_arr_nil (hd : 1 < depth) :
    value (fuel + 1) depth ((Json.arr []).render.toList ++ r) = some (.arr [], r) := by
  have hl : (Json.arr []).render.toList ++ r = '[' :: ']' :: r := by
    simp [render, renderList, commas]
  rw [hl, value, skipWhitespace_cons (by decide)]
  simp [skipWhitespace_cons (show isWhitespace ']' = false from rfl), Nat.not_le.2 hd]

theorem value_obj_nil (hd : 1 < depth) :
    value (fuel + 1) depth ((Json.obj []).render.toList ++ r) = some (.obj [], r) := by
  have hl : (Json.obj []).render.toList ++ r = '\x7b' :: '\x7d' :: r := by
    simp [render, renderFields, commas]
  rw [hl, value, skipWhitespace_cons (by decide)]
  simp [skipWhitespace_cons (show isWhitespace '\x7d' = false from rfl), Nat.not_le.2 hd]

/-- An array that is not empty is its elements. -/
theorem value_arr {c : Char} {l : List Char} {xs : List Json} (hd : 1 < depth)
    (hc : isWhitespace c = false) (hne : c ≠ ']')
    (h : elements fuel (depth - 1) (c :: l) = some (xs, r)) :
    value (fuel + 1) depth ('[' :: c :: l) = some (.arr xs, r) := by
  rw [value, skipWhitespace_cons (by decide)]
  simp [skipWhitespace_cons hc, Nat.not_le.2 hd, hne, h]

/-- An object that is not empty is its members. -/
theorem value_obj {l : List Char} {fs : List (String × Json)} (hd : 1 < depth)
    (h : members fuel (depth - 1) ('\x22' :: l) = some (fs, r)) :
    value (fuel + 1) depth ('\x7b' :: '\x22' :: l) = some (.obj fs, r) := by
  rw [value, skipWhitespace_cons (by decide)]
  simp [skipWhitespace_cons (show isWhitespace '\x22' = false from rfl), Nat.not_le.2 hd, h]

theorem elements_last {v : Json} {cs : List Char}
    (h : value fuel depth cs = some (v, ']' :: r)) :
    elements (fuel + 1) depth cs = some ([v], r) := by
  simp [elements, h, skipWhitespace_cons (show isWhitespace ']' = false from rfl)]

theorem elements_more {v : Json} {vs : List Json} {cs l : List Char}
    (h : value fuel depth cs = some (v, ',' :: l)) (hs : elements fuel depth l = some (vs, r)) :
    elements (fuel + 1) depth cs = some (v :: vs, r) := by
  simp [elements, h, hs, skipWhitespace_cons (show isWhitespace ',' = false from rfl)]

/-- A member, up to what follows it. -/
theorem members_key {k : String} {v : Json} {l : List Char}
    (hk : (quote k).toList.length ≤ fuel + 1)
    (hv : value fuel depth (v.render.toList ++ l) = some (v, l)) :
    members (fuel + 1) depth ((quote k ++ ":" ++ v.render).toList ++ l) =
      match skipWhitespace l with
      | [] => none
      | c :: r =>
        if c = ',' then (members fuel depth r).map fun p => ((k, v) :: p.1, p.2)
        else if c = '\x7d' then some ([(k, v)], r)
        else none := by
  have hl : (quote k ++ ":" ++ v.render).toList ++ l =
      (quote k).toList ++ ':' :: (v.render.toList ++ l) := by
    simp
  have hw : skipWhitespace ((quote k).toList ++ ':' :: (v.render.toList ++ l)) =
      (quote k).toList ++ ':' :: (v.render.toList ++ l) := by
    rw [toList_quote, List.cons_append, skipWhitespace_cons (by decide)]
  have hh : ((quote k).toList ++ ':' :: (v.render.toList ++ l)).head? = some '\x22' := by
    rw [toList_quote]
    rfl
  rw [hl, members, hw, hh, literal_quote hk]
  simp [skipWhitespace_cons (show isWhitespace ':' = false from rfl), hv]

theorem members_last {k : String} {v : Json} (hk : (quote k).toList.length ≤ fuel + 1)
    (hv : value fuel depth (v.render.toList ++ '\x7d' :: r) = some (v, '\x7d' :: r)) :
    members (fuel + 1) depth ((quote k ++ ":" ++ v.render).toList ++ '\x7d' :: r) =
      some ([(k, v)], r) := by
  rw [members_key hk hv, skipWhitespace_cons (by decide)]
  simp

theorem members_more {k : String} {v : Json} {fs : List (String × Json)} {l : List Char}
    (hk : (quote k).toList.length ≤ fuel + 1)
    (hv : value fuel depth (v.render.toList ++ ',' :: l) = some (v, ',' :: l))
    (hs : members fuel depth l = some (fs, r)) :
    members (fuel + 1) depth ((quote k ++ ":" ++ v.render).toList ++ ',' :: l) =
      some ((k, v) :: fs, r) := by
  rw [members_key hk hv, skipWhitespace_cons (by decide)]
  simp [hs]

end

/-- The pieces start with the first of them. -/
theorem commas_cons (s : String) (l : List String) :
    ∃ t, (commas (s :: l)).toList = s.toList ++ t := by
  cases l with
  | nil => exact ⟨[], by simp [commas]⟩
  | cons t l => exact ⟨',' :: (commas (t :: l)).toList, by simp [commas]⟩

theorem length_render_pos {depth : ℕ} {j : Json} (h : j.Plain depth) :
    0 < j.render.toList.length := by
  obtain ⟨c, l, hl, -⟩ := head_render h
  simp [hl]

/-- What the induction hypothesis says about a document. -/
def Reads (j : Json) : Prop :=
  ∀ {fuel depth : ℕ} {r : List Char}, j.Plain depth → Stops r → j.render.toList.length ≤ fuel →
    value fuel depth (j.render.toList ++ r) = some (j, r)

theorem elements_render {xs : List Json} {fuel depth : ℕ} {r : List Char} (hne : xs ≠ [])
    (hx : ∀ x ∈ xs, Reads x) (hp : PlainList depth xs)
    (hf : (commas (renderList xs)).toList.length < fuel) :
    elements fuel depth ((commas (renderList xs)).toList ++ ']' :: r) = some (xs, r) := by
  induction xs generalizing fuel with
  | nil => exact absurd rfl hne
  | cons x xs ih =>
    obtain ⟨fuel, rfl⟩ := Nat.exists_eq_succ_of_ne_zero (Nat.ne_zero_of_lt hf)
    rw [List.forall_mem_cons] at hx
    cases xs with
    | nil =>
      simp only [renderList, commas] at hf ⊢
      exact elements_last (hx.1 hp.1 (stops_cons (by simp) r) (by omega))
    | cons y ys =>
      have hl : (commas (renderList (x :: y :: ys))).toList =
          x.render.toList ++ ',' :: (commas (renderList (y :: ys))).toList := by
        simp [renderList, commas]
      rw [hl, List.length_append, List.length_cons] at hf
      rw [hl, List.append_assoc, List.cons_append]
      exact elements_more (hx.1 hp.1 (stops_cons (by simp) _) (by omega))
        (ih (List.cons_ne_nil y ys) hx.2 hp.2 (by omega))

theorem members_render {fs : List (String × Json)} {fuel depth : ℕ} {r : List Char}
    (hne : fs ≠ []) (hv : ∀ f ∈ fs, Reads f.2) (hp : PlainFields depth fs)
    (hf : (commas (renderFields fs)).toList.length < fuel) :
    members fuel depth ((commas (renderFields fs)).toList ++ '\x7d' :: r) = some (fs, r) := by
  induction fs generalizing fuel with
  | nil => exact absurd rfl hne
  | cons f fs ih =>
    obtain ⟨k, v⟩ := f
    obtain ⟨fuel, rfl⟩ := Nat.exists_eq_succ_of_ne_zero (Nat.ne_zero_of_lt hf)
    rw [List.forall_mem_cons] at hv
    have hr : Reads v := hv.1
    cases fs with
    | nil =>
      have hl : commas (renderFields [(k, v)]) = quote k ++ ":" ++ v.render := rfl
      rw [hl] at hf ⊢
      have hlen : (quote k).toList.length + v.render.toList.length < fuel := by
        simp only [String.toList_append, List.length_append] at hf
        have : ":".toList.length = 1 := rfl
        omega
      exact members_last (by omega) (hr hp.1 (stops_cons (by simp) r) (by omega))
    | cons g gs =>
      have hl : (commas (renderFields ((k, v) :: g :: gs))).toList =
          (quote k ++ ":" ++ v.render).toList ++
            ',' :: (commas (renderFields (g :: gs))).toList := by
        simp [renderFields, commas]
      rw [hl, List.length_append, List.length_cons] at hf
      rw [hl, List.append_assoc, List.cons_append]
      have hlen : (quote k).toList.length + v.render.toList.length < fuel := by
        simp only [String.toList_append, List.length_append] at hf
        omega
      exact members_more (by omega) (hr hp.1 (stops_cons (by simp) _) (by omega))
        (ih (List.cons_ne_nil g gs) hv.2 hp.2 (by omega))

theorem reads_arr {xs : List Json} (hx : ∀ x ∈ xs, Reads x) : Reads (.arr xs) := by
  intro fuel depth r hp _ hf
  obtain ⟨fuel, rfl⟩ := Nat.exists_eq_succ_of_ne_zero ((length_render_pos hp).trans_le hf).ne'
  cases xs with
  | nil => exact value_arr_nil hp.1
  | cons x xs =>
    have hl : (Json.arr (x :: xs)).render.toList =
        '[' :: ((commas (renderList (x :: xs))).toList ++ [']']) := by
      simp [render]
    rw [hl, List.length_cons, List.length_append, List.length_singleton] at hf
    have he := elements_render (r := r) (List.cons_ne_nil _ _) hx hp.2 (show _ < fuel by omega)
    obtain ⟨c, l, hc, hw, hne, -⟩ := head_render hp.2.1
    obtain ⟨t, ht⟩ := commas_cons x.render (renderList xs)
    rw [renderList, ht, hc, List.cons_append, List.cons_append] at he
    rw [hl, renderList, ht, hc, List.cons_append, List.cons_append]
    simpa using value_arr hp.1 hw hne he

theorem reads_obj {fs : List (String × Json)} (hv : ∀ f ∈ fs, Reads f.2) : Reads (.obj fs) := by
  intro fuel depth r hp _ hf
  obtain ⟨fuel, rfl⟩ := Nat.exists_eq_succ_of_ne_zero ((length_render_pos hp).trans_le hf).ne'
  cases fs with
  | nil => exact value_obj_nil hp.1
  | cons f fs =>
    obtain ⟨k, v⟩ := f
    have hl : (Json.obj ((k, v) :: fs)).render.toList =
        '\x7b' :: ((commas (renderFields ((k, v) :: fs))).toList ++ ['\x7d']) := by
      simp [render]
    rw [hl, List.length_cons, List.length_append, List.length_singleton] at hf
    have hm := members_render (r := r) (List.cons_ne_nil _ _) hv hp.2 (show _ < fuel by omega)
    obtain ⟨t, ht⟩ := commas_cons (quote k ++ ":" ++ v.render) (renderFields fs)
    rw [renderFields, ht, String.toList_append, String.toList_append, toList_quote,
      List.cons_append, List.cons_append, List.cons_append, List.cons_append] at hm
    rw [hl, renderFields, ht, String.toList_append, String.toList_append, toList_quote,
      List.cons_append, List.cons_append, List.cons_append, List.cons_append]
    simpa using value_obj hp.1 hm

theorem reads_scalar {j : Json} (h : ∀ {fuel depth : ℕ} {r : List Char}, j.Plain depth →
    Stops r → j.render.toList.length ≤ fuel + 1 →
    value (fuel + 1) depth (j.render.toList ++ r) = some (j, r)) : Reads j := by
  intro fuel depth r hp hr hf
  obtain ⟨fuel, rfl⟩ := Nat.exists_eq_succ_of_ne_zero ((length_render_pos hp).trans_le hf).ne'
  exact h hp hr hf

mutual

/-- A text is read back, whatever follows it. -/
theorem reads : ∀ j : Json, Reads j
  | .null => reads_scalar fun _ _ _ => value_null
  | .bool b => reads_scalar fun _ _ _ => value_bool b
  | .num _ => reads_scalar fun hp hr _ => value_num hp hr
  | .float _ => fun hp => hp.elim
  | .str _ => reads_scalar fun _ _ hf => value_str hf
  | .arr xs => reads_arr (readsList xs)
  | .obj fs => reads_obj (readsFields fs)

theorem readsList : ∀ xs : List Json, ∀ x ∈ xs, Reads x
  | [] => by simp
  | x :: xs => List.forall_mem_cons.2 ⟨reads x, readsList xs⟩

theorem readsFields : ∀ fs : List (String × Json), ∀ f ∈ fs, Reads f.2
  | [] => by simp
  | (_, v) :: fs => List.forall_mem_cons.2 ⟨reads v, readsFields fs⟩

end

/-- **The text layer is lossless**: a document within the limits is read back
    from its compact text. -/
theorem parse_render {j : Json} (h : j.Plain 128) : parse (Text.bytes j.render) = some j := by
  have hu : String.fromUTF8? j.render.toByteArray = some j.render := by
    simp only [String.fromUTF8?, Option.dite_none_right_eq_some]
    exact ⟨j.render.isValidUTF8, rfl⟩
  have hv : value (j.render.toList.length + 1) 128 j.render.toList = some (j, []) := by
    rw [← List.append_nil j.render.toList]
    exact reads j h stops_nil (by simp)
  have hp : parse (Text.bytes j.render) = (String.fromUTF8? j.render.toByteArray).bind parseText :=
    rfl
  rw [hp, hu, Option.bind_some, parseText, hv]
  rfl

/-! ## Documents within the limits -/

theorem plainList_iff {depth : ℕ} : ∀ {xs : List Json},
    PlainList depth xs ↔ ∀ x ∈ xs, x.Plain depth
  | [] => by simp [PlainList]
  | x :: xs => by rw [PlainList, plainList_iff, List.forall_mem_cons]

theorem plainFields_iff {depth : ℕ} : ∀ {fs : List (String × Json)},
    PlainFields depth fs ↔ ∀ p ∈ fs, p.2.Plain depth
  | [] => by simp [PlainFields]
  | (k, v) :: fs => by rw [PlainFields, plainFields_iff, List.forall_mem_cons]

theorem plain_ofMap {depth : ℕ} (m : Std.ExtTreeMap String String) :
    (ofMap m).Plain (depth + 2) := by
  refine ⟨by omega, plainFields_iff.2 fun p hp => ?_⟩
  obtain ⟨q, -, rfl⟩ := List.mem_map.1 hp
  trivial

mutual

/-- The values that a document is read into are within the limits, too. -/
theorem plain_normal : ∀ {depth : ℕ} (j : Json), j.Plain depth → j.normal.Plain depth
  | _, .arr xs, h => by
    rw [normal]
    exact ⟨h.1, plainList_normal xs h.2⟩
  | _, .obj fs, h => by
    rw [normal]
    exact ⟨h.1, plainFields_iff.2 fun p hp =>
      plainFields_iff.1 (plainFields_normal fs h.2) p (mem_of_mem_toList_ofList hp)⟩
  | _, .null, h | _, .bool _, h | _, .num _, h | _, .float _, h | _, .str _, h => by
    simpa only [normal] using h

theorem plainList_normal : ∀ {depth : ℕ} (xs : List Json), PlainList depth xs →
    PlainList depth (normalList xs)
  | _, [], _ => trivial
  | _, x :: xs, h => ⟨plain_normal x h.1, plainList_normal xs h.2⟩

theorem plainFields_normal : ∀ {depth : ℕ} (fs : List (String × Json)), PlainFields depth fs →
    PlainFields depth (normalFields fs)
  | _, [], _ => trivial
  | _, (_, v) :: fs, h => ⟨plain_normal v h.1, plainFields_normal fs h.2⟩

end

end Json
